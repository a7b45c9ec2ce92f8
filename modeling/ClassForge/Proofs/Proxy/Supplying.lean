import ClassForge.Proofs.Discipline
import ClassForge.Proofs.Machine.Objects
import ClassForge.Proxy.Bodies

namespace ClassForge

/-- What a parameter stands for: a value, or a constant that becomes one where it is needed. -/
inductive Supply where
  | value (v : Value)
  | literal (l : Literal)
deriving DecidableEq, Repr

def Argument.supply? (own : List Supply) : Argument → Option Supply
  | parameter i => own[i]?
  | literal l => some (.literal l)
  | null => some (.value .null)

def Value.Alike (h h' : Heap) (v w : Value) : Prop :=
  v = w ∨ ∃ text, h.string? v = some text ∧ h'.string? w = some text

namespace Supply

/-- The value is what is supplied. Text may be any string of the same content. -/
def Holds (h : Heap) : Supply → Value → Prop
  | value v, w => w = v
  | literal (.int n), w => w = .int n
  | literal (.long n), w => w = .long n
  | literal (.float n), w => w = .float n
  | literal (.double n), w => w = .double n
  | literal (.string text), w => ∃ a : Address, w = .reference a ∧ a.index < h.size ∧
    h.get a = .string text

variable {h h' : Heap} {supply : Supply} {v w : Value} {r : Address}

theorem Holds.mono (holds : supply.Holds h w) (size : h.size ≤ h'.size)
    (kept : ∀ a : Address, ∀ text, a.index < h.size → h.get a = .string text →
      h'.get a = .string text) : supply.Holds h' w := by
  match supply with
  | .literal (.string text) =>
    obtain ⟨a, rfl, old, found⟩ := holds
    exact ⟨a, rfl, Nat.lt_of_lt_of_le old size, kept a text old found⟩
  | .value _ | .literal (.int _) | .literal (.long _) | .literal (.float _)
  | .literal (.double _) => exact holds

theorem Holds.grown (holds : supply.Holds h w) (grown : h.Grown h') : supply.Holds h' w :=
  holds.mono grown.size fun a _ old found => (grown.same a old).trans found

theorem Holds.spares (holds : supply.Holds h w) (spares : h.Spares h' r)
    (other : ∀ text, h.get r ≠ .string text) : supply.Holds h' w :=
  holds.mono spares.size fun a text old found =>
    (spares.same a old fun same => other text (same ▸ found)).trans found

theorem Holds.kind_eq (left : supply.Holds h v) (right : supply.Holds h' w) : v.kind = w.kind := by
  match supply with
  | .literal (.string _) =>
    obtain ⟨_, rfl, -⟩ := left
    obtain ⟨_, rfl, -⟩ := right
    rfl
  | .value _ | .literal (.int _) | .literal (.long _) | .literal (.float _)
  | .literal (.double _) => rw [left, right]

theorem Holds.alike (left : supply.Holds h v) (right : supply.Holds h' w) : v.Alike h h' w := by
  match supply with
  | .literal (.string text) =>
    obtain ⟨_, rfl, -, found⟩ := left
    obtain ⟨_, rfl, -, found'⟩ := right
    refine .inr ⟨text, ?_, ?_⟩
    · simp only [Heap.string?, Heap.object?, Value.address?, Option.map_some, found]
    · simp only [Heap.string?, Heap.object?, Value.address?, Option.map_some, found']
  | .value _ | .literal (.int _) | .literal (.long _) | .literal (.float _)
  | .literal (.double _) => exact .inl (left.trans right.symm)

theorem exists_ofLiteral (l : Literal) (m : Machine) : ∃ w m', Machine.ofLiteral l m = .ok w m' ∧
    m.Expands m' ∧ (literal l).Holds m'.heap w := by
  cases l with
  | string text =>
    refine ⟨_, _, Machine.alloc_eq m _, m.expands_adding _, _, rfl, ?_, Heap.get_alloc _ _⟩
    rw [Machine.adding, Heap.size_alloc]
    exact Nat.lt_succ_self _
  | _ => exact ⟨_, m, rfl, .refl m, rfl⟩

end Supply

theorem ofType_eq_of_assignable {source target : FieldType}
    (fits : assignable source target = true) :
    ValueKind.ofType source = ValueKind.ofType target := by
  unfold assignable at fits
  split at fits
  · rfl
  · rfl
  · rw [of_decide_eq_true fits]

theorem kind_of_literalFits {l : Literal} {target : FieldType} {h : Heap} {w : Value}
    (fits : literalFits l target = true) (holds : (Supply.literal l).Holds h w) :
    w.kind = .ofType target := by
  cases l with
  | int n =>
    cases holds
    cases target <;> first | rfl | cases fits
  | string text =>
    obtain ⟨a, rfl, -⟩ := holds
    exact ofType_eq_of_assignable fits
  | _ =>
    cases holds
    cases target <;> first | rfl | cases fits

namespace ProxySpec

open Activation

variable {s : ProxySpec} {a : Activation} {m : Machine} {this : Value} {d : MethodDescriptor}
  {is : List Instruction} {args : List Value} {params target : List FieldType}
  {own passed : List Supply}

theorem getElem?_declaredParams (params : List FieldType) (i : Nat) :
    (s.declaredParams params)[s.handlerParams + i]? = params[i]? := by
  unfold declaredParams handlerParams
  cases s.handler with
  | none => rw [Option.isSome_none, if_neg Bool.false_ne_true, Nat.zero_add]
  | some c => rw [Option.isSome_some, if_pos rfl, Nat.add_comm, List.getElem?_cons_succ]

theorem plays_pushArgument {argument : Argument} {t : FieldType} {supply : Supply}
    (means : (s.pushArgument params argument t).Means d false a.owner.pool is)
    (given : a.Given this args) (suit : Value.Suit d.params args)
    (same : d.params = s.declaredParams params)
    (holds : List.Forall₂ (Supply.Holds m.heap) own (args.drop s.handlerParams))
    (supplied : argument.supply? own = some supply) (stack : List Value) :
    ∃ w m', a.Plays is stack m (w :: stack) m' ∧ m.Expands m' ∧ supply.Holds m'.heap w ∧
      w.kind = .ofType t := by
  cases argument with
  | parameter i =>
    simp only [pushArgument] at means
    split at means
    · rename_i source known
      split at means
      · rename_i fits
        obtain ⟨w, given_, holds⟩ := getElem?_of_forall₂ holds supplied
        rw [List.getElem?_drop] at given_
        cases means with
        | @loadParam _ t' slot param place =>
        rw [same, getElem?_declaredParams, known, Option.some.injEq] at param
        subst param
        have param : d.params[s.handlerParams + i]? = some source := by
          rw [same, getElem?_declaredParams, known]
        have kind : w.kind = .ofType source := by
          obtain ⟨w', found, kind⟩ := getElem?_of_forall₂ suit param
          rw [given_, Option.some.injEq] at found
          exact found ▸ kind
        have held := given.param suit given_
        rw [show 1 = Body.receiverSlots false from rfl, ← place] at held
        exact ⟨w, m, plays_load held (Value.slots_of_kind kind), .refl m, holds,
          kind.trans (ofType_eq_of_assignable fits)⟩
      · cases means
    · cases means
  | literal l =>
    cases supplied
    simp only [pushArgument] at means
    split at means
    · rename_i fits
      cases means with
      | push loads =>
      obtain ⟨w, m', made, expands, holds⟩ := Supply.exists_ofLiteral l m
      exact ⟨w, m', plays_push loads made, expands, holds, kind_of_literalFits fits holds⟩
    · cases means
  | null =>
    cases supplied
    simp only [pushArgument] at means
    split at means
    · rename_i reference
      cases means
      refine ⟨.null, m, plays_pushNull, .refl m, rfl, ?_⟩
      cases t <;> first | rfl | cases reference
    · cases means

theorem plays_pushArguments {arguments : List Argument}
    (means : Listing.Means d false a.owner.pool
      ((arguments.zip target).map fun x => s.pushArgument params x.1 x.2) is)
    (given : a.Given this args) (suit : Value.Suit d.params args)
    (same : d.params = s.declaredParams params)
    (holds : List.Forall₂ (Supply.Holds m.heap) own (args.drop s.handlerParams))
    (count : arguments.length = target.length)
    (supplied : arguments.mapM (Argument.supply? own) = some passed) (stack : List Value) :
    ∃ ws m', a.Plays is stack m (ws.reverse ++ stack) m' ∧ m.Expands m' ∧
      List.Forall₂ (Supply.Holds m'.heap) passed ws ∧ Value.Suit target ws := by
  induction arguments generalizing target is m stack passed with
  | nil =>
    rw [List.length_nil, eq_comm, List.length_eq_zero_iff] at count
    subst count
    cases means
    cases supplied
    exact ⟨[], m, .nil, .refl m, .nil, .nil⟩
  | cons argument arguments ih =>
    cases target with
    | nil => cases count
    | cons t target =>
    obtain ⟨_, _, here, behind, rfl⟩ := means
    simp only [List.mapM_cons, Option.bind_eq_bind, Option.bind_eq_some_iff, Option.pure_def,
      Option.some.injEq] at supplied
    obtain ⟨supply, first, others, rest, rfl⟩ := supplied
    obtain ⟨w, m₁, plays, expands, held, kind⟩ :=
      plays_pushArgument here given suit same holds first stack
    have holds₁ := holds.imp fun _ _ holds => Supply.Holds.grown holds expands.heap
    obtain ⟨ws, m₂, plays', expands', held', suit'⟩ :=
      ih behind holds₁ (Nat.succ.inj count) rest (w :: stack)
    refine ⟨w :: ws, m₂, ?_, expands.trans expands', .cons (held.grown expands'.heap) held',
      .cons kind suit'⟩
    rw [List.reverse_cons, List.append_assoc, List.singleton_append]
    exact plays.append plays'

theorem exists_supplies {arguments : List Argument} {p : Pool}
    (means : Listing.Means d false p
      ((arguments.zip target).map fun x => s.pushArgument params x.1 x.2) is)
    (count : arguments.length = target.length) (length : own.length = params.length) :
    ∃ passed, arguments.mapM (Argument.supply? own) = some passed := by
  induction arguments generalizing target is with
  | nil =>
    rw [List.length_nil, eq_comm, List.length_eq_zero_iff] at count
    subst count
    exact ⟨[], rfl⟩
  | cons argument arguments ih =>
    cases target with
    | nil => cases count
    | cons t target =>
    obtain ⟨_, _, here, behind, rfl⟩ := means
    obtain ⟨passed, rest⟩ := ih behind (Nat.succ.inj count)
    have known : ∃ supply, argument.supply? own = some supply := by
      cases argument with
      | parameter i =>
        simp only [pushArgument] at here
        split at here
        · rename_i source known
          have inside : i < own.length := length ▸ (List.getElem?_eq_some_iff.1 known).1
          exact ⟨own[i], List.getElem?_eq_getElem inside⟩
        · cases here
      | literal l => exact ⟨_, rfl⟩
      | null => exact ⟨_, rfl⟩
    obtain ⟨supply, first⟩ := known
    refine ⟨supply :: passed, ?_⟩
    rw [List.mapM_cons, first, rest]
    rfl

end ProxySpec
end ClassForge
