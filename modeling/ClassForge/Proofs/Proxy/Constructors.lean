import ClassForge.Machine.Exec
import ClassForge.Proofs.Descriptor.Dividing
import ClassForge.Proofs.Proxy.Loaded
import ClassForge.Proofs.Proxy.Storing
import ClassForge.Proofs.Proxy.Supplying

namespace ClassForge

open Outcome

def LoadedClass.Initializes (k : LoadedClass) (descriptor : String) (r : Address)
    (args : List Value) (m m' : Machine) : Prop :=
  ∃ method a m₁, k.declaredMethod? constructorName descriptor = some method ∧
    Dispatch.enter k method (.reference r :: args) m = .ok (.entered a) m₁ ∧
    a.Settles m₁ (.ok none m')

theorem Dispatch.special_constructor {owner descriptor : String} {m : Machine} {k : LoadedClass}
    {method : Method} {r : Address} {args : List Value} (other : owner ≠ objectClass)
    (ordinary : Native.isBuiltIn owner = false) (present : m.classes[owner]? = some k)
    (declared : k.declaredMethod? constructorName descriptor = some method) :
    special owner constructorName descriptor (.reference r :: args) m =
      enter k method (.reference r :: args) m := by
  have first : receiver (.reference r :: args) m = .ok r m := rfl
  rw [special, bind_of_ok first, if_neg fun root => other root.1, ordinary,
    if_neg Bool.false_ne_true, bind_of_ok (Machine.resolve_eq present), if_pos rfl, declared]
  rfl

namespace Generation.Constructs

variable {s : ProxySpec} {all : List (String × ConstructorSpec)} {c : ConstructorSpec}
  {descriptor : String} {types : List FieldType}

theorem mem (constructs : Constructs s all) (member : c ∈ constructorsOf s)
    (typed : s.constructorParams c = .ok types) : (constructorDescriptor types, c) ∈ all := by
  obtain ⟨-, new, whole, each⟩ := signatures_eq_ok constructs.signed .nil
  obtain ⟨x, inside, types', typed', rfl⟩ := exists_of_forall₂ each c member
  rw [typed, Except.ok.injEq] at typed'
  subst typed'
  rw [whole]
  exact inside

theorem exists_types (constructs : Constructs s all) (member : c ∈ constructorsOf s) :
    ∃ types, s.constructorParams c = .ok types := by
  obtain ⟨-, new, -, each⟩ := signatures_eq_ok constructs.signed .nil
  obtain ⟨x, -, types, typed, -⟩ := exists_of_forall₂ each c member
  exact ⟨types, typed⟩

theorem exists_params (constructs : Constructs s all) (member : (descriptor, c) ∈ all) :
    c ∈ constructorsOf s ∧
      ∃ types, s.constructorParams c = .ok types ∧ descriptor = constructorDescriptor types := by
  obtain ⟨-, new, whole, each⟩ := signatures_eq_ok constructs.signed .nil
  rw [whole] at member
  obtain ⟨c', inside, types, typed, same⟩ := exists_of_forall₂_right each _ member
  cases same
  exact ⟨inside, types, typed, rfl⟩

theorem eq_of_mem {c' : ConstructorSpec} (constructs : Constructs s all)
    (member : (descriptor, c) ∈ all) (member' : (descriptor, c') ∈ all) : c = c' := by
  have distinct := (signatures_eq_ok constructs.signed .nil).1
  have same := List.inj_on_of_nodup_map distinct member member' rfl
  exact (Prod.mk.inj same).2

end Generation.Constructs

theorem FieldType.declared_of_called {types declared : List FieldType}
    (readable : ∀ t ∈ types, t.Readable)
    (called : constructorDescriptor types = constructorDescriptor declared) :
    totalSlots declared ≤ totalSlots types ∧
      (totalSlots declared = totalSlots types → declared = types) := by
  refine totalSlots_le_of_spelled (fun t inside => (readable t inside).undivided) ?_
  have letters := congrArg String.toList called
  simp only [constructorDescriptor, MethodDescriptor.descriptor, String.toList_ofList,
    MethodDescriptor.letters, List.cons_append, List.cons.injEq, true_and,
    List.append_cancel_right_eq] at letters
  exact letters

namespace ProxySpec

open Activation Object

variable {s : ProxySpec} {all : List (String × ConstructorSpec)} {k : LoadedClass}
  {c : ConstructorSpec} {types params target : List FieldType} {a : Activation} {m : Machine}
  {r : Address} {args : List Value} {d : MethodDescriptor} {is : List Instruction}

/-- Instances begin as objects of the root class, and the machine has no such class of its own. -/
structure Rooted (s : ProxySpec) : Prop where
  superName : Pool.internalName s.superName = objectClass
  ordinary : Native.isBuiltIn (Pool.internalName s.name) = false
  bare : ∀ c ∈ Generation.constructorsOf s, ∀ superParams captures,
    c.kind = .forwarding superParams captures → superParams = []

/-- Parameters that are passed on have types that are read back from their descriptors, so that
descriptors say what constructors declare. -/
structure Spelled (s : ProxySpec) : Prop extends Rooted s where
  readable : ∀ c ∈ Generation.constructorsOf s, ∀ params target arguments,
    c.kind = .delegating params target arguments → ∀ t ∈ params, t.Readable

theorem captured_of_params {captures : List String}
    (typed : captures.mapM s.captureParam = .ok types) :
    List.Forall₂ (fun n t => s.captureType? n = some t) captures types := by
  induction captures generalizing types with
  | nil =>
    cases typed
    exact .nil
  | cons name captures ih =>
    obtain ⟨t, rest, first, others, rfl⟩ := mapM_cons_eq_ok.1 typed
    refine .cons ?_ (ih others)
    unfold captureParam at first
    split at first
    · rename_i t' captured
      cases first
      exact captured
    · cases first

theorem types_of_forwarding {superParams : List FieldType} {captures : List String}
    (forwards : c.kind = .forwarding superParams captures) (typed : s.constructorParams c = .ok types) :
    ∃ captured, List.Forall₂ (fun n t => s.captureType? n = some t) captures captured ∧
      types = s.declaredParams (superParams ++ captured) := by
  unfold constructorParams at typed
  rw [forwards] at typed
  obtain ⟨captured, known, same⟩ := bind_eq_ok.1 typed
  exact ⟨captured, captured_of_params known, pure_eq_ok.1 same⟩

theorem types_of_delegating {arguments : List Argument}
    (delegates : c.kind = .delegating params target arguments)
    (typed : s.constructorParams c = .ok types) : types = s.declaredParams params := by
  unfold constructorParams at typed
  rw [delegates] at typed
  cases typed
  rfl

theorem Loaded.readable_declaredParams (loaded : s.Loaded all k)
    (readable : ∀ t ∈ params, t.Readable) : ∀ t ∈ s.declaredParams params, t.Readable := by
  have handlers : ∀ c, s.handler = some c → c.type.Readable := fun c handler =>
    loaded.readable (c.field, c.type) (List.mem_append_left _ (by
      rw [handlerField, handler]
      exact List.mem_singleton_self _))
  unfold declaredParams
  cases handler : s.handler with
  | none => exact readable
  | some c =>
    simp only [List.mem_cons, forall_eq_or_imp]
    exact ⟨handlers c handler, readable⟩

theorem Loaded.readable_params (loaded : s.Loaded all k) (spelled : s.Spelled)
    (member : c ∈ Generation.constructorsOf s) (typed : s.constructorParams c = .ok types) :
    ∀ t ∈ types, t.Readable := by
  cases kind : c.kind with
  | forwarding superParams captures =>
    obtain ⟨captured, known, rfl⟩ := types_of_forwarding kind typed
    have readable : ∀ t ∈ captured, t.Readable := fun t inside => by
      obtain ⟨n, -, known⟩ := exists_of_forall₂_right known t inside
      exact loaded.readable (n, t) (mem_fields_of_captureType? known)
    rw [spelled.bare c member _ _ kind, List.nil_append]
    exact loaded.readable_declaredParams readable
  | delegating params target arguments =>
    rw [types_of_delegating kind typed]
    exact loaded.readable_declaredParams (spelled.readable c member _ _ _ kind)

theorem plain_storeParam (field : String) (type : FieldType) (position : Nat) :
    ∀ step ∈ s.storeParam field type position, step.isPlain = true := by
  simp [storeParam, Step.isPlain]

theorem plain_storeCaptures (position : Nat) (captures : List String) :
    ∀ step ∈ s.storeCaptures position captures, step.isPlain = true := by
  induction captures generalizing position with
  | nil => exact nofun
  | cons name captures ih =>
    rw [storeCaptures, storeCapture, List.forall_mem_append]
    refine ⟨?_, ih _⟩
    cases s.captureType? name with
    | some t => exact plain_storeParam name t position
    | none => simp [Step.isPlain]

theorem plain_forwardingBody (superParams : List FieldType) (captures : List String) :
    ∀ step ∈ s.forwardingBody superParams captures, step.isPlain = true := by
  have handlers : ∀ step ∈ s.storeHandler, step.isPlain = true := by
    unfold storeHandler
    cases s.handler with
    | none => exact nofun
    | some c => exact plain_storeParam _ _ _
  simp only [forwardingBody, List.forall_mem_append, List.forall_mem_map, List.forall_mem_singleton]
  exact ⟨⟨⟨⟨⟨rfl, fun _ _ => rfl⟩, rfl⟩, handlers⟩, plain_storeCaptures _ _⟩, rfl⟩

theorem plain_pushArgument (argument : Argument) (t : FieldType) :
    (s.pushArgument params argument t).isPlain = true := by
  unfold pushArgument
  dsimp only
  split
  · split
    · split <;> rfl
    · rfl
  · split <;> rfl
  · split <;> rfl

theorem plain_delegatingBody (arguments : List Argument) :
    ∀ step ∈ s.delegatingBody params target arguments, step.isPlain = true := by
  unfold delegatingBody
  split
  · exact List.forall_mem_singleton.2 rfl
  · simp only [List.forall_mem_append, List.forall_mem_map, List.forall_mem_singleton,
      List.forall_mem_cons]
    refine ⟨⟨⟨rfl, ?_⟩, fun _ _ => plain_pushArgument _ _⟩, rfl, rfl⟩
    split
    · exact List.forall_mem_singleton.2 rfl
    · exact nofun

theorem plain_constructorBody (c : ConstructorSpec) :
    ∀ step ∈ s.constructorBody c, step.isPlain = true := by
  unfold constructorBody
  split
  · exact plain_forwardingBody _ _
  · exact plain_delegatingBody _

theorem constructorBody_begins (c : ConstructorSpec) :
    (∃ rest, s.constructorBody c = .loadThis :: rest) ∨
      ∃ reason, s.constructorBody c = [.refuse reason] := by
  unfold constructorBody
  split
  · exact .inl ⟨_, rfl⟩
  · unfold delegatingBody
    split
    · exact .inr ⟨_, rfl⟩
    · exact .inl ⟨_, rfl⟩

theorem Loaded.exists_constructor (loaded : s.Loaded all k)
    (member : c ∈ Generation.constructorsOf s) (typed : s.constructorParams c = .ok types)
    (readable : ∀ t ∈ types, t.Readable) :
    ∃ method is, k.declaredMethod? constructorName (constructorDescriptor types) = some method ∧
      (s.constructorBody c).Means ⟨types, none⟩ false k.pool is ∧
      ∀ this args, this.slots = 1 → Value.Suit types args → ∃ a, a.owner = k ∧ a.Given this args ∧
        a.Runs is ∧ ∀ m, Dispatch.enter k method (this :: args) m = .ok (.entered a)
          (m.noting (.calling k.name method.name method.descriptor)) := by
  have inside := loaded.constructs.mem member typed
  have planned : s.constructorPlan (constructorDescriptor types) c ∈ s.plans all :=
    List.mem_append_left _ (List.mem_map_of_mem (f := fun x => s.constructorPlan x.1 x.2) inside)
  obtain ⟨method, p, declared, ⟨-, -, -, code, coded, made⟩, extends_⟩ := loaded.methods _ planned
  have decoded : MethodDescriptor.decode? (constructorDescriptor types) = some ⟨types, none⟩ :=
    MethodDescriptor.decode?_descriptor readable nofun
  have plain : ∀ step ∈ s.constructorBody c, step.isPlain = true := plain_constructorBody c
  have bound : (s.constructorPlan (constructorDescriptor types) c).1.isStatic = false := by
    rcases constructorBody_begins (s := s) c with ⟨rest, same⟩ | ⟨reason, same⟩
    · rw [constructorPlan, same] at made
      rw [same] at plain
      exact made.bound fun step inside => plain step (List.mem_cons_of_mem _ inside)
    · obtain ⟨d, is, -, means⟩ := made.means plain
      rw [constructorPlan, same] at means
      obtain ⟨_, _, refuses, -⟩ := means
      cases refuses
  obtain ⟨is, means, enters⟩ := made.enters plain bound decoded extends_
  refine ⟨method, is, declared, means, fun this args one suit => ?_⟩
  obtain ⟨a, entered, owner, given, runs⟩ := enters method.name this args one suit
  exact ⟨a, owner, given, runs, Dispatch.enter_eq coded entered⟩

end ProxySpec
end ClassForge
