import ClassForge.Proofs.Machine.Handlers
import ClassForge.Proxy.Bodies

namespace ClassForge

namespace Heap

variable {h h' : Heap} {t : FieldType} {v e : Value} {r : Address}

/-- What an array of arguments holds for an argument: references as they are, and other values in
a box of their wrapper class. -/
def Passes (h : Heap) (t : FieldType) (v e : Value) : Prop :=
  match t.wrapper? with
  | none => e = v
  | some wrapper => ∃ b, e = .reference b ∧ h.get b = .box wrapper v

theorem Passes.mono {component : FieldType} {elements : Array Value} (passes : h.Passes t v e)
    (array : h.get r = .array component elements) (spares : h.Spares h' r) : h'.Passes t v e := by
  unfold Passes at passes ⊢
  split
  · rename_i reference
    rwa [reference] at passes
  · rename_i wrapper wraps
    rw [wraps] at passes
    obtain ⟨b, same, box⟩ := passes
    have other : b ≠ r := by
      rintro rfl
      rw [box] at array
      cases array
    exact ⟨b, same, (spares.same b (lt_size box nofun) other).trans box⟩

end Heap

structure HandlerCall.Tells (call : HandlerCall) (this : Value) (method : String)
    (types : List FieldType) (args : List Value) : Prop where
  proxy : call.proxy = this
  method : call.method = method
  arguments : List.Forall₂ (fun p e => call.heap.Passes p.1 p.2 e) (types.zip args) call.arguments

/-- The handler is told of the call and of no other, and answers with the value. -/
structure ProxyHandler.Answers (h : ProxyHandler) (m : Machine) (call : HandlerCall) (w : Value)
    (m' : Machine) : Prop where
  before : m.heap.Grown call.heap
  behind : call.heap.Grown m'.heap
  once : m'.calls = m.calls.push call
  made : ∃ told : Machine, told.heap = call.heap ∧
    Machine.build (h.answer m.calls.size call.proxy call.method call.arguments) told = .ok w m'

theorem ProxyHandler.Answers.of_grown {h : ProxyHandler} {m m' m'' : Machine} {call : HandlerCall}
    {w : Value} (answers : h.Answers m' call w m'') (grown : m.heap.Grown m'.heap)
    (same : m'.calls = m.calls) : h.Answers m call w m'' :=
  ⟨grown.trans answers.before, answers.behind, same ▸ answers.once, same ▸ answers.made⟩

namespace HandlerContract

def signature : MethodDescriptor :=
  ⟨[.object objectClass, .object Object.stringClass, .array (.object objectClass)],
    some (.object objectClass)⟩

theorem decode?_descriptor : MethodDescriptor.decode? descriptor = some signature := by
  have spelled : descriptor = signature.descriptor := by decide
  rw [spelled]
  exact MethodDescriptor.decode?_descriptor (by decide) (by decide)

end HandlerContract

namespace ProxySpec

open Activation

variable {a : Activation} {m : Machine} {stack : List Value} {v : Value} {r : Address}
  {t : FieldType} {d : MethodDescriptor} {is : List Instruction} {this : Value} {args : List Value}

theorem plays_boxed (stack : List Value) (means : (Step.box t).Means d false a.owner.pool is) (kind : v.kind = .ofType t) :
    ∃ e m', a.Plays is (v :: stack) m (e :: stack) m' ∧ e.kind = .reference ∧
      m'.heap.Passes t v e ∧ m.Expands m' := by
  cases wraps : t.wrapper? with
  | some wrapper =>
    refine ⟨_, _, plays_box wraps means kind, rfl, ?_,
      (m.expands_remembering _).trans (Machine.expands_adding _ _)⟩
    rw [Heap.Passes, wraps]
    exact ⟨_, rfl, Heap.get_alloc _ _⟩
  | none =>
    cases means with
    | boxReference =>
      refine ⟨v, m, .nil, ?_, ?_, .refl m⟩
      · cases t <;> first | exact kind | cases wraps
      · rw [Heap.Passes, wraps]
    | box wraps' =>
      rw [wraps] at wraps'
      cases wraps'

theorem plays_passArgument {i : Nat} (means : (passArgument i t).Means d false a.owner.pool is)
    (given : a.Given this args) (suit : Value.Suit d.params args) (param : d.params[i]? = some t)
    (found : args[i]? = some v) (kind : v.kind = .ofType t) {elements : Array Value}
    (array : m.heap.get r = .array objectType elements) (inside : i < elements.size)
    (small : i < 2147483648) : ∃ e m', a.Plays is (.reference r :: stack) m (.reference r :: stack) m' ∧
      m'.heap.Passes t v e ∧ m.Beside m' ∧ m.heap.Spares m'.heap r ∧
      m'.heap.get r = .array objectType (elements.setIfInBounds i e) := by
  obtain ⟨_, _, copy, ⟨_, _, push, ⟨_, _, load, ⟨_, _, box, ⟨_, _, store, rfl, rfl⟩, rfl⟩, rfl⟩, rfl⟩,
    rfl⟩ := means
  have made : Machine.ofLiteral (.int (Int32.ofNat i)) m = .ok (.int (Int32.ofNat i)) m := rfl
  have old := Heap.lt_size array nofun
  obtain ⟨e, m₁, boxed, reference, passes, expands⟩ := plays_boxed (m := m)
    (.int (Int32.ofNat i) :: .reference r :: .reference r :: stack) box kind
  have array₁ : m₁.heap.get r = .array objectType elements :=
    (expands.heap.same r old).trans array
  refine ⟨e, m₁.changing r (Run.setElement i e), ?_, ?_, expands.toBeside.trans (m₁.beside_changing _ _),
    (expands.heap.spares r).trans (Heap.spares_modify _ _ _), ?_⟩
  · cases copy with
    | dup =>
    cases push with
    | push loads =>
    cases load with
    | loadParam param' place =>
    rw [param] at param'
    cases param'
    have held := given.param suit found
    rw [show 1 = Body.receiverSlots false from rfl, ← place] at held
    exact (plays_dup rfl).append ((plays_push loads made).append
      ((plays_load held (Value.slots_of_kind kind)).append (boxed.append
        ((plays_arrayStore store array₁ inside small reference).append .nil))))
  · exact passes.mono array₁ (Heap.spares_modify _ _ _)
  · rw [Machine.changing, Heap.get_modify (Nat.lt_of_lt_of_le old expands.heap.size), array₁]
    rfl

theorem plays_passArguments {types : List FieldType} {vs before : List Value} {i : Nat}
    (means : (passArguments i types).Means d false a.owner.pool is) (given : a.Given this args)
    (suit : Value.Suit d.params args) (few : d.params.length < 2147483648)
    (params : d.params.drop i = types) (left : args.drop i = vs) (passed : before.length = i)
    (array : m.heap.get r =
      .array objectType (before ++ List.replicate types.length Value.null).toArray) :
    ∃ es m', a.Plays is (.reference r :: stack) m (.reference r :: stack) m' ∧
      List.Forall₂ (fun p e => m'.heap.Passes p.1 p.2 e) (types.zip vs) es ∧ m.Beside m' ∧
      m.heap.Spares m'.heap r ∧ m'.heap.get r = .array objectType (before ++ es).toArray := by
  induction types generalizing i vs before m is with
  | nil =>
    cases means
    exact ⟨[], m, .nil, .nil, .refl m, .refl _ r, array⟩
  | cons t rest ih =>
    have kinds : Value.Suit (t :: rest) vs := by
      rw [← params, ← left]
      exact List.forall₂_drop i suit
    cases kinds with
    | @cons _ v _ others kind _ =>
    have param : d.params[i]? = some t := by
      rw [← Nat.add_zero i, ← List.getElem?_drop, params]
      rfl
    have found : args[i]? = some v := by
      rw [← Nat.add_zero i, ← List.getElem?_drop, left]
      rfl
    obtain ⟨first, last, here, behind, rfl⟩ := Listing.Means.append means
    have bound : i < d.params.length := (List.getElem?_eq_some_iff.1 param).1
    obtain ⟨e, m₁, plays, passes, beside, spares, array₁⟩ := plays_passArgument here given suit param
      found kind array (by simp [passed]) (by omega)
    have array₁ : m₁.heap.get r =
        .array objectType ((before ++ [e]) ++ List.replicate rest.length Value.null).toArray := by
      rw [array₁, List.setIfInBounds_toArray, List.set_append_right _ _ (by omega), passed,
        Nat.sub_self]
      simp [List.replicate_succ]
    have params' : d.params.drop (i + 1) = rest := by rw [← List.drop_drop, params, List.drop_one, List.tail_cons]
    have left' : args.drop (i + 1) = others := by rw [← List.drop_drop, left, List.drop_one, List.tail_cons]
    obtain ⟨es, m₂, plays', passes', beside', spares', array₂⟩ :=
      ih behind params' left' (by simp [passed]) array₁
    refine ⟨e :: es, m₂, plays.append plays', .cons (passes.mono array₁ spares') passes',
      beside.trans beside', spares.trans spares', ?_⟩
    rw [array₂, List.append_assoc, List.singleton_append]

theorem plays_handler {c : HandlerContract} {handlerAt said : Address} {h : ProxyHandler}
    {text : String} {es : List Value}
    (means : (Step.invokeInterface c.interface c.method HandlerContract.descriptor).Means d false
      a.owner.pool is)
    (stands : m.heap.get handlerAt = .handler h) (named : m.heap.get said = .string text)
    (array : m.heap.get r = .array objectType es.toArray) (reference : this.slots = 1)
    (answers : (h.answer m.calls.size this text es).isReference = true) : ∃ w m',
      a.Plays is (.reference r :: .reference said :: this :: .reference handlerAt :: stack) m
        (w :: stack) m' ∧ w.kind = .reference ∧ m.Beside { m' with calls := m.calls } ∧
      h.Answers m ⟨m.heap, this, text, es⟩ w m' := by
  let call : HandlerCall := ⟨m.heap, this, text, es⟩
  let told := (m.remembering HandlerContract.descriptor).telling h call
  obtain ⟨w, m', made, expands, kind⟩ := Machine.exists_build (h.answer m.calls.size this text es) told
  refine ⟨w, m', ?_, kind answers, ⟨expands.classes, expands.statics, rfl⟩,
    ⟨.refl _, expands.heap, expands.calls, told, rfl, made⟩⟩
  cases means with
  | invokeInterface decoded ref =>
  rw [HandlerContract.decode?_descriptor] at decoded
  cases decoded
  have dispatched : Dispatch.virtual c.method HandlerContract.descriptor
      [.reference handlerAt, this, .reference said, .reference r]
        (m.remembering HandlerContract.descriptor) = .ok (.answered (some w)) m' := by
    refine (Machine.virtual_handler (m := m.remembering _) stands named array).trans ?_
    exact Outcome.bind_of_ok made
  refine plays_answered [.reference handlerAt, this, .reference said, .reference r]
    (isCall_invokeInterface _ _) ref HandlerContract.decode?_descriptor rfl ?_
    (Value.slots_of_kind (t := .object objectClass) (kind answers)) dispatched
  simp only [Value.totalSlots_cons, Value.totalSlots_nil, Value.slots_reference, reference]
  rfl

theorem ends_returned {w : Value} {outcome : Except MachineError (Option Value)}
    (means : Listing.Means d false a.owner.pool
      [match d.returns with
        | some t => .unbox t
        | none => .pop,
        .leave] is)
    (undotted : ∀ t, d.returns = some t → '.' ∉ t.letters) (reference : w.kind = .reference)
    (gives : m.heap.returned? w d.returns = some outcome) :
    ∃ m', a.Ends is (w :: stack) m (m'.concluding outcome) ∧ m'.heap = m.heap ∧ m.Beside m' := by
  cases returns : d.returns with
  | some t =>
    rw [returns] at means gives
    exact ends_answer returns (undotted t returns) means reference gives
  | none =>
    rw [returns] at means gives
    cases gives
    obtain ⟨_, _, drops, ⟨_, _, leaves, rfl, rfl⟩, rfl⟩ := means
    cases drops with
    | pop =>
    cases leaves with
    | leave =>
    have stops : a.Stops (.leave none) stack m (.ok none m) := stops_leave
    refine ⟨m, (plays_pop (Value.slots_of_kind (t := .object objectClass) reference)).ends ?_, rfl,
      .refl m⟩
    rw [returns]
    exact stops.ends rfl []

variable {s : ProxySpec} {c : HandlerContract} {name : String} {own : LoadedClass}
  {fields : Std.TreeMap String Value} {receiver handlerAt : Address} {h : ProxyHandler}

theorem plays_opening {text : String} {n : Nat}
    (means : Listing.Means d false a.owner.pool [.loadThis, .field .get s.name c.field c.type,
      .loadThis, .push (.string text), .push (.int (Int32.ofNat n)), .newArray objectType] is)
    (given : a.Given (.reference receiver) args) (small : n < 2147483648)
    (plain : m.heap.get receiver = .plain own fields)
    (held : fields[c.field]? = some (.reference handlerAt)) :
    a.Plays is [] m [.reference ⟨(m.adding (.string text)).heap.size⟩, .reference ⟨m.heap.size⟩,
      .reference receiver, .reference handlerAt]
      ((m.adding (.string text)).adding (.array objectType (Array.replicate n .null))) := by
  obtain ⟨_, _, load, ⟨_, _, get, ⟨_, _, loadAgain, ⟨_, _, pushText, ⟨_, _, pushCount,
    ⟨_, _, create, rfl, rfl⟩, rfl⟩, rfl⟩, rfl⟩, rfl⟩, rfl⟩ := means
  cases load with
  | loadThis =>
  cases loadAgain with
  | loadThis =>
  cases pushText with
  | push loadsText =>
  cases pushCount with
  | push loadsCount =>
  have receives (stack : List Value) : a.Plays [⟨.load .reference 0, 0, 1⟩] stack m
      (.reference receiver :: stack) m := plays_load given.this given.receiver
  exact (receives []).append ((plays_getField get plain held rfl).append
    ((receives _).append ((plays_push loadsText rfl).append ((plays_push loadsCount rfl).append
      ((plays_newArray create small).append .nil)))))

theorem ends_handlerBody (means : (s.handlerBody c name d).Means d false a.owner.pool is)
    (given : a.Given (.reference receiver) args) (suit : Value.Suit d.params args)
    (few : d.params.length < 2147483648) (undotted : ∀ t, d.returns = some t → '.' ∉ t.letters)
    (plain : m.heap.get receiver = .plain own fields)
    (held : fields[c.field]? = some (.reference handlerAt))
    (stands : m.heap.get handlerAt = .handler h)
    (answers : ∀ proxy method elements,
      (h.answer m.calls.size proxy method elements).isReference = true) :
    ∃ call w m₁, call.Tells (.reference receiver) (name ++ d.descriptor) d.params args ∧
      h.Answers m call w m₁ ∧ (∃ js, js <+: is ∧ a.Plays js [] m [w] m₁) ∧
      ∀ outcome, m₁.heap.returned? w d.returns = some outcome →
        ∃ m₂, a.Ends is [] m (m₂.concluding outcome) ∧ m₂.heap = m₁.heap ∧ m₁.Beside m₂ := by
  obtain ⟨_, others, preparing, ending, rfl⟩ := Listing.Means.append means
  obtain ⟨_, _, opening, passing, rfl⟩ := Listing.Means.append preparing
  obtain ⟨_, _, asks, returning, rfl⟩ := ending
  let said : Address := ⟨m.heap.size⟩
  let withText := m.adding (.string (name ++ d.descriptor))
  let empty : Object := .array objectType (Array.replicate d.params.length .null)
  let r : Address := ⟨withText.heap.size⟩
  have array : (withText.adding empty).heap.get r =
      .array objectType ([] ++ List.replicate d.params.length Value.null).toArray := by
    rw [List.nil_append, List.toArray_replicate]
    exact Heap.get_alloc _ _
  obtain ⟨es, m₁, passes, elements, beside, spares, array₁⟩ :=
    plays_passArguments passing given suit few rfl rfl rfl array
  have expands := m.expands_adding (.string (name ++ d.descriptor))
  have added := withText.expands_adding empty
  have grownText : withText.heap.Grown m₁.heap :=
    ((added.heap.spares r).trans spares).grown (Nat.le_refl _)
  have grown := expands.heap.trans grownText
  have same : m₁.calls = m.calls := beside.calls.trans (added.calls.trans expands.calls)
  have stands₁ : m₁.heap.get handlerAt = .handler h :=
    (grown.same _ (Heap.lt_size stands nofun)).trans stands
  have named₁ : m₁.heap.get said = .string (name ++ d.descriptor) := by
    have inside : m.heap.size < withText.heap.size :=
      Nat.lt_of_lt_of_eq (Nat.lt_succ_self _) (Heap.size_alloc _ _).symm
    exact (grownText.same said inside).trans (Heap.get_alloc _ _)
  obtain ⟨w, m₂, asked, reference, -, answered⟩ :=
    plays_handler asks stands₁ named₁ array₁ (Value.slots_reference receiver)
      (same ▸ answers _ _ _)
  have prepares := (plays_opening opening given few plain held).append passes
  refine ⟨_, w, m₂, ⟨rfl, rfl, elements⟩, answered.of_grown grown same,
    ⟨_, ?_, prepares.append asked⟩, fun outcome gives => ?_⟩
  · rw [List.prefix_append_right_inj]
    exact List.prefix_append _ _
  · obtain ⟨m₃, ends, heap, beside'⟩ := ends_returned returning undotted reference gives
    exact ⟨m₃, prepares.ends (asked.ends ends), heap, beside'⟩

end ProxySpec
end ClassForge
