import ClassForge.Proofs.Machine.Calls
import ClassForge.Proofs.Proxy.Generated

namespace ClassForge

def Object.fill (fields : Std.TreeMap String Value) (names : List String) (vs : List Value) :
    Std.TreeMap String Value := (names.zip vs).foldl (fun fields p => fields.insert p.1 p.2) fields

namespace ProxySpec

open Activation Object

variable {s : ProxySpec} {a : Activation} {m : Machine} {r : Address} {k : LoadedClass}
  {fields : Std.TreeMap String Value} {d : MethodDescriptor} {is : List Instruction}
  {args : List Value}

def filled (s : ProxySpec) (captures : List String) : List String :=
  s.handlerField.map (·.1) ++ captures

structure Refills (m m' : Machine) (r : Address) (k : LoadedClass)
    (fields : Std.TreeMap String Value) : Prop extends m.Beside m' where
  heap : m.heap.Spares m'.heap r
  plain : m'.heap.get r = .plain k fields

theorem Refills.of_expands {m₁ m' : Machine} (refills : Refills m₁ m' r k fields)
    (expands : m.Expands m₁) : Refills m m' r k fields :=
  ⟨expands.toBeside.trans refills.toBeside, (expands.heap.spares r).trans refills.heap,
    refills.plain⟩

theorem plays_storeParam {field : String} {type : FieldType} {i : Nat} {v : Value}
    (means : (s.storeParam field type i).Means d false a.owner.pool is)
    (given : a.Given (.reference r) args) (suit : Value.Suit d.params args)
    (param : d.params[i]? = some type) (found : args[i]? = some v) (kind : v.kind = .ofType type)
    (plain : m.heap.get r = .plain k fields) (declared : fields.contains field = true) :
    a.Plays is [] m [] (m.changing r fun _ => .plain k (fields.insert field v)) := by
  obtain ⟨_, _, receives, ⟨_, _, loads, ⟨_, _, puts, rfl, rfl⟩, rfl⟩, rfl⟩ := means
  have slots := Value.slots_of_kind kind
  cases receives with
  | loadThis =>
  cases loads with
  | loadParam param' place =>
  rw [param] at param'
  cases param'
  have held := given.param suit found
  rw [show 1 = Body.receiverSlots false from rfl, ← place] at held
  exact (plays_load given.this given.receiver).append ((plays_load held slots).append
    ((plays_putField puts plain declared slots).append .nil))

theorem contains_insert_of_contains {name other : String} {v : Value}
    (declared : fields.contains name = true) : (fields.insert other v).contains name = true := by
  rw [Std.TreeMap.contains_insert, declared, Bool.or_true]

theorem plays_storeCaptures {names : List String} {types : List FieldType} {vs : List Value}
    {position : Nat} (means : (s.storeCaptures position names).Means d false a.owner.pool is)
    (given : a.Given (.reference r) args) (suit : Value.Suit d.params args)
    (captured : List.Forall₂ (fun n t => s.captureType? n = some t) names types)
    (params : d.params.drop position = types) (left : args.drop position = vs)
    (plain : m.heap.get r = .plain k fields) (declared : ∀ n ∈ names, fields.contains n = true) :
    ∃ m', a.Plays is [] m [] m' ∧ Refills m m' r k (fill fields names vs) := by
  induction captured generalizing position vs fields m is with
  | nil =>
    cases means
    exact ⟨m, .nil, ⟨.refl m, .refl _ r, plain⟩⟩
  | @cons name type names types known _ ih =>
    have kinds : Value.Suit (type :: types) vs := by
      rw [← params, ← left]
      exact List.forall₂_drop position suit
    cases kinds with
    | @cons _ v _ vs kind _ =>
    have param : d.params[position]? = some type := by
      rw [← Nat.add_zero position, ← List.getElem?_drop, params]
      rfl
    have found : args[position]? = some v := by
      rw [← Nat.add_zero position, ← List.getElem?_drop, left]
      rfl
    simp only [List.mem_cons, forall_eq_or_imp] at declared
    rw [storeCaptures, storeCapture, known] at means
    obtain ⟨first, last, here, behind, rfl⟩ := Listing.Means.append means
    have plays := plays_storeParam here given suit param found kind plain declared.1
    let m₁ := m.changing r fun _ => .plain k (fields.insert name v)
    have old := Heap.lt_size_of_plain plain
    have plain₁ : m₁.heap.get r = .plain k (fields.insert name v) := Heap.get_modify old _
    obtain ⟨m₂, plays', refills⟩ := ih behind
      (by rw [← List.drop_drop, params, List.drop_one, List.tail_cons])
      (by rw [← List.drop_drop, left, List.drop_one, List.tail_cons]) plain₁
      fun n inside => contains_insert_of_contains (declared.2 n inside)
    exact ⟨m₂, plays.append plays', ⟨(m.beside_changing r _).trans refills.toBeside,
      (m.heap.spares_modify r _).trans refills.heap, refills.plain⟩⟩

theorem plays_storeHandler {types : List FieldType}
    (means : s.storeHandler.Means d false a.owner.pool is) (given : a.Given (.reference r) args)
    (suit : Value.Suit d.params args) (params : d.params = s.declaredParams types)
    (plain : m.heap.get r = .plain k fields)
    (declared : ∀ f ∈ s.handlerField, fields.contains f.1 = true) :
    ∃ m', a.Plays is [] m [] m' ∧
      Refills m m' r k (fill fields (s.handlerField.map (·.1)) args) := by
  unfold storeHandler at means
  unfold handlerField at declared ⊢
  cases handler : s.handler with
  | none =>
    rw [handler] at means
    cases means
    exact ⟨m, .nil, ⟨.refl m, .refl _ r, plain⟩⟩
  | some c =>
    rw [handler] at means declared
    rw [declaredParams, handler] at params
    have kinds := suit
    rw [params] at kinds
    cases kinds with
    | @cons _ v _ rest kind _ =>
    have param : d.params[0]? = some c.type := by rw [params]; rfl
    have contained := declared _ (List.mem_singleton_self _)
    exact ⟨_, plays_storeParam means given suit param rfl kind plain contained,
      m.beside_changing r _, m.heap.spares_modify r _,
      Heap.get_modify (Heap.lt_size_of_plain plain) _⟩

theorem contains_fill {name : String} {names : List String} {vs : List Value}
    (declared : fields.contains name = true) : (fill fields names vs).contains name = true := by
  unfold fill
  induction names.zip vs generalizing fields with
  | nil => exact declared
  | cons p rest ih => exact ih (contains_insert_of_contains declared)

theorem mem_fields_of_captureType? {name : String} {t : FieldType}
    (captured : s.captureType? name = some t) : (name, t) ∈ s.fields := by
  obtain ⟨before, behind, captures, -⟩ := List.lookup_eq_some_iff.1 captured
  rw [fields, captures]
  simp

theorem fill_filled {captures : List String} {types : List FieldType}
    (suit : Value.Suit (s.declaredParams types) args) :
    fill (fill fields (s.handlerField.map (·.1)) args) captures (args.drop s.handlerParams) =
      fill fields (s.filled captures) args := by
  unfold filled handlerField handlerParams
  unfold declaredParams at suit
  cases handler : s.handler with
  | none => rfl
  | some c =>
    rw [handler] at suit
    cases suit
    rfl

theorem drop_declaredParams (types : List FieldType) :
    (s.declaredParams types).drop s.handlerParams = types := by
  unfold declaredParams handlerParams
  cases s.handler <;> rfl

theorem plays_super {superName : String} (rooted : Pool.internalName superName = objectClass)
    (means : (Step.invoke .special superName constructorName (constructorDescriptor [])).Means d false
      a.owner.pool is) :
    ∃ descriptor, a.Plays is [.reference r] m [] (m.remembering descriptor) := by
  cases means with
  | @invoke _ _ _ _ d' i decoded named =>
  have known : MethodDescriptor.decode? (constructorDescriptor []) = some ⟨[], none⟩ :=
    MethodDescriptor.decode?_descriptor nofun nofun
  rw [known] at decoded
  cases decoded
  rw [rooted] at named
  exact ⟨_, plays_done [.reference r] (isCall_invoke .special i) named known rfl rfl rfl rfl⟩

theorem ends_forwardingBody {captures : List String} {types : List FieldType}
    (means : (s.forwardingBody [] captures).Means ⟨s.declaredParams types, none⟩ false
      a.owner.pool is)
    (rooted : Pool.internalName s.superName = objectClass)
    (captured : List.Forall₂ (fun n t => s.captureType? n = some t) captures types)
    (given : a.Given (.reference r) args) (suit : Value.Suit (s.declaredParams types) args)
    (plain : m.heap.get r = .plain k fields)
    (declared : ∀ f ∈ s.fields, fields.contains f.1 = true) :
    ∃ m', a.Ends is [] m (.ok none m') ∧ Refills m m' r k (fill fields (s.filled captures) args) := by
  have whole : s.forwardingBody [] captures = .loadThis ::
      .invoke .special s.superName constructorName (constructorDescriptor []) ::
        (s.storeHandler ++ (s.storeCaptures s.handlerParams captures ++ [.leave])) := by
    simp [forwardingBody]
  rw [whole] at means
  obtain ⟨_, _, receives, ⟨_, _, calls, behind, rfl⟩, rfl⟩ := means
  obtain ⟨_, _, handles, left, rfl⟩ := Listing.Means.append behind
  obtain ⟨_, _, stores, ⟨_, _, leaves, rfl, rfl⟩, rfl⟩ := Listing.Means.append left
  cases receives with
  | loadThis =>
  cases leaves with
  | leave =>
  obtain ⟨descriptor, constructs⟩ := plays_super (m := m) (r := r) rooted calls
  obtain ⟨m₁, handled, first⟩ := plays_storeHandler (m := m.remembering descriptor) handles given
    suit rfl plain fun f inside => declared f (List.mem_append_left _ inside)
  have contained : ∀ n ∈ captures,
      (fill fields (s.handlerField.map (·.1)) args).contains n = true := fun n inside => by
    obtain ⟨t, -, known⟩ := exists_of_forall₂ captured n inside
    exact contains_fill (declared _ (mem_fields_of_captureType? known))
  obtain ⟨m₂, stored, second⟩ := plays_storeCaptures stores given suit captured
    (s.drop_declaredParams types) rfl first.plain contained
  refine ⟨m₂, (plays_load given.this given.receiver).ends (constructs.ends (handled.ends
    (stored.ends (stops_leave.ends rfl _)))), ?_⟩
  rw [← fill_filled suit]
  exact ⟨(m.beside_remembering descriptor).trans (first.toBeside.trans second.toBeside),
    first.heap.trans second.heap, second.plain⟩

end ProxySpec
end ClassForge
