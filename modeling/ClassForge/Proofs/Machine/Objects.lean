import ClassForge.Proofs.Machine.Heap
import ClassForge.Proofs.Machine.Operands

namespace ClassForge

namespace Heap

theorem isInstance_objectClass (h : Heap) (a : Address) :
    h.isInstance (.reference a) objectClass = true := by
  simp [isInstance, object?, Value.address?]

end Heap

namespace Machine

def adding (m : Machine) (o : Object) : Machine := { m with heap := (m.heap.alloc o).2 }

def noting (m : Machine) (e : Event) : Machine := { m with journal := m.journal.push e }

def changing (m : Machine) (a : Address) (f : Object → Object) : Machine :=
  { m with heap := m.heap.modify a f }

def remembering (m : Machine) (descriptor : String) : Machine :=
  { m with cache := (m.cache.method? descriptor).2 }

theorem alloc_eq (m : Machine) (o : Object) :
    alloc o m = .ok (.reference ⟨m.heap.size⟩) (m.adding o) := rfl

theorem decodeDescriptor_eq {descriptor : String} {d : MethodDescriptor}
    (decoded : MethodDescriptor.decode? descriptor = some d) (m : Machine) :
    decodeDescriptor descriptor m = .ok d (m.remembering descriptor) := by
  have found := m.cache.method?_fst descriptor
  rw [decoded] at found
  simp only [decodeDescriptor, remembering, found]

/-- Another heap, and nothing else that programs can tell. -/
structure Beside (m m' : Machine) : Prop where
  classes : m'.classes = m.classes
  statics : m'.statics = m.statics
  calls : m'.calls = m.calls

theorem Beside.refl (m : Machine) : m.Beside m := ⟨rfl, rfl, rfl⟩

theorem Beside.trans {m m' m'' : Machine} (first : m.Beside m') (second : m'.Beside m'') :
    m.Beside m'' :=
  ⟨second.classes.trans first.classes, second.statics.trans first.statics,
    second.calls.trans first.calls⟩

structure Expands (m m' : Machine) : Prop extends Beside m m' where
  heap : m.heap.Grown m'.heap

theorem Expands.refl (m : Machine) : m.Expands m := ⟨.refl m, .refl _⟩

theorem Expands.trans {m m' m'' : Machine} (first : m.Expands m') (second : m'.Expands m'') :
    m.Expands m'' := ⟨first.toBeside.trans second.toBeside, first.heap.trans second.heap⟩

theorem expands_adding (m : Machine) (o : Object) : m.Expands (m.adding o) :=
  ⟨⟨rfl, rfl, rfl⟩, m.heap.grown_alloc o⟩

theorem expands_remembering (m : Machine) (descriptor : String) :
    m.Expands (m.remembering descriptor) := ⟨⟨rfl, rfl, rfl⟩, .refl _⟩

theorem expands_noting (m : Machine) (e : Event) : m.Expands (m.noting e) :=
  ⟨⟨rfl, rfl, rfl⟩, .refl _⟩

theorem beside_changing (m : Machine) (a : Address) (f : Object → Object) :
    m.Beside (m.changing a f) := ⟨rfl, rfl, rfl⟩

theorem beside_remembering (m : Machine) (descriptor : String) :
    m.Beside (m.remembering descriptor) := ⟨rfl, rfl, rfl⟩

open Outcome

variable {m : Machine} {r : Address} {c : LoadedClass} {fields : Std.TreeMap String Value}
  {name : String} {v : Value}

theorem resolve_eq {k : LoadedClass} (present : m.classes[name]? = some k) :
    resolve name m = .ok k m := by
  have got : (get : MachineM Machine) m = .ok m m := rfl
  rw [resolve, bind_of_ok got, present]
  rfl

theorem target_reference (m : Machine) (r : Address) : target (.reference r) m = .ok r m := rfl

theorem object_eq (m : Machine) (r : Address) : object r m = .ok (m.heap.get r) m := rfl

theorem getField_of_plain (plain : m.heap.get r = .plain c fields) (found : fields[name]? = some v) :
    getField (.reference r) name m = .ok v m := by
  rw [getField, bind_of_ok (target_reference m r), bind_of_ok (object_eq m r), plain]
  dsimp only
  rw [found]
  rfl

theorem putField_of_plain (plain : m.heap.get r = .plain c fields)
    (declared : fields.contains name = true) : putField (.reference r) name v m =
      .ok () (m.changing r fun _ => .plain c (fields.insert name v)) := by
  rw [putField, bind_of_ok (target_reference m r), bind_of_ok (object_eq m r), plain]
  dsimp only
  rw [if_pos declared]
  rfl

end Machine

namespace Activation

open Outcome Run

variable {a : Activation} {m : Machine} {stack : List Value} {v : Value} {r : Address}
  {d : MethodDescriptor} {isStatic : Bool} {new : List Instruction}

variable {owner name : String} {t : FieldType} {c : LoadedClass}
  {fields : Std.TreeMap String Value}

theorem plays_getField
    (means : (Step.field .get owner name t).Means d isStatic a.owner.pool new)
    (plain : m.heap.get r = .plain c fields) (found : fields[name]? = some v)
    (slots : v.slots = t.slots) : a.Plays new (.reference r :: stack) m (v :: stack) m := by
  cases means with
  | @field _ _ _ _ i named =>
  refine plays_going (Run.field .get i) rfl rfl (fun _ _ _ => rfl) ?_ fun room pc => ?_
  · simp only [Value.totalSlots_cons, FieldAccess.moves, slots, Value.slots_reference]
    omega
  · have got : (onMachine (Machine.getField (.reference r) name)) ⟨a.holding pc stack, m⟩ =
        .ok v ⟨a.holding pc stack, m⟩ := onMachine_of_ok (Machine.getField_of_plain plain found)
    rw [Run.field, bind_of_ok (member_holding named)]
    dsimp only
    rw [bind_of_ok (popReference_holding rfl), bind_of_ok got, push_holding room]

theorem plays_putField
    (means : (Step.field .put owner name t).Means d isStatic a.owner.pool new)
    (plain : m.heap.get r = .plain c fields) (declared : fields.contains name = true)
    (slots : v.slots = t.slots) : a.Plays new (v :: .reference r :: stack) m stack
      (m.changing r fun _ => .plain c (fields.insert name v)) := by
  cases means with
  | @field _ _ _ _ i named =>
  refine plays_going (Run.field .put i) rfl rfl (fun _ _ _ => rfl) ?_ fun _ pc => ?_
  · simp only [Value.totalSlots_cons, FieldAccess.moves, slots, Value.slots_reference]
    omega
  · rw [Run.field, bind_of_ok (member_holding named)]
    dsimp only
    rw [bind_of_ok pop_holding, bind_of_ok (popReference_holding rfl),
      onMachine_of_ok (Machine.putField_of_plain plain declared)]

theorem toNat_toInt_ofNat {n : Nat} (small : n < 2147483648) :
    (Int32.ofNat n).toInt.toNat = n ∧ ¬Int32.ofNat n < 0 := by
  have value : (Int32.ofNat n).toInt = n := Int32.toInt_ofNat_of_lt small
  refine ⟨by omega, ?_⟩
  rw [Int32.lt_iff_toInt_lt, value]
  simp

theorem plays_newArray (means : (Step.newArray (.object objectClass)).Means d isStatic a.owner.pool new)
    {n : Nat} (small : n < 2147483648) :
    a.Plays new (.int (Int32.ofNat n) :: stack) m (.reference ⟨m.heap.size⟩ :: stack)
      (m.adding (.array (.object objectClass) (Array.replicate n .null))) := by
  obtain ⟨size, positive⟩ := toNat_toInt_ofNat small
  cases means with
  | @newArray _ _ i reference named =>
  cases reference
  have component (pc : Nat) (stack : List Value) : (do componentNamed (← Run.className i) : RunM
      FieldType) ⟨a.holding pc stack, m⟩ = .ok (.object objectClass) ⟨a.holding pc stack, m⟩ := by
    rw [bind_of_ok (className_holding named)]
    rfl
  refine plays_going (do Run.newArray (← componentNamed (← Run.className i))) rfl rfl
    (fun _ _ _ => rfl) ?_ fun room pc => ?_
  · simp [Nat.add_comm]
  · have made := onMachine_of_ok (a := a.holding pc stack)
      (m.alloc_eq (.array (.object objectClass) (Array.replicate n .null)))
    have whole : (do Run.newArray (← componentNamed (← Run.className i)) : RunM Unit)
        ⟨a.holding pc (.int (Int32.ofNat n) :: stack), m⟩ =
          Run.newArray (.object objectClass)
            ⟨a.holding pc (.int (Int32.ofNat n) :: stack), m⟩ := by
      rw [← bind_assoc, bind_of_ok (component pc _)]
    rw [whole, Run.newArray, bind_of_ok popInt_holding]
    dsimp only
    rw [if_neg positive, size, Value.initial, bind_of_ok made, push_holding room]

theorem plays_arrayStore
    (means : (Step.arrayStore (.object objectClass)).Means d isStatic a.owner.pool new)
    {elements : Array Value} (array : m.heap.get r = .array (.object objectClass) elements) {i : Nat}
    (inside : i < elements.size) (small : i < 2147483648) (kind : v.kind = .reference) :
    a.Plays new (v :: .int (Int32.ofNat i) :: .reference r :: stack) m stack
      (m.changing r (setElement i v)) := by
  obtain ⟨place, positive⟩ := toNat_toInt_ofNat small
  cases means with
  | arrayStore =>
  refine plays_going (Run.arrayStore .reference) rfl rfl (fun _ _ _ => rfl) ?_
    fun _ pc => ?_
  · have one : v.slots = 1 := Value.slots_of_kind (t := .object objectClass) kind
    simp only [Value.totalSlots_cons, one, Value.slots_int, Value.slots_reference, FieldType.slots]
    omega
  · have any : v = .null ∨ m.heap.isInstance v objectClass = true := by
      cases v with
      | null => exact .inl rfl
      | reference b => exact .inr (m.heap.isInstance_objectClass b)
      | _ => cases kind
    have fits : checkElement (.object objectClass) v ⟨a.holding pc stack, m⟩ =
        .ok () ⟨a.holding pc stack, m⟩ :=
      (checkElement_holding rfl).trans (if_pos any)
    have found : lift (position elements.size (Int32.ofNat i)) ⟨a.holding pc stack, m⟩ =
        .ok i ⟨a.holding pc stack, m⟩ := by
      rw [position, if_neg positive, place, if_neg (Nat.not_le.2 inside)]
      rfl
    rw [Run.arrayStore, bind_of_ok pop_holding, bind_of_ok popInt_holding,
      bind_of_ok (popArray_holding array)]
    dsimp only
    rw [if_pos rfl, bind_of_ok fits, bind_of_ok found]
    cases v <;> rfl

end Activation
end ClassForge
