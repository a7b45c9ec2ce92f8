import ClassForge.Proofs.Machine.Calls
import ClassForge.Proofs.Machine.Hierarchy

namespace ClassForge

namespace LoadedClass

variable {c d : LoadedClass} {name : String}

theorem isSubclassOf_iff : c.isSubclassOf name = true ↔
    ∃ a ∈ c.lineage, a.name = name ∨ name ∈ a.own.interfaces := by
  rw [isSubclassOf_eq]
  simp

theorem isSubclassOf_self (c : LoadedClass) : c.isSubclassOf c.name = true := by
  cases c <;> simp [isSubclassOf]

theorem isSubclassOf_of_above (above : d ∈ c.lineage) (counts : d.isSubclassOf name = true) :
    c.isSubclassOf name = true := by
  obtain ⟨a, inside, named⟩ := isSubclassOf_iff.1 counts
  exact isSubclassOf_iff.2 ⟨a, (suffix_of_mem above).subset inside, named⟩

theorem isSubclassOf_objectClass (c : LoadedClass) : c.isSubclassOf objectClass = true :=
  isSubclassOf_of_above (List.mem_of_getLast? (getLast?_lineage c)) (isSubclassOf_self root)

end LoadedClass

theorem Heap.isInstance_of_plain {h : Heap} {r : Address} {c : LoadedClass}
    {fields : Std.TreeMap String Value} (plain : h.get r = .plain c fields) (name : String) :
    h.isInstance (.reference r) name = c.isSubclassOf name := by
  have object : h.object? (.reference r) = some (.plain c fields) := congrArg some plain
  rw [isInstance, object]
  dsimp only
  rw [Object.isInstance]
  by_cases root : name = objectClass
  · rw [root, c.isSubclassOf_objectClass, Bool.or_true]
  · rw [decide_eq_false root, Bool.false_or]

open Outcome Run

/-- Whatever asks whether the value is an instance of the class named is told `fits`: casts, tests,
stores into arrays of that type, and handlers for that class. -/
structure Activation.Told (f : Activation) (m : Machine) (v : Value) (name : String) (fits : Bool) :
    Prop where
  cast (i : Index) (pc : Nat) (stack : List Value) :
    f.owner.pool.classNameAt? i = some name →
      checkCast i ⟨f.holding pc (v :: stack), m⟩ =
        if fits then Run.push v ⟨f.holding pc stack, m⟩
        else EStateM.Result.error (MachineError.classCast (m.heap.className v) name)
          ⟨f.holding pc stack, m⟩
  test (i : Index) (pc : Nat) (stack : List Value) :
    f.owner.pool.classNameAt? i = some name →
      instanceOf i ⟨f.holding pc (v :: stack), m⟩ =
        pushInt (if fits then 1 else 0) ⟨f.holding pc stack, m⟩
  store (r : Address) (component : FieldType) (elements : Array Value) (i : Int32) (pc : Nat)
    (stack : List Value) :
    m.heap.get r = .array component elements →
      component.className?.getD component.descriptor = name →
        arrayStore .reference ⟨f.holding pc (v :: .int i :: .reference r :: stack), m⟩ =
          if fits then
            (do onMachine (Machine.change r (setElement (← lift (position elements.size i)) v)) :
              RunM Unit) ⟨f.holding pc stack, m⟩
          else EStateM.Result.error (MachineError.classCast (m.heap.className v) name)
            ⟨f.holding pc stack, m⟩
  handler (start : Nat) (e : Handler) (rest : List Handler) :
    e.start.toNat ≤ start → start < e.stop.toNat →
    f.owner.pool.classNameAt? e.catchType = some name →
      f.handlerAmong? m.heap start v (e :: rest) =
        if fits then .ok (some e) else f.handlerAmong? m.heap start v rest

theorem Activation.told (f : Activation) (m : Machine) (r : Address) (name : String) :
    f.Told m (.reference r) name (m.heap.isInstance (.reference r) name) where
  cast i pc stack named := by
    rw [checkCast_holding named rfl]
    simp
  test i pc stack named := by
    have got : heap ⟨f.holding pc stack, m⟩ = .ok m.heap ⟨f.holding pc stack, m⟩ := rfl
    rw [instanceOf, bind_of_ok (className_holding named), bind_of_ok (popReference_holding rfl),
      bind_of_ok got]
  store r' component elements i pc stack array named := by
    have checked : checkElement component (.reference r) ⟨f.holding pc stack, m⟩ = _ :=
      checkElement_holding named
    rw [arrayStore, bind_of_ok pop_holding, bind_of_ok popInt_holding,
      bind_of_ok (popArray_holding array)]
    dsimp only
    rw [if_pos rfl]
    simp only [reduceCtorEq, false_or] at checked
    split
    · rename_i fits
      rw [if_pos fits] at checked
      rw [bind_of_ok checked]
      rfl
    · rename_i misfits
      rw [if_neg misfits] at checked
      rw [bind_of_error checked]
  handler start e rest low high named := by
    have catches : e.catchType ≠ 0 := by
      intro all
      rw [all] at named
      cases named
    rw [handlerAmong?, if_neg (by omega), if_neg catches, named]

namespace Machine

open LoadedClass

theorem Hierarchical.counts_cases {m : Machine} (hierarchical : m.Hierarchical) {n k : String}
    {c d : LoadedClass} (found : m.classes[n]? = some c) (found' : m.classes[k]? = some d)
    (counts : c.isSubclassOf d.name = true) :
    d ∈ c.lineage ∨ ∃ a ∈ c.lineage, d.name ∈ a.own.interfaces := by
  obtain ⟨a, above, same | implemented⟩ := isSubclassOf_iff.1 counts
  · left
    -- Classes of one name are one class.
    have loaded := hierarchical.loaded found a above
    rw [same, hierarchical.named k d found', found', Option.some.injEq] at loaded
    rwa [loaded]
  · exact .inr ⟨a, above, implemented⟩

/-- Whatever files a machine is given to define, a loaded class counts as all that the classes it
extends count as. It counts as what a loaded interface counts as, if the interface is one of those
classes or the interface's own name is asked for. So counting is transitive from a class just if
it counts as what the interfaces count as that it and the classes it extends list. Casts, tests,
stores into arrays and handlers take an object by what its class counts as. -/
theorem counts_of_definitions (cache : DescriptorCache) (files : List (List UInt8)) :
    let m := attempts { cache } files
    ∀ (n : String) (c : LoadedClass), m.classes[n]? = some c →
      (∀ d e, d ∈ c.lineage → d.isSubclassOf e = true → c.isSubclassOf e = true) ∧
      (∀ (k : String) d e, m.classes[k]? = some d → c.isSubclassOf d.name = true →
        d.isSubclassOf e = true → c.isSubclassOf e = true ∨
          d ∉ c.lineage ∧ (∃ a ∈ c.lineage, d.name ∈ a.own.interfaces) ∧ e ≠ d.name ∧
            e ≠ objectClass) ∧
      ((∀ (k : String) d e, m.classes[k]? = some d → c.isSubclassOf d.name = true →
          d.isSubclassOf e = true → c.isSubclassOf e = true) ↔
        ∀ a ∈ c.lineage, ∀ (k : String) d e, m.classes[k]? = some d → d.name ∈ a.own.interfaces →
          d.isSubclassOf e = true → c.isSubclassOf e = true) ∧
      ∀ (f : Activation) (m' : Machine) (r : Address) fields e,
        m'.heap.get r = .plain c fields → f.Told m' (.reference r) e (c.isSubclassOf e) := by
  intro m n c found
  have hierarchical : m.Hierarchical := (Hierarchical.start cache).attempts files
  refine ⟨fun d e above => isSubclassOf_of_above above,
    fun k d e found' lower upper => ?_, ⟨fun transitive a above k d e found' implemented => ?_,
      fun flat k d e found' lower upper => ?_⟩, fun f m' r fields e plain => ?_⟩
  · by_cases counts : c.isSubclassOf e = true
    · exact .inl counts
    have beside : d ∉ c.lineage := fun above => counts (isSubclassOf_of_above above upper)
    refine .inr ⟨beside, (hierarchical.counts_cases found found' lower).resolve_left beside, ?_, ?_⟩
    · rintro rfl
      exact counts lower
    · rintro rfl
      exact counts c.isSubclassOf_objectClass
  · exact transitive k d e found' (isSubclassOf_iff.2 ⟨a, above, .inr implemented⟩)
  · rcases hierarchical.counts_cases found found' lower with above | ⟨a, above, implemented⟩
    · exact isSubclassOf_of_above above upper
    · exact flat a above k d e found' implemented upper
  · have told := f.told m' r e
    rwa [Heap.isInstance_of_plain plain] at told

def declaringClass (access : UInt16) (name superName : String) (interfaces : List String) :
    List UInt8 :=
  let text (s : String) : List UInt8 :=
    1 :: Bytes.ofU16 (UInt16.ofNat s.utf8ByteSize) ++ Text.ModifiedUtf8.encode s
  let count (n : Nat) := Bytes.ofU16 (UInt16.ofNat n)
  let entries := interfaces.zipIdx.flatMap fun (s, i) => text s ++ 7 :: count (2 * i + 5)
  let indices := interfaces.zipIdx.flatMap fun (_, i) => count (2 * i + 6)
  [0xca, 0xfe, 0xba, 0xbe, 0, 0, 0, 49] ++ count (2 * interfaces.length + 5) ++ text name ++
    [7, 0, 1] ++ text superName ++ [7, 0, 3] ++ entries ++ Bytes.ofU16 access ++ [0, 2, 0, 4] ++
    count interfaces.length ++ indices ++ [0, 0, 0, 0, 0, 0]

theorem counts_of_definitions_inherited :
    let files := [declaringClass 0x0601 "E" objectClass [],
      declaringClass 0x21 "D" objectClass ["E"], declaringClass 0x21 "C" "D" []]
    let m := attempts {} files
    ∃ c d, m.classes["C"]? = some c ∧ m.classes["D"]? = some d ∧ d ∈ c.lineage ∧
      d.isSubclassOf "E" = true ∧ c.isSubclassOf "E" = true ∧ ∀ f : Activation,
        f.Told (m.adding (.plain c ∅)) (.reference ⟨m.heap.size⟩) "E" true := by
  intro files m
  have shape : (m.classes["C"]?.bind fun c => m.classes["D"]?.map fun d =>
      (c.isSubclassOf d.name, d.isSubclassOf "E",
        c.lineage.any fun a => a.own.interfaces.contains d.name)) =
        some (true, true, false) := by decide +kernel
  obtain ⟨c, foundC, rest⟩ := Option.bind_eq_some_iff.1 shape
  obtain ⟨d, foundD, answers⟩ := Option.map_eq_some_iff.1 rest
  simp only [Prod.mk.injEq, List.any_eq_false, List.contains_iff_mem] at answers
  obtain ⟨lower, upper, unlisted⟩ := answers
  obtain ⟨inherits, -, -, told⟩ := counts_of_definitions {} files "C" c foundC
  have hierarchical : m.Hierarchical := (Hierarchical.start {}).attempts files
  have above : d ∈ c.lineage := (hierarchical.counts_cases foundC foundD lower).resolve_right
    fun listed => by
      obtain ⟨a, inside, implemented⟩ := listed
      exact unlisted a inside implemented
  have counts := inherits d "E" above upper
  refine ⟨c, d, foundC, foundD, above, upper, counts, fun f => ?_⟩
  have taken := told f (m.adding (.plain c ∅)) ⟨m.heap.size⟩ ∅ "E" (m.heap.get_alloc _)
  rwa [counts] at taken

/-- An interface that extends another is not taken for it where a class implements it. -/
theorem not_counts_of_implemented :
    let files := [declaringClass 0x0601 "E" objectClass [],
      declaringClass 0x0601 "D" objectClass ["E"], declaringClass 0x21 "C" objectClass ["D"]]
    let m := attempts {} files
    ∃ c d, m.classes["C"]? = some c ∧ m.classes["D"]? = some d ∧ c.isSubclassOf d.name = true ∧
      d.isSubclassOf "E" = true ∧ c.isSubclassOf "E" = false := by
  intro files m
  have shape : (m.classes["C"]?.bind fun c => m.classes["D"]?.map fun d =>
      (c.isSubclassOf d.name, d.isSubclassOf "E", c.isSubclassOf "E")) =
        some (true, true, false) := by decide +kernel
  obtain ⟨c, foundC, rest⟩ := Option.bind_eq_some_iff.1 shape
  obtain ⟨d, foundD, answers⟩ := Option.map_eq_some_iff.1 rest
  simp only [Prod.mk.injEq] at answers
  exact ⟨c, d, foundC, foundD, answers⟩

end Machine
end ClassForge
