import ClassForge.Proofs.Discipline
import ClassForge.Proofs.Machine.Loading
import Mathlib.Data.List.Perm.Subperm

namespace ClassForge

namespace LoadedClass

/-- The class and those above it, up to the root. -/
def lineage : LoadedClass → List LoadedClass
  | root => [root]
  | extending d s => extending d s :: s.lineage

def ownInstanceFields (c : LoadedClass) : List (String × FieldType) :=
  c.own.fields.toList.filterMap fun (name, access, type) =>
    if isSet access Access.staticFlag then none else some (name, type)

variable {a c : LoadedClass}

theorem getLast?_lineage (c : LoadedClass) : c.lineage.getLast? = some root := by
  induction c with
  | root => rfl
  | extending d s ih => rw [lineage, List.getLast?_cons, ih, Option.getD_some]

theorem suffix_of_mem (above : a ∈ c.lineage) : a.lineage <:+ c.lineage := by
  induction c with
  | root =>
    rw [lineage, List.mem_singleton] at above
    exact above ▸ List.suffix_refl _
  | extending d s ih =>
    rw [lineage, List.mem_cons] at above
    rcases above with rfl | above
    · exact List.suffix_refl _
    · exact (ih above).trans (List.suffix_cons _ _)

theorem not_mem_lineage (d : Declaration) (s : LoadedClass) : extending d s ∉ s.lineage := by
  intro above
  have shorter := (suffix_of_mem above).length_le
  rw [lineage, List.length_cons] at shorter
  omega

theorem findMethod?_eq (c : LoadedClass) (name descriptor : String) :
    c.findMethod? name descriptor =
      c.lineage.findSome? fun a => (a.declaredMethod? name descriptor).map fun m => (a, m) := by
  induction c with
  | root => simp [findMethod?, lineage, declaredMethod?, own, rootDeclaration]
  | extending d s ih =>
    rw [findMethod?, lineage, List.findSome?_cons]
    cases (extending d s).declaredMethod? name descriptor with
    | some m => rfl
    | none => exact ih

theorem isSubclassOf_eq (c : LoadedClass) (name : String) : c.isSubclassOf name =
    c.lineage.any fun a => a.name = name || a.own.interfaces.contains name := by
  induction c with
  | root => simp [isSubclassOf, lineage]
  | extending d s ih => rw [isSubclassOf, ih, lineage, List.any_cons]

theorem instanceFields_eq (c : LoadedClass) :
    c.instanceFields = c.lineage.reverse.flatMap ownInstanceFields := by
  induction c with
  | root => rfl
  | extending d s ih =>
    rw [instanceFields, ih, lineage, List.reverse_cons, List.flatMap_append,
      List.flatMap_singleton]
    rfl

end LoadedClass

namespace Machine

open LoadedClass Outcome

variable {m m' : Machine} {n : String} {c s : LoadedClass} {d : Declaration}

def ownStatic? (m : Machine) (field : String) : LoadedClass → Option String
  | .root => none
  | .extending d _ => if (m.statics.getD d.name ∅).contains field then some d.name else none

def holding (m : Machine) (owner field : String) (v : Value) : Machine :=
  { m with statics := m.statics.insert owner ((m.statics.getD owner ∅).insert field v) }

theorem staticOwner?_eq (m : Machine) (field : String) (c : LoadedClass) :
    m.staticOwner? field c = c.lineage.findSome? (m.ownStatic? field) := by
  induction c with
  | root => rfl
  | extending d s ih =>
    rw [staticOwner?, lineage, List.findSome?_cons, ownStatic?]
    split <;> simp [ih]

theorem getStatic_eq (c : LoadedClass) (field : String) (m : Machine) : getStatic c field m =
    match (c.lineage.findSome? (m.ownStatic? field)).bind
      fun owner => (m.statics.getD owner ∅)[field]? with
    | some v => .ok v m
    | none => .error (.noField objectClass field) m := by
  rw [← staticOwner?_eq]
  change (match (m.staticOwner? field c).bind fun owner => (m.statics.getD owner ∅)[field]? with
    | some v => (pure v : MachineM Value)
    | none => throw (MachineError.noField objectClass field)) m = _
  cases (m.staticOwner? field c).bind fun owner => (m.statics.getD owner ∅)[field]? <;> rfl

theorem putStatic_eq (c : LoadedClass) (field : String) (v : Value) (m : Machine) :
    putStatic c field v m = match c.lineage.findSome? (m.ownStatic? field) with
    | some owner => .ok () (m.holding owner field v)
    | none => .error (.noField objectClass field) m := by
  rw [← staticOwner?_eq]
  change (match m.staticOwner? field c with
    | some owner => (modify fun m : Machine => m.holding owner field v : MachineM Unit)
    | none => throw (MachineError.noField objectClass field)) m = _
  cases m.staticOwner? field c <;> rfl

/-- The root is there, classes are found by their names, and so is what they extend. -/
structure Hierarchical (m : Machine) : Prop where
  root : m.classes[objectClass]? = some .root
  named (n : String) (c : LoadedClass) : m.classes[n]? = some c → c.name = n
  extended (n : String) (d : Declaration) (s : LoadedClass) :
    m.classes[n]? = some (.extending d s) → m.classes[s.name]? = some s

theorem getElem?_start (cache : DescriptorCache) (n : String) :
    ({ cache } : Machine).classes[n]? = if objectClass = n then some .root else none := by
  change (Std.TreeMap.ofList [(objectClass, LoadedClass.root)])[n]? = _
  simp [Std.TreeMap.ofList_singleton, Std.TreeMap.getElem?_insert]

theorem found_start {cache : DescriptorCache} (found : ({ cache } : Machine).classes[n]? = some c) :
    n = objectClass ∧ c = .root := by
  rw [getElem?_start, Option.ite_none_right_eq_some, Option.some.injEq] at found
  exact ⟨found.1.symm, found.2.symm⟩

namespace Hierarchical

theorem start (cache : DescriptorCache) : ({ cache } : Machine).Hierarchical := by
  refine ⟨?_, fun n c found => ?_, fun n d s found => ?_⟩
  · rw [getElem?_start, if_pos rfl]
  · obtain ⟨rfl, rfl⟩ := found_start found
    rfl
  · cases (found_start found).2

theorem loaded (hierarchical : m.Hierarchical) (found : m.classes[n]? = some c) :
    ∀ a ∈ c.lineage, m.classes[a.name]? = some a := by
  induction c generalizing n with
  | root =>
    intro a above
    rw [lineage, List.mem_singleton] at above
    rw [above]
    exact hierarchical.root
  | extending d s ih =>
    intro a above
    rw [lineage, List.mem_cons] at above
    rcases above with rfl | above
    · rw [hierarchical.named n _ found, found]
    · exact ih (hierarchical.extended n d s found) a above

theorem distinct (hierarchical : m.Hierarchical) (found : m.classes[n]? = some c) :
    (c.lineage.map name).Nodup := by
  induction c generalizing n with
  | root => simp [lineage]
  | extending d s ih =>
    have above := hierarchical.extended n d s found
    rw [lineage, List.map_cons, List.nodup_cons]
    refine ⟨fun twice => ?_, ih above⟩
    obtain ⟨a, inside, same⟩ := List.mem_map.1 twice
    have held := hierarchical.loaded above a inside
    rw [same, hierarchical.named n _ found, found, Option.some.injEq] at held
    exact not_mem_lineage d s (held ▸ inside)

theorem length_le (hierarchical : m.Hierarchical) (found : m.classes[n]? = some c) :
    c.lineage.length ≤ m.classes.size := by
  have inside : c.lineage.map name ⊆ m.classes.keys := by
    intro x member
    obtain ⟨a, above, rfl⟩ := List.mem_map.1 member
    have held := hierarchical.loaded found a above
    rw [Std.TreeMap.mem_keys, Std.TreeMap.mem_iff_isSome_getElem?, held]
    rfl
  have fewer := (List.subperm_of_subset (hierarchical.distinct found) inside).length_le
  rwa [List.length_map, Std.TreeMap.length_keys] at fewer

end Hierarchical

section Define

open Discipline Ensures

def tableKept : Discipline Machine where
  Holds _ := True
  Onward m m' := m'.classes = m.classes
  refl _ := rfl
  trans first second := second.trans first

theorem kept_modify {f : Machine → Machine} (same : ∀ m, (f m).classes = m.classes) :
    tableKept.Ensures (modify f : MachineM Unit) m Anything :=
  Ensures.modify fun _ => ⟨trivial, same m, trivial⟩

theorem kept_readable (part : NamedPart) (text : Option String) :
    tableKept.Ensures (readable part text) m Anything := by
  cases text with
  | some s => exact Ensures.pure s fun _ => trivial
  | none => exact Ensures.throw _

theorem kept_decodeDescriptor (descriptor : String) :
    tableKept.Ensures (decodeDescriptor descriptor) m Anything := by
  constructor
  intro _
  unfold decodeDescriptor
  cases m.cache.method? descriptor with
  | mk found cache =>
    cases found with
    | some d => exact ⟨trivial, rfl, trivial⟩
    | none => exact ⟨trivial, rfl⟩

theorem kept_startOf (p : Pool) (x : Member) (type : FieldType) :
    tableKept.Ensures (startOf p x type) m Anything := by
  unfold startOf
  cases x.constantValue?.bind p.literalAt? with
  | none => exact Ensures.pure _ fun _ => trivial
  | some l => cases l <;> exact ⟨fun _ => ⟨trivial, rfl, trivial⟩⟩

theorem kept_loadField (p : Pool) (fields : Fields) (x : Member) :
    tableKept.Ensures (loadField p fields x) m Anything := by
  refine (kept_readable _ _).andThen fun name m => ?_
  refine (kept_readable _ _).andThen fun descriptor m => ?_
  cases FieldType.decode? descriptor with
  | none => exact Ensures.throw _
  | some type =>
    dsimp only
    split
    · exact (kept_startOf p x type).andThen fun v m => Ensures.pure _ fun _ => trivial
    · exact Ensures.pure _ fun _ => trivial

theorem kept_loadMethod (owner : String) (p : Pool) (x : Member) :
    tableKept.Ensures (loadMethod owner p x) m Anything := by
  refine (kept_readable _ _).andThen fun name m => ?_
  refine (kept_readable _ _).andThen fun descriptor m => ?_
  refine (kept_decodeDescriptor descriptor).andThen fun d m => ?_
  dsimp only
  split
  · exact Ensures.pure _ fun _ => trivial
  · split
    · exact Ensures.throw _
    · split
      · exact Ensures.throw _
      · exact Ensures.pure _ fun _ => trivial

theorem kept_declare (file : ClassFile) (name : String) :
    tableKept.Ensures (declare file name) m Anything := by
  refine (Ensures.foldlM (fun fields x _ => kept_loadField file.pool fields x) {}).andThen
    fun fields m => ?_
  exact (Ensures.mapM (fun x _ => kept_loadMethod name file.pool x)
    fun _ _ _ _ _ _ => trivial).andThen fun methods m => Ensures.pure _ fun _ => trivial

theorem kept_parse (bytes : List UInt8) : tableKept.Ensures (parse bytes) m Anything := by
  unfold parse
  refine (kept_modify ?_).andThen fun _ m => ?_
  · exact fun _ => rfl
  cases ClassFile.parse bytes with
  | ok file => exact Ensures.pure file fun _ => trivial
  | error e => exact Ensures.throw _

end Define

/-- What a class file adds to the classes: a class of a new name, above it one that is there. -/
structure Adds (m : Machine) (bytes : List UInt8) (n : String) (d : Declaration) (s : LoadedClass) :
    Prop where
  absent : m.classes[n]? = none
  written : ∃ file superName, ClassFile.parse bytes = .ok file ∧ file.name? = some n ∧
    file.superName? = some superName ∧ m.classes[superName]? = some s ∧ d.LoadedFrom file n

theorem resolve_eq_match (name : String) (m : Machine) : resolve name m =
    match m.classes[name]? with
    | some c => .ok c m
    | none => .error (.noClass name) m := by
  change (match m.classes[name]? with
    | some c => (pure c : MachineM LoadedClass)
    | none => throw (MachineError.noClass name)) m = _
  cases m.classes[name]? <;> rfl

theorem define_cases (bytes : List UInt8) (m : Machine) : match define bytes m with
    | .ok n m' => ∃ d s, m.Adds bytes n d s ∧ m'.classes = m.classes.insert n (.extending d s)
    | .error _ m' => m'.classes = m.classes := by
  unfold define
  cases parsed : parse bytes m with
  | error e m₁ =>
    rw [bind_of_error parsed]
    exact ((kept_parse bytes).of_eq_error trivial parsed).2
  | ok file m₁ =>
    have start : m₁.classes = m.classes := ((kept_parse bytes).of_eq_ok trivial parsed).2.1
    rw [bind_of_ok parsed, ← start]
    cases named : file.name? with
    | none => rfl
    | some n =>
      have same : readable .className (some n) m₁ = .ok n m₁ := rfl
      have here : (get : MachineM Machine) m₁ = .ok m₁ m₁ := rfl
      rw [bind_of_ok same, bind_of_ok here]
      by_cases there : m₁.classes.contains n = true
      · rw [if_pos there]
        rfl
      rw [if_neg there]
      cases above : file.superName? with
      | none => rfl
      | some superName =>
        have resolved := resolve_eq_match superName m₁
        dsimp only
        cases found : m₁.classes[superName]? with
        | none =>
          rw [found] at resolved
          rw [bind_of_error resolved]
        | some s =>
          rw [found] at resolved
          rw [bind_of_ok resolved]
          cases declared : declare file n m₁ with
          | error e m₂ =>
            rw [bind_of_error declared]
            exact ((kept_declare file n).of_eq_error trivial declared).2
          | ok parts m₂ =>
            obtain ⟨own, statics⟩ := parts
            have rest : m₂.classes = m₁.classes :=
              ((kept_declare file n).of_eq_ok trivial declared).2.1
            rw [bind_of_ok declared]
            refine ⟨own, s, ⟨?_, file, superName, parse_eq_ok parsed, named, above, ?_,
              declare_eq_ok declared⟩, ?_⟩
            · rw [← start]
              exact Std.TreeMap.getElem?_eq_none_of_contains_eq_false
                (Bool.eq_false_iff.2 there)
            · rw [← start, found]
            · change m₂.classes.insert n (.extending own s) = _
              rw [rest]

/-- The machine after a class file was given to it, whether the class was defined or not. -/
def attempt (m : Machine) (bytes : List UInt8) : Machine :=
  match define bytes m with
  | .ok _ m' | .error _ m' => m'

def attempts (m : Machine) (files : List (List UInt8)) : Machine := files.foldl attempt m

theorem attempt_cases (bytes : List UInt8) (m : Machine) : (m.attempt bytes).classes = m.classes ∨
    ∃ n d s, m.Adds bytes n d s ∧
      (m.attempt bytes).classes = m.classes.insert n (.extending d s) := by
  have step := define_cases bytes m
  unfold attempt
  cases h : define bytes m with
  | error e m' =>
    rw [h] at step
    exact .inl step
  | ok n m' =>
    rw [h] at step
    exact .inr ⟨n, step⟩

theorem getElem?_attempt (found : m.classes[n]? = some c) (bytes : List UInt8) :
    (m.attempt bytes).classes[n]? = some c := by
  rcases attempt_cases bytes m with same | ⟨name, d, s, adds, grown⟩
  · rw [same, found]
  · have other : name ≠ n := by
      rintro rfl
      rw [adds.absent] at found
      cases found
    rw [grown, Std.TreeMap.getElem?_insert, if_neg (by simpa using other), found]

theorem getElem?_attempts (found : m.classes[n]? = some c) (files : List (List UInt8)) :
    (m.attempts files).classes[n]? = some c := by
  induction files generalizing m with
  | nil => exact found
  | cons bytes rest ih => exact ih (getElem?_attempt found bytes)

theorem found_attempt {bytes : List UInt8} (found : (m.attempt bytes).classes[n]? = some c) :
    m.classes[n]? = some c ∨ ∃ d s, m.Adds bytes n d s ∧ c = .extending d s := by
  rcases attempt_cases bytes m with same | ⟨name, d, s, adds, grown⟩
  · rw [same] at found
    exact .inl found
  · rw [grown, Std.TreeMap.getElem?_insert] at found
    by_cases new : name = n
    · subst new
      rw [if_pos Std.ReflCmp.compare_self, Option.some.injEq] at found
      exact .inr ⟨d, s, adds, found.symm⟩
    · rw [if_neg (by simpa using new)] at found
      exact .inl found

namespace Hierarchical

theorem above (hierarchical : m.Hierarchical) {bytes : List UInt8} (adds : m.Adds bytes n d s) :
    m.classes[s.name]? = some s ∧ ∃ file, ClassFile.parse bytes = .ok file ∧
      file.name? = some n ∧ file.superName? = some s.name ∧ d.LoadedFrom file n := by
  obtain ⟨file, superName, read, named, super, held, from_⟩ := adds.written
  rw [← hierarchical.named superName s held] at super held
  exact ⟨held, file, read, named, super, from_⟩

theorem attempt (hierarchical : m.Hierarchical) (bytes : List UInt8) :
    (m.attempt bytes).Hierarchical := by
  refine ⟨getElem?_attempt hierarchical.root bytes, fun n c found => ?_, fun n d s found => ?_⟩
  · rcases found_attempt found with old | ⟨d, s, adds, rfl⟩
    · exact hierarchical.named n c old
    · obtain ⟨-, file, -, -, -, from_⟩ := hierarchical.above adds
      exact from_.name
  · rcases found_attempt found with old | ⟨d', s', adds, same⟩
    · exact getElem?_attempt (hierarchical.extended n d s old) bytes
    · cases same
      exact getElem?_attempt (hierarchical.above adds).1 bytes

theorem attempts (hierarchical : m.Hierarchical) (files : List (List UInt8)) :
    (m.attempts files).Hierarchical := by
  induction files generalizing m with
  | nil => exact hierarchical
  | cons bytes rest ih => exact ih (hierarchical.attempt bytes)

end Hierarchical

theorem attempts_append (m : Machine) (before after : List (List UInt8)) :
    m.attempts (before ++ after) = (m.attempts before).attempts after := List.foldl_append

theorem found_attempts {files : List (List UInt8)}
    (found : (m.attempts files).classes[n]? = some c) : m.classes[n]? = some c ∨
      ∃ before bytes after d s, files = before ++ bytes :: after ∧
        (m.attempts before).Adds bytes n d s ∧ c = .extending d s := by
  induction files generalizing m with
  | nil => exact .inl found
  | cons bytes rest ih =>
    rcases ih found with early | ⟨before, later, after, d, s, split, adds⟩
    · rcases found_attempt early with old | ⟨d, s, adds⟩
      · exact .inl old
      · exact .inr ⟨[], bytes, rest, d, s, rfl, adds⟩
    · exact .inr ⟨bytes :: before, later, after, d, s, congrArg (bytes :: ·) split, adds⟩

/-- The way up from a class. It ends, and it is what lookups go along. -/
structure Ascends (m : Machine) (c : LoadedClass) : Prop where
  ends : c.lineage.getLast? = some .root
  loaded : ∀ a ∈ c.lineage, m.classes[a.name]? = some a
  distinct : (c.lineage.map name).Nodup
  short : c.lineage.length ≤ m.classes.size
  methods (name descriptor : String) : c.findMethod? name descriptor =
    c.lineage.findSome? fun a => (a.declaredMethod? name descriptor).map fun method => (a, method)
  names (name : String) : c.isSubclassOf name =
    c.lineage.any fun a => a.name = name || a.own.interfaces.contains name
  fields : c.instanceFields = c.lineage.reverse.flatMap ownInstanceFields
  reads (field : String) : getStatic c field m =
    match (c.lineage.findSome? (m.ownStatic? field)).bind
      fun owner => (m.statics.getD owner ∅)[field]? with
    | some v => .ok v m
    | none => .error (.noField objectClass field) m
  writes (field : String) (v : Value) : putStatic c field v m =
    match c.lineage.findSome? (m.ownStatic? field) with
    | some owner => .ok () (m.holding owner field v)
    | none => .error (.noField objectClass field) m

theorem Hierarchical.ascends (hierarchical : m.Hierarchical) (found : m.classes[n]? = some c) :
    m.Ascends c where
  ends := getLast?_lineage c
  loaded := hierarchical.loaded found
  distinct := hierarchical.distinct found
  short := hierarchical.length_le found
  methods := findMethod?_eq c
  names := isSubclassOf_eq c
  fields := instanceFields_eq c
  reads field := getStatic_eq c field m
  writes field v := putStatic_eq c field v m

/-- Whatever files a machine is given to define, its classes extend one another up to the root. No
class is replaced, each was added by a file when the class above it was there already, and a file
that is refused leaves the classes as they are. -/
theorem hierarchy_of_definitions (cache : DescriptorCache) (files : List (List UInt8)) :
    let start : Machine := { cache }
    let m := start.attempts files
    m.Hierarchical ∧
    (∀ (n : String) (c : LoadedClass), m.classes[n]? = some c → m.Ascends c) ∧
    (∀ before after, files = before ++ after → ∀ (n : String) (c : LoadedClass),
      (start.attempts before).classes[n]? = some c → m.classes[n]? = some c) ∧
    (∀ (n : String) d s, m.classes[n]? = some (.extending d s) → ∃ before bytes after file,
      files = before ++ bytes :: after ∧ ClassFile.parse bytes = .ok file ∧
        file.name? = some n ∧ file.superName? = some s.name ∧ d.LoadedFrom file n ∧
        (start.attempts before).classes[n]? = none ∧
        (start.attempts before).classes[s.name]? = some s) ∧
    ∀ bytes e m', define bytes m = .error e m' → m'.classes = m.classes := by
  intro start m
  have hierarchical : m.Hierarchical := (Hierarchical.start cache).attempts files
  refine ⟨hierarchical, fun n c found => hierarchical.ascends found,
    fun before after split n c found => ?_, fun n d s found => ?_, fun bytes e m' failed => ?_⟩
  · have later := getElem?_attempts found after
    rwa [← attempts_append, ← split] at later
  · rcases found_attempts found with old | ⟨before, bytes, after, d', s', split, adds, same⟩
    · cases (found_start old).2
    · cases same
      obtain ⟨held, file, read, named, super, from_⟩ :=
        ((Hierarchical.start cache).attempts before).above adds
      exact ⟨before, bytes, after, file, split, read, named, super, from_, adds.absent, held⟩
  · have step := define_cases bytes m
    rwa [failed] at step

def bareClass (name superName : String) : List UInt8 :=
  let text (s : String) : List UInt8 :=
    1 :: Bytes.ofU16 (UInt16.ofNat s.utf8ByteSize) ++ Text.ModifiedUtf8.encode s
  [0xca, 0xfe, 0xba, 0xbe, 0, 0, 0, 49, 0, 5] ++ text name ++ [7, 0, 1] ++ text superName ++
    [7, 0, 3, 0, 0x21, 0, 2, 0, 4, 0, 0, 0, 0, 0, 0, 0, 0]

theorem hierarchy_of_definitions_disordered :
    let files :=
      [bareClass "B" "A", bareClass "A" objectClass, bareClass "B" "A", bareClass "A" "B"]
    let m := attempts {} files
    ∃ c, m.classes["B"]? = some c ∧ c.lineage.map name = ["B", "A", objectClass] ∧ m.Ascends c := by
  intro files m
  have names : (m.classes["B"]?.map fun c => c.lineage.map name) =
      some ["B", "A", objectClass] := by decide +kernel
  obtain ⟨c, found, lineage⟩ := Option.map_eq_some_iff.1 names
  obtain ⟨-, ascends, -⟩ := hierarchy_of_definitions {} files
  exact ⟨c, found, lineage, ascends "B" c found⟩

end Machine
end ClassForge
