import ClassForge.Proofs.Machine.Objects

namespace ClassForge

open Outcome

def Text.supplementary (s : String) : Nat := s.toList.countP fun c => 0x10000 ≤ c.toNat

theorem Text.ModifiedUtf8.length_unitsOf (c : Char) :
    (unitsOf c).length = if 0x10000 ≤ c.toNat then 2 else 1 := by
  rw [unitsOf]
  by_cases wide : 0x10000 ≤ c.toNat
  · rw [if_neg (Nat.not_lt.2 wide), if_pos wide]
    rfl
  · rw [if_pos (Nat.not_le.1 wide), if_neg wide]
    rfl

theorem Native.length_string (s : String) :
    length (.string s) = length (.builder s) + Text.supplementary s := by
  have units (cs : List Char) : (cs.flatMap Text.ModifiedUtf8.unitsOf).length =
      cs.length + cs.countP fun c => 0x10000 ≤ c.toNat := by
    induction cs with
    | nil => rfl
    | cons c rest ih =>
      rw [List.flatMap_cons, List.length_append, ih, Text.ModifiedUtf8.length_unitsOf,
        List.length_cons, List.countP_cons]
      by_cases wide : 0x10000 ≤ c.toNat
      · simp only [wide, if_true, decide_true]
        omega
      · simp only [wide, if_false, decide_false]
        simp
        omega
  exact units s.toList

theorem ofNat_eq_ofNat_add_iff (n k : Nat) :
    Int32.ofNat n = Int32.ofNat (n + k) ↔ 4294967296 ∣ k := by
  rw [← Int32.toBitVec_inj, Int32.toBitVec_ofNat', Int32.toBitVec_ofNat', ← BitVec.toNat_inj,
    BitVec.toNat_ofNat, BitVec.toNat_ofNat]
  omega

structure BuilderCall where
  on : Address
  name : String
  descriptor : String
  args : List Value

namespace BuilderCall

open Native

def perform (c : BuilderCall) : MachineM Dispatch :=
  if c.name = constructorName then
    Dispatch.special Object.builderClass c.name c.descriptor (.reference c.on :: c.args)
  else Dispatch.virtual c.name c.descriptor (.reference c.on :: c.args)

/-- The machine behind a call, also if it fails. -/
def ends (c : BuilderCall) (m : Machine) : Machine := Machine.behind (c.perform m)

def text? (c : BuilderCall) (h : Heap) : Option String :=
  if c.name = constructorName then
    if c.descriptor = "()V" then some ""
    else if c.descriptor = "(Ljava/lang/String;)V" then c.args.head?.map h.text
    else none
  else if c.name = "append" then
    if c.descriptor = "(C)Ljava/lang/StringBuilder;" then
      (c.args.head?.bind Value.char?).map String.singleton
    else if c.descriptor = "(Z)Ljava/lang/StringBuilder;" then
      some (if (c.args.head?.bind Value.asInt?).any (· ≠ 0) then "true" else "false")
    else if endsWith c.descriptor ")Ljava/lang/StringBuilder;" then c.args.head?.map h.text
    else none
  else none

def answer (c : BuilderCall) : Option Value :=
  if c.name = constructorName then none else some (.reference c.on)

variable {c : BuilderCall} {m : Machine} {s t text : String}

def adding (c : BuilderCall) (m : Machine) (text : String) : Machine := m.changing c.on fun
  | .builder s => .builder (s ++ text)
  | o => o

theorem virtual_of_builder {a : Address} (held : m.heap.get a = .builder s)
    (name descriptor : String) (args : List Value) :
    Dispatch.virtual name descriptor (.reference a :: args) m = Dispatch.native
      Object.builderClass name descriptor (builderMethod? a s name descriptor args) m := by
  have read : Machine.object a m = .ok (.builder s) m := by rw [Machine.object_eq, held]
  rw [Dispatch.virtual, Dispatch.receiver, bind_of_ok (Machine.target_reference m a),
    bind_of_ok read]
  rfl

theorem virtual_of_string {a : Address} (held : m.heap.get a = .string s)
    (name descriptor : String) (args : List Value) :
    Dispatch.virtual name descriptor (.reference a :: args) m = Dispatch.native
      Object.stringClass name descriptor (stringMethod? a s name descriptor args) m := by
  have read : Machine.object a m = .ok (.string s) m := by rw [Machine.object_eq, held]
  rw [Dispatch.virtual, Dispatch.receiver, bind_of_ok (Machine.target_reference m a),
    bind_of_ok read]
  rfl

theorem perform_special (made : c.name = constructorName)
    (stands : m.heap.get c.on = .builder t) :
    c.perform m = Dispatch.native Object.builderClass c.name c.descriptor
      (special? c.on (.builder t) c.name c.descriptor c.args) m := by
  have read : Machine.object c.on m = .ok (.builder t) m := by rw [Machine.object_eq, stands]
  have other : ¬(Object.builderClass = objectClass ∧ c.name = constructorName ∧
      c.descriptor = "()V") := fun same => absurd same.1 (by decide)
  have known : isBuiltIn Object.builderClass = true := by decide
  rw [perform, if_pos made, Dispatch.special, Dispatch.receiver,
    bind_of_ok (Machine.target_reference m c.on), if_neg other, if_pos known, bind_of_ok read]
  rfl

theorem perform_virtual (other : c.name ≠ constructorName)
    (stands : m.heap.get c.on = .builder t) :
    c.perform m = Dispatch.native Object.builderClass c.name c.descriptor
      (builderMethod? c.on t c.name c.descriptor c.args) m := by
  rw [perform, if_neg other, virtual_of_builder stands]

theorem native_of_ok {owner name descriptor : String} {act : Action} {v : Option Value}
    {m' : Machine} (done : act m = .ok v m') :
    Dispatch.native owner name descriptor (some act) m = .ok (.answered v) m' := by
  rw [Dispatch.native, bind_of_ok done]
  rfl

theorem adding_empty (stands : m.heap.get c.on = .builder t) : c.adding m "" = m := by
  have same : m.heap.modify c.on (fun
      | .builder s => .builder (s ++ "")
      | o => o) = m.heap := Heap.modify_of_eq (by simp [stands])
  rw [adding, Machine.changing, same]

/-- Whatever becomes of the step, objects that were there are as they were. -/
def Grows {α : Type} (act : MachineM α) (m : Machine) : Prop :=
  m.heap.Grown (Machine.behind (act m)).heap

theorem grows_bind_of_error {α β : Type} {act : MachineM α} {k : α → MachineM β}
    {e : MachineError} (failed : act m = .error e m) : Grows (act >>= k) m := by
  unfold Grows
  rw [bind_of_error failed]
  exact .refl _

theorem grows_native {owner name descriptor : String} {action : Option Action}
    (each : ∀ act, action = some act → Grows act m) :
    Grows (Dispatch.native owner name descriptor action) m := by
  cases action with
  | none => exact .refl _
  | some act =>
    have grown := each act rfl
    unfold Grows at grown ⊢
    cases done : act m with
    | ok v m' =>
      rw [done] at grown
      rw [native_of_ok done]
      exact grown
    | error e m' =>
      rw [done] at grown
      rw [Dispatch.native, bind_of_error done]
      exact grown

/-- Where a text is given, the method adds it to the builder, which is all that it does. Else it
leaves all objects as they are. -/
def Does (c : BuilderCall) (m : Machine) (text : Option String) (answer : Option Value)
    (action : Option Action) : Prop :=
  match text with
  | some text => ∃ act, action = some act ∧ act m = .ok answer (c.adding m text)
  | none => ∀ act, action = some act → Grows act m

variable {answered : Option Value}

theorem does_append (c : BuilderCall) (m : Machine) (text : String) :
    c.Does m text answered (some do
      appendText c.on text
      return answered) := ⟨_, rfl, rfl⟩

theorem does_textArgument (c : BuilderCall) (m : Machine) :
    c.Does m (c.args.head?.map m.heap.text) answered (some do
      appendText c.on (← textArgument c.args)
      return answered) := by
  cases c.args with
  | nil =>
    rintro act ⟨⟩
    exact grows_bind_of_error rfl
  | cons v rest => exact ⟨_, rfl, rfl⟩

theorem does_charArgument (c : BuilderCall) (m : Machine) :
    c.Does m ((c.args.head?.bind Value.char?).map String.singleton) answered (some do
      let ch ← charArgument c.args
      appendText c.on (String.singleton ch)
      return answered) := by
  unfold charArgument
  cases c.args.head?.bind Value.char? with
  | none =>
    rintro act ⟨⟩
    exact grows_bind_of_error rfl
  | some ch => exact ⟨_, rfl, rfl⟩

theorem does_special (made : c.name = constructorName) (stands : m.heap.get c.on = .builder t) :
    c.Does m (c.text? m.heap) none (special? c.on (.builder t) c.name c.descriptor c.args) := by
  rw [text?, special?, if_pos made, if_neg (not_not.2 made)]
  by_cases empty : c.descriptor = "()V"
  · rw [if_pos empty, if_pos empty]
    refine ⟨_, rfl, ?_⟩
    rw [adding_empty stands]
    rfl
  · rw [if_neg empty, if_neg empty]
    by_cases initial : c.descriptor = "(Ljava/lang/String;)V"
    · rw [if_pos initial, if_pos initial]
      exact does_textArgument c m
    · rw [if_neg initial, if_neg initial]
      rintro act ⟨⟩

theorem does_builderMethod (other : c.name ≠ constructorName) :
    c.Does m (c.text? m.heap) (some (.reference c.on))
      (builderMethod? c.on t c.name c.descriptor c.args) := by
  rw [text?, builderMethod?, if_neg other]
  by_cases append : c.name = "append"
  · rw [if_pos append, if_pos append]
    by_cases char : c.descriptor = "(C)Ljava/lang/StringBuilder;"
    · rw [if_pos char, if_pos char]
      exact does_charArgument c m
    · rw [if_neg char, if_neg char]
      by_cases truth : c.descriptor = "(Z)Ljava/lang/StringBuilder;"
      · rw [if_pos truth, if_pos truth]
        exact does_append c m _
      · rw [if_neg truth, if_neg truth]
        by_cases value : endsWith c.descriptor ")Ljava/lang/StringBuilder;"
        · rw [if_pos value, if_pos value]
          exact does_textArgument c m
        · rw [if_neg value, if_neg value]
          rintro act ⟨⟩
  · rw [if_neg append, if_neg append]
    intro act found
    split at found
    · cases found
      exact .refl _
    · split at found
      · cases found
        exact m.heap.grown_alloc _
      · cases found

theorem exists_native (stands : m.heap.get c.on = .builder t) :
    ∃ action, c.Does m (c.text? m.heap) c.answer action ∧
      c.perform m = Dispatch.native Object.builderClass c.name c.descriptor action m := by
  by_cases made : c.name = constructorName
  · rw [answer, if_pos made]
    exact ⟨_, does_special made stands, perform_special made stands⟩
  · rw [answer, if_neg made]
    exact ⟨_, does_builderMethod made, perform_virtual made stands⟩

theorem perform_of_text? (stands : m.heap.get c.on = .builder t)
    (adds : c.text? m.heap = some text) :
    c.perform m = .ok (.answered c.answer) (c.adding m text) := by
  obtain ⟨action, does, performs⟩ := exists_native stands
  rw [adds] at does
  obtain ⟨act, rfl, done⟩ := does
  rw [performs, native_of_ok done]

theorem grown_of_text? (stands : m.heap.get c.on = .builder t) (none : c.text? m.heap = none) :
    m.heap.Grown (c.ends m).heap := by
  obtain ⟨action, does, performs⟩ := exists_native stands
  rw [none] at does
  rw [ends, performs]
  exact grows_native does

theorem get_adding (stands : m.heap.get c.on = .builder t) :
    (c.adding m text).heap.get c.on = .builder (t ++ text) := by
  have old := Heap.lt_size stands (by simp)
  rw [adding, Machine.changing, Heap.get_modify old, stands]

theorem get_ends (stands : m.heap.get c.on = .builder t) {a : Address}
    (held : m.heap.get a = .builder s) : (c.ends m).heap.get a =
      .builder (s ++ if c.on = a then (c.text? m.heap).getD "" else "") := by
  cases adds : c.text? m.heap with
  | none =>
    have same := (grown_of_text? stands adds).same a (Heap.lt_size held (by simp))
    rw [same, held, Option.getD_none, ite_self, String.append_empty]
  | some text =>
    have done : c.ends m = c.adding m text := by
      rw [ends, perform_of_text? stands adds]
      rfl
    rw [done]
    by_cases own : c.on = a
    · subst own
      rw [if_pos rfl, Option.getD_some, get_adding held]
    · rw [if_neg own, String.append_empty, ← held]
      exact Heap.get_modify_of_ne (Ne.symm own) _

def after : List BuilderCall → Machine → Machine
  | [], m => m
  | c :: rest, m => after rest (c.ends m)

def added (a : Address) : List BuilderCall → Machine → List String
  | [], _ => []
  | c :: rest, m => (if c.on = a then (c.text? m.heap).getD "" else "") :: added a rest (c.ends m)

theorem get_after {a : Address} (held : m.heap.get a = .builder s) {calls : List BuilderCall}
    (builders : ∀ c ∈ calls, ∃ t, m.heap.get c.on = .builder t) :
    (after calls m).heap.get a = .builder (s ++ String.join (added a calls m)) := by
  induction calls generalizing m s with
  | nil => rw [after, added, String.join_nil, String.append_empty, held]
  | cons c rest ih =>
    obtain ⟨t, stands⟩ := builders c List.mem_cons_self
    have others : ∀ c' ∈ rest, ∃ t', (c.ends m).heap.get c'.on = .builder t' := fun c' mem =>
      have ⟨_, held'⟩ := builders c' (List.mem_cons_of_mem _ mem)
      ⟨_, get_ends stands held'⟩
    rw [after, ih (get_ends stands held) others, added, String.join_cons, String.append_assoc]

/-- The text of numbers, of null, of strings and of builders. -/
inductive Told (h : Heap) : Value → String → Prop
  | int (v : Int32) : Told h (.int v) (toString v.toInt)
  | long (v : Int64) : Told h (.long v) (toString v.toInt)
  | null : Told h .null "null"
  | string {a : Address} {s : String} (held : h.get a = .string s) : Told h (.reference a) s
  | builder {a : Address} {s : String} (held : h.get a = .builder s) : Told h (.reference a) s

/-- What constructors and appends add to a builder. -/
inductive Adds (h : Heap) : BuilderCall → String → Prop
  | blank {on : Address} : Adds h ⟨on, constructorName, "()V", []⟩ ""
  | initial {on : Address} {v : Value} {t : String} (told : Told h v t) :
    Adds h ⟨on, constructorName, "(Ljava/lang/String;)V", [v]⟩ t
  | char {on : Address} (c : Char) :
    Adds h ⟨on, "append", "(C)Ljava/lang/StringBuilder;", [.int (Int32.ofNat c.toNat)]⟩
      (String.singleton c)
  | boolean {on : Address} (v : Int32) :
    Adds h ⟨on, "append", "(Z)Ljava/lang/StringBuilder;", [.int v]⟩
      (if v = 0 then "false" else "true")
  | value {on : Address} {type : FieldType} {v : Value} {t : String} (told : Told h v t)
    (other : type ≠ .char ∧ type ≠ .boolean) :
    Adds h ⟨on, "append", "(" ++ type.descriptor ++ ")Ljava/lang/StringBuilder;", [v]⟩ t

theorem text_of_told {h : Heap} {v : Value} (told : Told h v t) : h.text v = t := by
  cases told with
  | int | long | null => simp [Heap.text, Heap.text?, Heap.textWithin]
  | string held | builder held => simp [Heap.text, Heap.text?, Heap.textWithin, held]

theorem char?_ofNat (c : Char) : (Value.int (Int32.ofNat c.toNat)).char? = some c := by
  have small : c.toNat < 4294967296 := c.val.toNat_lt
  have number : (Int32.ofNat c.toNat).toUInt32.toNat = c.toNat := by
    change (Int32.ofNat c.toNat).toBitVec.toNat = c.toNat
    rw [Int32.toBitVec_ofNat', BitVec.toNat_ofNat]
    omega
  have valid : c.toNat.isValidChar := c.valid
  simp only [Value.char?, Value.asInt?, Option.bind_some, number, if_pos valid, Char.ofNat_toNat]

theorem letters_of_descriptor {type : FieldType} (letter : Char)
    (same : "(" ++ type.descriptor ++ ")Ljava/lang/StringBuilder;" =
      "(" ++ String.singleton letter ++ ")Ljava/lang/StringBuilder;") :
    type.letters = [letter] := by
  have lists := congrArg String.toList same
  simp only [String.toList_append, FieldType.descriptor, String.toList_ofList,
    String.toList_singleton] at lists
  exact List.append_cancel_left (List.append_cancel_right lists)

theorem eq_char_of_letters {type : FieldType} (letters : type.letters = ['C']) : type = .char := by
  cases type <;> first | rfl | cases letters

theorem eq_boolean_of_letters {type : FieldType} (letters : type.letters = ['Z']) :
    type = .boolean := by
  cases type <;> first | rfl | cases letters

theorem endsWith_append (s suffix : String) : endsWith (s ++ suffix) suffix = true := by
  rw [endsWith, String.toList_append, List.isSuffixOf_iff_suffix]
  exact List.suffix_append _ _

theorem text?_of_adds (adds : Adds m.heap c text) : c.text? m.heap = some text := by
  have append : ¬"append" = constructorName := by decide
  have initial : ¬"(Ljava/lang/String;)V" = "()V" := by decide
  have boolean : ¬"(Z)Ljava/lang/StringBuilder;" = "(C)Ljava/lang/StringBuilder;" := by decide
  cases adds with
  | blank => rfl
  | initial told =>
    rw [text?, if_pos rfl, if_neg initial, if_pos rfl, List.head?_cons, Option.map_some,
      text_of_told told]
  | char ch =>
    rw [text?, if_neg append, if_pos rfl, if_pos rfl, List.head?_cons, Option.bind_some,
      char?_ofNat, Option.map_some]
  | boolean v =>
    rw [text?, if_neg append, if_pos rfl, if_neg boolean, if_pos rfl]
    by_cases zero : v = 0
    · simp [zero, Value.asInt?]
    · simp [zero, Value.asInt?]
  | @value _ type _ _ told other =>
    have char : ¬"(" ++ type.descriptor ++ ")Ljava/lang/StringBuilder;" =
        "(C)Ljava/lang/StringBuilder;" := fun same =>
      other.1 (eq_char_of_letters (letters_of_descriptor 'C' (same.trans rfl)))
    have boolean : ¬"(" ++ type.descriptor ++ ")Ljava/lang/StringBuilder;" =
        "(Z)Ljava/lang/StringBuilder;" := fun same =>
      other.2 (eq_boolean_of_letters (letters_of_descriptor 'Z' (same.trans rfl)))
    rw [text?, if_neg append, if_pos rfl, if_neg char, if_neg boolean,
      if_pos (endsWith_append _ _), List.head?_cons, Option.map_some, text_of_told told]

/-- Whatever is called on builders, each has the text that it had with what is added to it behind,
in its order, and what programs can append is added. A builder becomes a string of its text. The
two tell one length unless there are characters that take two units: strings count units, and
builders count characters. -/
theorem toString_after {a : Address} (held : m.heap.get a = .builder s) {calls : List BuilderCall}
    (builders : ∀ c ∈ calls, ∃ t, m.heap.get c.on = .builder t) :
    ∃ m' whole, after calls m = m' ∧ whole = s ++ String.join (added a calls m) ∧
      m'.heap.get a = .builder whole ∧
      (∀ c t text, m'.heap.get c.on = .builder t → Adds m'.heap c text →
        c.text? m'.heap = some text ∧
          c.perform m' = .ok (.answered c.answer) (c.adding m' text)) ∧
      Dispatch.virtual "toString" "()Ljava/lang/String;" [.reference a] m' =
        .ok (.answered (some (.reference ⟨m'.heap.size⟩))) (m'.adding (.string whole)) ∧
      ∃ n k, Dispatch.virtual "length" "()I" [.reference a] m' =
          .ok (.answered (some (.int n))) m' ∧
        Dispatch.virtual "length" "()I" [.reference ⟨m'.heap.size⟩] (m'.adding (.string whole)) =
          .ok (.answered (some (.int k))) (m'.adding (.string whole)) ∧
        (n = k ↔ 4294967296 ∣ Text.supplementary whole) := by
  have whole := get_after held builders
  refine ⟨_, _, rfl, rfl, whole, fun c t text stands adds => ?_, virtual_of_builder whole _ _ _,
    _, _, virtual_of_builder whole _ _ _, virtual_of_string (Heap.get_alloc _ _) _ _ _, ?_⟩
  · have told := text?_of_adds adds
    exact ⟨told, perform_of_text? stands told⟩
  · rw [length_string]
    exact ofNat_eq_ofNat_add_iff _ _

/-- A string of one character that takes two units, and a builder. -/
def smiling : Machine := { heap := ⟨#[.string "😀", .builder "a"]⟩ }

/-- The string is appended, and then the builder itself. -/
def grinning : List BuilderCall :=
  [⟨⟨1⟩, "append", "(Ljava/lang/String;)Ljava/lang/StringBuilder;", [.reference ⟨0⟩]⟩,
    ⟨⟨1⟩, "append", "(Ljava/lang/Object;)Ljava/lang/StringBuilder;", [.reference ⟨1⟩]⟩]

theorem builders_grinning : ∀ c ∈ grinning, ∃ t, smiling.heap.get c.on = .builder t := by
  intro c mem
  rcases List.mem_cons.1 mem with rfl | mem
  · exact ⟨_, rfl⟩
  · rcases List.mem_singleton.1 mem with rfl
    exact ⟨_, rfl⟩

theorem toString_after_grinning : smiling.heap.get ⟨1⟩ = .builder "a" ∧
    ∃ m', after grinning smiling = m' ∧ m'.heap.get ⟨1⟩ = .builder "a😀a😀" ∧
      Dispatch.virtual "toString" "()Ljava/lang/String;" [.reference ⟨1⟩] m' =
        .ok (.answered (some (.reference ⟨m'.heap.size⟩))) (m'.adding (.string "a😀a😀")) := by
  have texts : "a" ++ String.join (added ⟨1⟩ grinning smiling) = "a😀a😀" := by decide +kernel
  obtain ⟨m', whole, behind, told, held, -, string, -⟩ := toString_after (m := smiling) (s := "a")
    (a := ⟨1⟩) rfl builders_grinning
  rw [told, texts] at held string
  exact ⟨rfl, m', behind, held, string⟩

/-- The string of a builder is longer than the builder. -/
theorem not_length_toString : ∃ m', after grinning smiling = m' ∧
    Dispatch.virtual "length" "()I" [.reference ⟨1⟩] m' =
      .ok (.answered (some (.int 4))) m' ∧
    Dispatch.virtual "toString" "()Ljava/lang/String;" [.reference ⟨1⟩] m' =
      .ok (.answered (some (.reference ⟨m'.heap.size⟩))) (m'.adding (.string "a😀a😀")) ∧
    Dispatch.virtual "length" "()I" [.reference ⟨m'.heap.size⟩] (m'.adding (.string "a😀a😀")) =
      .ok (.answered (some (.int 6))) (m'.adding (.string "a😀a😀")) := by
  have texts : "a" ++ String.join (added ⟨1⟩ grinning smiling) = "a😀a😀" := by decide +kernel
  have held := get_after (m := smiling) (s := "a") (a := ⟨1⟩) rfl builders_grinning
  rw [texts] at held
  have characters : Int32.ofNat (length (.builder "a😀a😀")) = 4 := by decide +kernel
  have units : Int32.ofNat (length (.string "a😀a😀")) = 6 := by decide +kernel
  refine ⟨_, rfl, ?_, virtual_of_builder held _ _ _, ?_⟩
  · rw [← characters]
    exact virtual_of_builder held _ _ _
  · rw [← units]
    exact virtual_of_string (Heap.get_alloc _ _) _ _ _

end BuilderCall
end ClassForge
