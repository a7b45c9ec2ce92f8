import ClassForge.Machine.Instance

namespace ClassForge.Native

open Machine

abbrev Action := MachineM (Option Value)

def isBuiltIn (name : String) : Bool :=
  name = Object.stringClass || name = Object.builderClass || (FieldType.ofWrapper? name).isSome

/-- An object before its constructor runs. Only builders are made this way. -/
def blank? (name : String) : Option Object :=
  if name = Object.builderClass then some (.builder "") else none

def textArgument (args : List Value) : MachineM String := do
  match args with
  | v :: _ => return (← get).heap.text v
  | [] => violation .missingArgument

def charArgument (args : List Value) : MachineM Char :=
  match args.head?.bind Value.char? with
  | some c => return c
  | none => violation .expectedChar

def endsWith (text suffix : String) : Bool := suffix.toList.isSuffixOf text.toList

def appendText (a : Address) (text : String) : MachineM Unit :=
  change a fun
    | .builder s => .builder (s ++ text)
    | o => o

def answer (v : Value) : Action := return some v

def answerString (s : String) : Action := do
  let v ← newString s
  return some v

def special? (a : Address) (o : Object) (name descriptor : String) (args : List Value) :
    Option Action :=
  match o with
  | .builder _ =>
    if name ≠ constructorName then none
    else if descriptor = "()V" then some (return none)
    else if descriptor = "(Ljava/lang/String;)V" then some do
      appendText a (← textArgument args)
      return none
    else none
  | _ => none

/-- The number of characters of a builder, and of UTF-16 units of a string. -/
def length : Object → Nat
  | .builder s => s.length
  | .string s => (s.toList.flatMap Text.ModifiedUtf8.unitsOf).length
  | _ => 0

def builderMethod? (a : Address) (s : String) (name descriptor : String) (args : List Value) :
    Option Action :=
  let this : Action := return some (.reference a)
  if name = "append" then
    if descriptor = "(C)Ljava/lang/StringBuilder;" then some do
      let c ← charArgument args
      appendText a (String.singleton c)
      this
    else if descriptor = "(Z)Ljava/lang/StringBuilder;" then some do
      appendText a (if (args.head?.bind Value.asInt?).any (· ≠ 0) then "true" else "false")
      this
    else if endsWith descriptor ")Ljava/lang/StringBuilder;" then some do
      appendText a (← textArgument args)
      this
    else none
  else if name = "length" ∧ descriptor = "()I" then
    some (answer (.int (Int32.ofNat (length (.builder s)))))
  else if name = "toString" ∧ descriptor = "()Ljava/lang/String;" then some (answerString s)
  else none

def stringMethod? (a : Address) (s : String) (name descriptor : String) (args : List Value) :
    Option Action :=
  let other : MachineM (Option String) := return args.head?.bind (← get).heap.string?
  if name = "length" ∧ descriptor = "()I" then
    some (answer (.int (Int32.ofNat (length (.string s)))))
  else if name = "toString" ∧ descriptor = "()Ljava/lang/String;" then
    some (answer (.reference a))
  else if name = "concat" ∧ descriptor = "(Ljava/lang/String;)Ljava/lang/String;" then some do
    match ← other with
    | some t => answerString (s ++ t)
    | none => throw .nullPointer
  else if name = "equals" ∧ descriptor = "(Ljava/lang/Object;)Z" then some do
    answer (.int (if (← other) = some s then 1 else 0))
  else none

/-- A number as a long: fractions are cut off, and what does not fit becomes the nearest that
does. -/
def toLong : Value → Int64
  | .int v => v.toInt64
  | .long v => v
  | .float b => Floating.single.toInt64 b.toNat
  | .double b => Floating.double.toInt64 b.toNat
  | .reference _ | .null => 0

def toDouble : Value → Nat
  | .int v => Floating.double.ofInt v.toInt
  | .long v => Floating.double.ofInt v.toInt
  | .float b => Floating.double.convert Floating.single b.toNat
  | .double b => b.toNat
  | .reference _ | .null => 0

def unboxed? (wrapped : FieldType) (v : Value) (name descriptor : String) : Option Value :=
  match wrapped with
  | .boolean => if name = "booleanValue" ∧ descriptor = "()Z" then some v else none
  | .char => if name = "charValue" ∧ descriptor = "()C" then some v else none
  | _ =>
    if name = "intValue" ∧ descriptor = "()I" then some (.int (toLong v).toInt32)
    else if name = "byteValue" ∧ descriptor = "()B" then some (.int (toLong v).toInt8.toInt32)
    else if name = "shortValue" ∧ descriptor = "()S" then some (.int (toLong v).toInt16.toInt32)
    else if name = "longValue" ∧ descriptor = "()J" then some (.long (toLong v))
    else if name = "floatValue" ∧ descriptor = "()F" then
      some (.float (UInt32.ofNat (Floating.single.convert Floating.double (toDouble v))))
    else if name = "doubleValue" ∧ descriptor = "()D" then
      some (.double (UInt64.ofNat (toDouble v)))
    else none

def boxMethod? (a : Address) (wrapper : String) (v : Value) (name descriptor : String) :
    Option Action := do
  let wrapped ← FieldType.ofWrapper? wrapper
  if name = "toString" ∧ descriptor = "()Ljava/lang/String;" then
    some do answerString ((← get).heap.text (.reference a))
  else (unboxed? wrapped v name descriptor).map answer

def virtual? (a : Address) (o : Object) (name descriptor : String) (args : List Value) :
    Option Action :=
  match o with
  | .builder s => builderMethod? a s name descriptor args
  | .string s => stringMethod? a s name descriptor args
  | .box wrapper v => boxMethod? a wrapper v name descriptor
  | _ => none

def valueText (descriptor : String) (args : List Value) : MachineM String :=
  if descriptor = "(C)Ljava/lang/String;" then return String.singleton (← charArgument args)
  else if descriptor = "(Z)Ljava/lang/String;" then
    return if args.head?.bind Value.asInt? = some 0 then "false" else "true"
  else textArgument args

def static? (owner name descriptor : String) (args : List Value) : Option Action :=
  if owner = Object.stringClass ∧ name = "valueOf" ∧ endsWith descriptor ")Ljava/lang/String;" then
    some do answerString (← valueText descriptor args)
  else do
    let wrapped ← FieldType.ofWrapper? owner
    if name = "valueOf" ∧ descriptor = s!"({wrapped.descriptor})L{owner};" then
      some do
        match args with
        | v :: _ => return some (← alloc (.box owner v))
        | [] => violation .missingArgument
    else none

end ClassForge.Native
