import ClassForge.ClassFile.Basic
import ClassForge.Code.Operation
import ClassForge.Descriptor.Cache
import ClassForge.Descriptor.Slots
import ClassForge.Descriptor.Wrapper

namespace ClassForge

structure Label where
  id : Nat
deriving DecidableEq, Repr

structure Instruction where
  operation : Operation Label
  pops : Nat
  pushes : Nat
deriving DecidableEq, Repr

inductive Item where
  | instruction (i : Instruction)
  | place (label : Label)
  | line (number : UInt16)
deriving DecidableEq, Repr

structure Protection where
  start : Label
  stop : Label
  handler : Label
  /-- The class caught; zero catches everything. -/
  catchType : Index
deriving DecidableEq, Repr

structure Scope where
  start : Label
  stop : Label
  name : Index
  descriptor : Index
  slot : UInt16
deriving DecidableEq, Repr

structure Body where
  pool : Pool
  cache : DescriptorCache
  descriptor : MethodDescriptor
  isStatic : Bool
  items : Array Item := #[]
  nextLabel : Nat := 0
  protections : Array Protection := #[]
  scopes : Array Scope := #[]
  /-- One past the highest slot used so far. -/
  maxLocals : UInt16
  declaredStack : Option UInt16 := none

instance : Inhabited Body :=
  ⟨{ pool := {}, cache := {}, descriptor := default, isStatic := true, maxLocals := 0 }⟩

/-- Steps on a body. A failed step leaves what it did. -/
abbrev BodyM := EStateM Error Body

namespace Body

def onPool {α : Type} (m : PoolM α) : BodyM α := fun b =>
  let pool := b.pool
  let b := { b with pool := {} }
  match m pool with
  | .ok a pool => .ok a { b with pool := pool }
  | .error e pool => .error e { b with pool := pool }

def method (descriptor : String) : BodyM MethodDescriptor := fun b =>
  let (found, cache) := b.cache.method? descriptor
  let b := { b with cache := cache }
  match found with
  | some d => .ok d b
  | none => .error (.invalidDescriptor descriptor) b

def receiverSlots (isStatic : Bool) : Nat := if isStatic then 0 else 1

def slotsFrom (isStatic : Bool) (ts : List FieldType) : Except Error UInt16 := do
  let n ← FieldType.countFrom 0 ts
  slotCount (receiverSlots isStatic + n.toNat)

theorem slotsFrom_eq (isStatic : Bool) (ts : List FieldType) :
    slotsFrom isStatic ts = slotCount (receiverSlots isStatic + FieldType.totalSlots ts) := by
  have counted := FieldType.countFrom_eq 0 ts
  rw [UInt16.toNat_zero, Nat.zero_add] at counted
  rw [slotsFrom, counted]
  by_cases small : FieldType.totalSlots ts ≤ 65535
  · rw [slotCount_of_le small]
    exact congrArg (fun n => slotCount (receiverSlots isStatic + n)) (toNat_slots small)
  · rw [slotCount_of_lt (by omega), slotCount_of_lt (by omega)]
    rfl

/-- The body of a method before its first instruction. The receiver and the parameters have the
first slots. The cache is given back also when the descriptor is refused. -/
def start (pool : Pool) (cache : DescriptorCache) (descriptor : String) (isStatic : Bool) :
    Except Error Body × DescriptorCache :=
  let (found, cache) := cache.method? descriptor
  match found with
  | none => (.error (.invalidDescriptor descriptor), cache)
  | some d =>
    match slotsFrom isStatic d.params with
    | .error e => (.error e, cache)
    | .ok n =>
      (.ok { pool := pool, cache := cache, descriptor := d, isStatic := isStatic, maxLocals := n },
        cache)

def addItem (i : Item) : BodyM Unit := modify fun b => { b with items := b.items.push i }

def emit (o : Operation Label) (pops pushes : Nat) : BodyM Unit :=
  addItem (.instruction ⟨o, pops, pushes⟩)

def newLabel : BodyM Label :=
  modifyGet fun b => (⟨b.nextLabel⟩, { b with nextLabel := b.nextLabel + 1 })

def place (l : Label) : BodyM Unit := addItem (.place l)

def lineNumber (n : UInt16) : BodyM Unit := addItem (.line n)

def declareMaxStack (n : UInt16) : BodyM Unit := modify fun b => { b with declaredStack := some n }

def pushNull : BodyM Unit := emit .pushNull 0 1

def pushInt (v : Int32) : BodyM Unit := do
  if -32768 ≤ v.toInt ∧ v.toInt ≤ 32767 then emit (.pushInt (Int16.ofInt v.toInt)) 0 1
  else
    let i ← onPool (Pool.integer v)
    emit (.loadConstant i) 0 1

def pushLong (v : Int64) : BodyM Unit := do
  if v = 0 then emit (.pushLong false) 0 2
  else if v = 1 then emit (.pushLong true) 0 2
  else
    let i ← onPool (Pool.long v)
    emit (.loadWideConstant i) 0 2

/-- Zero, one and two have instructions of their own; negative zero is not zero here. -/
def pushFloat (bits : UInt32) : BodyM Unit := do
  if bits = 0 then emit (.pushFloat ⟨0, by decide⟩) 0 1
  else if bits = 0x3f800000 then emit (.pushFloat ⟨1, by decide⟩) 0 1
  else if bits = 0x40000000 then emit (.pushFloat ⟨2, by decide⟩) 0 1
  else
    let i ← onPool (Pool.float bits)
    emit (.loadConstant i) 0 1

def pushDouble (bits : UInt64) : BodyM Unit := do
  if bits = 0 then emit (.pushDouble false) 0 2
  else if bits = 0x3ff0000000000000 then emit (.pushDouble true) 0 2
  else
    let i ← onPool (Pool.double bits)
    emit (.loadWideConstant i) 0 2

def pushString (s : String) : BodyM Unit := do
  let i ← onPool (Pool.string s)
  emit (.loadConstant i) 0 1

def pushLiteral : Literal → BodyM Unit
  | .int v => pushInt v
  | .long v => pushLong v
  | .float b => pushFloat b
  | .double b => pushDouble b
  | .string s => pushString s

/-- Slot numbers end at 65535, also those one past the last slot. -/
def touch (slot : UInt16) (kind : ValueKind) : BodyM Unit :=
  modify fun b => { b with maxLocals := max b.maxLocals (pastSlot slot kind) }
where
  pastSlot (slot : UInt16) (kind : ValueKind) : UInt16 :=
    UInt16.ofNat (min 65535 (slot.toNat + kind.slots))

def load (kind : ValueKind) (slot : UInt16) : BodyM Unit := do
  touch slot kind
  emit (.load kind slot) 0 kind.slots

def store (kind : ValueKind) (slot : UInt16) : BodyM Unit := do
  touch slot kind
  emit (.store kind slot) kind.slots 0

def loadThis : BodyM Unit := do
  if (← get).isStatic then throw (.unsupported .staticThis) else load .reference 0

def paramSlot? (b : Body) (i : Nat) : Except Error UInt16 :=
  let params := b.descriptor.params
  if params.length ≤ i then .error (.unsupported (.noParameter i params.length))
  else slotsFrom b.isStatic (params.take i)

def paramSlot (i : Nat) : BodyM UInt16 := do
  match (← get).paramSlot? i with
  | .ok s => return s
  | .error e => throw e

def loadParam (i : Nat) : BodyM Unit := do
  let slot ← paramSlot i
  let b ← get
  load (.ofType (b.descriptor.params.getD i .int)) slot

def loadParams : BodyM Unit := do
  let b ← get
  (List.range b.descriptor.params.length).forM loadParam

def newLocal (type : FieldType) : BodyM UInt16 := do
  let slot := (← get).maxLocals
  touch slot (.ofType type)
  return slot

def increment (slot : UInt16) (delta : Int16) : BodyM Unit := do
  touch slot .int
  emit (.increment slot delta) 0 0

def localVariable (name : String) (type : FieldType) (slot : UInt16) (start stop : Label) :
    BodyM Unit := do
  let n ← onPool (Pool.utf8 name)
  let d ← onPool (Pool.utf8 type.descriptor)
  touch slot (.ofType type)
  modify fun b => { b with scopes := b.scopes.push ⟨start, stop, n, d, slot⟩ }

def field (access : FieldAccess) (owner name : String) (type : FieldType) : BodyM Unit := do
  let i ← onPool (Pool.member .field owner name type.descriptor)
  match access with
  | .get => emit (.field .get i) 1 type.slots
  | .put => emit (.field .put i) (1 + type.slots) 0
  | .getStatic => emit (.field .getStatic i) 0 type.slots
  | .putStatic => emit (.field .putStatic i) type.slots 0

def callSlots (isStatic : Bool) (d : MethodDescriptor) : BodyM Nat :=
  match slotsFrom isStatic d.params with
  | .ok n => return n.toNat
  | .error e => throw e

def invoke (kind : InvokeKind) (owner name descriptor : String) : BodyM Unit := do
  let d ← method descriptor
  let pops ← callSlots (kind = .static) d
  let i ← onPool (Pool.member .method owner name descriptor)
  emit (.invoke kind i) pops d.returnSlots

/-- The count of slots taken must fit a byte. -/
def invokeInterface (owner name descriptor : String) : BodyM Unit := do
  let d ← method descriptor
  let pops ← callSlots false d
  let i ← onPool (Pool.member .interfaceMethod owner name descriptor)
  if 255 < pops then throw (.encoding (.manyArguments name descriptor))
  else emit (.invokeInterface i (UInt8.ofNat pops)) pops d.returnSlots

def newObject (name : String) : BodyM Unit := do
  let i ← onPool (Pool.classRef name)
  emit (.new i) 0 1

def newArray (component : FieldType) : BodyM Unit := do
  match component.primitive? with
  | some p => emit (.newArray p) 1 1
  | none =>
    let i ← onPool (Pool.classRef (component.className?.getD ""))
    emit (.newReferenceArray i) 1 1

def arrayLength : BodyM Unit := emit .arrayLength 1 1

def arrayLoad (component : FieldType) : BodyM Unit :=
  emit (.arrayLoad (.ofType component)) 2 component.slots

def arrayStore (component : FieldType) : BodyM Unit :=
  emit (.arrayStore (.ofType component)) (2 + component.slots) 0

def checkCast (name : String) : BodyM Unit := do
  let i ← onPool (Pool.classRef name)
  emit (.checkCast i) 1 1

def instanceOf (name : String) : BodyM Unit := do
  let i ← onPool (Pool.classRef name)
  emit (.instanceOf i) 1 1

def dup : BodyM Unit := emit .dup 1 2

def dupX1 : BodyM Unit := emit .dupX1 2 3

def dup2 : BodyM Unit := emit .dup2 2 4

def pop : BodyM Unit := emit .pop 1 0

def pop2 : BodyM Unit := emit .pop2 2 0

def discard (kind : ValueKind) : BodyM Unit := if kind.slots = 2 then pop2 else pop

def swap : BodyM Unit := emit .swap 2 2

def arithmetic (kind : ValueKind) (operator : Arithmetic) : BodyM Unit :=
  match kind.number? with
  | some k => emit (.arithmetic k operator) (2 * k.slots) k.slots
  | none => throw (.unsupported .referenceArithmetic)

def negate (kind : ValueKind) : BodyM Unit :=
  match kind.number? with
  | some k => emit (.negate k) k.slots k.slots
  | none => throw (.unsupported .referenceArithmetic)

/-- A kind is converted to itself without an instruction. -/
def convert (source target : ValueKind) : BodyM Unit :=
  match source.number?, target.number? with
  | some s, some t =>
    match Conversion.between? s t with
    | some c => emit (.convert c) s.slots t.slots
    | none => return ()
  | _, _ => throw (.unsupported (.conversion source target))

def branch (condition : Condition) (target : Label) : BodyM Unit :=
  emit (.branch condition target) condition.slots 0

def goto (target : Label) : BodyM Unit := emit (.goto target) 0 0

/-- Returns what the descriptor says. The value must be all that the operands hold. -/
def leave : BodyM Unit := do
  match (← get).descriptor.returns with
  | none => emit (.leave none) 0 0
  | some t => emit (.leave (some (.ofType t))) t.slots 0

def raise : BodyM Unit := emit .raise 1 0

def tryCatch (start stop handler : Label) (caught : Option String) : BodyM Unit := do
  let catchType ← match caught with
    | some name => onPool (Pool.classRef name)
    | none => pure 0
  modify fun b =>
    { b with protections := b.protections.push ⟨start, stop, handler, catchType⟩ }

/-- The class and the method that give the value of a box as a primitive type. All numbers go
through one class, so that a box of one kind of number serves for another. -/
def unboxing? : FieldType → Option (String × String)
  | .boolean => some ("java/lang/Boolean", "booleanValue")
  | .char => some ("java/lang/Character", "charValue")
  | .byte => some ("java/lang/Number", "byteValue")
  | .short => some ("java/lang/Number", "shortValue")
  | .int => some ("java/lang/Number", "intValue")
  | .long => some ("java/lang/Number", "longValue")
  | .float => some ("java/lang/Number", "floatValue")
  | .double => some ("java/lang/Number", "doubleValue")
  | .object _ | .array _ => none

def box (type : FieldType) : BodyM Unit := do
  match type.wrapper? with
  | some wrapper =>
    invoke .static wrapper "valueOf" s!"({type.descriptor})L{wrapper};"
  | none => return ()

def unbox (type : FieldType) : BodyM Unit := do
  match unboxing? type with
  | some (owner, name) =>
    checkCast owner
    invoke .virtual owner name s!"(){type.descriptor}"
  | none =>
    if type = .object objectClass then return ()
    else checkCast (type.className?.getD "")

/-- Code that branches or has handlers needs a stack map in newer class files. -/
def needsStackMap (b : Body) : Bool :=
  !b.protections.isEmpty || b.items.any fun
    | .instruction i => i.operation.target?.isSome
    | _ => false

end Body
end ClassForge
