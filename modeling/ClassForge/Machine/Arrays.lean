import ClassForge.Descriptor.Reader
import ClassForge.Machine.Run

namespace ClassForge.Run

def popArray : RunM (Address × FieldType × Array Value) := do
  match ← pop with
  | .reference a =>
    match (← heap).get a with
    | .array component elements => return (a, component, elements)
    | o => violation (.notArray o.className)
  | .null => throw .nullPointer
  | v => violation (.expectedArray v)

def position (size : Nat) (i : Int32) : Except MachineError Nat :=
  if i < 0 then .error (.indexOutOfBounds i)
  else if size ≤ i.toInt.toNat then .error (.indexOutOfBounds i)
  else .ok i.toInt.toNat

def arrayLoad : RunM Unit := do
  let i ← popInt
  let (_, _, elements) ← popArray
  push (elements.getD (← lift (position elements.size i)) .null)

def narrowed (kind : ElementKind) (v : Value) : Value :=
  match kind, v with
  | .byte, .int i => .int i.toInt8.toInt32
  | .char, .int i => .int (i.toUInt32 &&& 0xffff).toInt32
  | .short, .int i => .int i.toInt16.toInt32
  | _, v => v

/-- Arrays of references take null, and instances of the type of their elements. -/
def checkElement (component : FieldType) (v : Value) : RunM Unit := do
  let h ← heap
  let expected := component.className?.getD component.descriptor
  if v = .null ∨ h.isInstance v expected then return ()
  else throw (.classCast (h.className v) expected)

def setElement (i : Nat) (v : Value) : Object → Object
  | .array component elements => .array component (elements.setIfInBounds i v)
  | o => o

def arrayStore (kind : ElementKind) : RunM Unit := do
  let v ← pop
  let i ← popInt
  let (a, component, elements) ← popArray
  if kind = .reference then checkElement component v
  let i ← lift (position elements.size i)
  onMachine (Machine.change a (setElement i (narrowed kind v)))

def arrayLength : RunM Unit := do
  let (_, _, elements) ← popArray
  pushInt (Int32.ofNat elements.size)

def newArray (component : FieldType) : RunM Unit := do
  let n ← popInt
  if n < 0 then throw (.negativeSize n)
  else
    let elements := Array.replicate n.toInt.toNat (Value.initial component)
    push (← onMachine (Machine.alloc (.array component elements)))

def componentNamed (name : String) : RunM FieldType := do
  if name.toList.head? = some '[' then
    match FieldType.decode? name with
    | some t => return t
    | none => throw (.classFormat (.invalidDescriptor name))
  else return .ofClass name

end ClassForge.Run
