import ClassForge.Code.Body
import ClassForge.Code.Encoding

namespace ClassForge

structure Layout where
  instructions : Array Instruction := #[]
  /-- The offset of each instruction, and at last the length of the code. -/
  offsets : Array Nat := #[]
  /-- For each label the position of the instruction after it. -/
  labels : Std.TreeMap Nat Nat := ∅
  /-- Source lines with the position of the first instruction that they are given to. -/
  lines : Array (Nat × UInt16) := #[]

namespace Layout

/-- The layout of items behind what is laid out already, which takes `length` bytes. -/
def addItems (l : Layout) (length : Nat) : List Item → Except Error Layout
  | [] => .ok { l with offsets := l.offsets.push length }
  | .instruction i :: rest =>
    addItems { l with instructions := l.instructions.push i, offsets := l.offsets.push length }
      (length + i.operation.size) rest
  | .place label :: rest =>
    if l.labels.contains label.id then .error (.invalidBranchTarget label.id .placedTwice)
    else addItems { l with labels := l.labels.insert label.id l.instructions.size } length rest
  | .line n :: rest =>
    addItems { l with lines := l.lines.push (l.instructions.size, n) } length rest

def size (l : Layout) : Nat := l.instructions.size

def offset (l : Layout) (i : Nat) : Nat := l.offsets.getD i 0

def length (l : Layout) : Nat := l.offset l.size

/-- Code has at least one instruction and at most 65535 bytes. -/
def ofItems (items : List Item) : Except Error Layout := do
  let l ← addItems {} 0 items
  if l.size = 0 then throw (.encoding .emptyBody)
  else if 65535 < l.length then throw (.encoding (.longBody l.length))
  else return l

/-- The position of the instruction that a label marks. Behind the last one a label marks none. -/
def instructionAt (l : Layout) (label : Label) : Except Error Nat :=
  match l.labels[label.id]? with
  | none => .error (.invalidBranchTarget label.id .neverPlaced)
  | some i =>
    if l.size ≤ i then .error (.invalidBranchTarget label.id .placedLast) else .ok i

def offsetOf (l : Layout) (label : Label) : Except Error Nat :=
  match l.labels[label.id]? with
  | none => .error (.invalidBranchTarget label.id .neverPlaced)
  | some i => .ok (l.offset i)

def distance (l : Layout) (i : Nat) (label : Label) : Except Error Int16 := do
  let target ← l.instructionAt label
  let d : Int := l.offset target - l.offset i
  if d < -32768 ∨ 32767 < d then throw (.encoding (.longBranch label.id d))
  else return Int16.ofInt d

def resolve (l : Layout) (i : Nat) (o : Operation Label) : Except Error (Operation Int16) :=
  match o with
  | .branch c t => return .branch c (← l.distance i t)
  | .goto t => return .goto (← l.distance i t)
  | o => return o.map fun _ => 0

def encode (l : Layout) : Except Error (List UInt8) := do
  let parts ← l.instructions.toList.zipIdx.mapM fun (instruction, i) => do
    let o ← l.resolve i instruction.operation
    return o.encode
  return parts.flatten

end Layout
end ClassForge
