import ClassForge.Code.Decoding
import ClassForge.Machine.Arrays
import ClassForge.Machine.Compute
import ClassForge.Machine.Dispatch
import ClassForge.Machine.Load

namespace ClassForge

inductive Flow where
  | next
  | leave (value : Option Value)
  | raise (exception : Value)
  | call (callee : Activation)

namespace Run

def pop2 : RunM Unit := do
  if (← pop).slots = 1 then
    let _ ← pop

def dup : RunM Unit := do
  let v ← pop
  push v
  push v

def dupX1 : RunM Unit := do
  let top ← pop
  let below ← pop
  push top
  push below
  push top

def dup2 : RunM Unit := do
  let top ← pop
  if top.slots = 2 then
    push top
    push top
  else
    let below ← pop
    push below
    push top
    push below
    push top

def swap : RunM Unit := do
  let top ← pop
  let below ← pop
  push top
  push below

def holds (c : Comparison) (a b : Int32) : Bool :=
  match c with
  | .eq => a = b
  | .ne => a ≠ b
  | .lt => a < b
  | .ge => b ≤ a
  | .gt => b < a
  | .le => a ≤ b

def test (c : Condition) : RunM Bool := do
  match c with
  | .zero c => return holds c (← popInt) 0
  | .ints c =>
    let b ← popInt
    let a ← popInt
    return holds c a b
  | .same expected =>
    let b ← popReference
    let a ← popReference
    return a.sameReference b == expected
  | .null expected => return decide ((← popReference) = .null) == expected

def jump (start next : Nat) (distance : Option Int16) (taken : Bool) : RunM Unit := do
  let size := (← get).activation.bytes.size
  match distance with
  | none => violation (.truncated size)
  | some d =>
    if taken then
      let goal : Int := start + d.toInt
      if goal < 0 ∨ size ≤ goal then violation (.leavesCode start) else setPc goal.toNat
    else setPc next

def field (access : FieldAccess) (i : Index) : RunM Unit := do
  let f ← member i
  match access with
  | .getStatic =>
    push (← onMachine do Machine.getStatic (← Machine.resolve f.owner) f.name)
  | .putStatic =>
    let v ← pop
    onMachine do Machine.putStatic (← Machine.resolve f.owner) f.name v
  | .get =>
    let o ← popReference
    push (← onMachine (Machine.getField o f.name))
  | .put =>
    let v ← pop
    let o ← popReference
    onMachine (Machine.putField o f.name v)

def answered (value : Option Value) : RunM Flow := do
  match value with
  | some v =>
    push v
    return .next
  | none => return .next

def invoke (i : Index) (receiver : Nat)
    (dispatch : MemberRef → List Value → MachineM Dispatch) : RunM Flow := do
  let m ← member i
  let d ← onMachine (Machine.decodeDescriptor m.descriptor)
  let args ← popMany (d.params.length + receiver)
  match ← onMachine (dispatch m args) with
  | .answered v => answered v
  | .entered callee => return .call callee

def invokeKind (kind : InvokeKind) (i : Index) : RunM Flow :=
  match kind with
  | .virtual => invoke i 1 fun m args => Dispatch.virtual m.name m.descriptor args
  | .special => invoke i 1 fun m args => Dispatch.special m.owner m.name m.descriptor args
  | .static => invoke i 0 fun m args => Dispatch.static m.owner m.name m.descriptor args

def new (i : Index) : RunM Unit := do
  let name ← className i
  let o ← match Native.blank? name with
    | some o => pure o
    | none => onMachine do return Object.ofClass (← Machine.resolve name)
  push (← onMachine (Machine.alloc o))

def checkCast (i : Index) : RunM Unit := do
  let name ← className i
  let v ← popReference
  let h ← heap
  if v = .null ∨ h.isInstance v name then push v
  else throw (.classCast (h.className v) name)

def instanceOf (i : Index) : RunM Unit := do
  let name ← className i
  let v ← popReference
  pushInt (if (← heap).isInstance v name then 1 else 0)

def raise : RunM Flow := do
  match ← popReference with
  | .null => throw .nullPointer
  | v => return .raise v

def going (act : RunM Unit) : RunM Flow := do
  act
  return .next

/-- Performs the instruction between `start` and `next`. Branches look at their operands before
the rest of the instruction is read. -/
def perform (start next : Nat) (o : Operation (Option Int16)) : RunM Flow := do
  match o with
  | .branch .. | .goto _ => setPc (start + 1)
  | _ => setPc next
  match o with
  | .nop => return .next
  | .pushNull => going (push .null)
  | .pushInt v => going (pushInt v.toInt32)
  | .pushLong one => going (pushLong (if one then 1 else 0))
  | .pushFloat v => going (pushFloat (Floating.single.ofInt v.val))
  | .pushDouble one => going (pushDouble (Floating.double.ofInt (if one then 1 else 0)))
  | .loadConstant i | .loadWideConstant i => going (loadConstant i)
  | .load _ slot => going (load slot)
  | .store _ slot => going (store slot)
  | .increment slot delta => going (onActivation (·.increment slot.toNat delta.toInt32))
  | .arrayLoad _ => going arrayLoad
  | .arrayStore kind => going (arrayStore kind)
  | .arrayLength => going arrayLength
  | .newArray t => going (newArray t.toFieldType)
  | .newReferenceArray i => going do newArray (← componentNamed (← className i))
  | .pop => going do let _ ← pop
  | .pop2 => going pop2
  | .dup => going dup
  | .dupX1 => going dupX1
  | .dup2 => going dup2
  | .swap => going swap
  | .arithmetic kind o => going (arithmetic kind o)
  | .negate kind => going (negate kind)
  | .shift long s => going (shift long s)
  | .bitwise long o => going (bitwise long o)
  | .convert c => going (convert c)
  | .compare o => going (compare o)
  | .branch c d => going do jump start next d (← test c)
  | .goto d => going (jump start next d true)
  | .leave (some _) => return .leave (some (← pop))
  | .leave none => return .leave none
  | .field access i => going (field access i)
  | .invoke kind i => invokeKind kind i
  | .invokeInterface i _ => invokeKind .virtual i
  | .new i => going (new i)
  | .raise => raise
  | .checkCast i => going (checkCast i)
  | .instanceOf i => going (instanceOf i)

def unreadable (start : Nat) : Operation.DecodeFault → Violation
  | .truncated pc => .truncated pc
  | .unknown op => .unknownOpcode op start
  | .unknownWide op => .unknownWide op start
  | .unknownArray b => .unknownArray b

def step : RunM Flow := do
  let a := (← get).activation
  match Operation.decode a.bytes a.pc with
  | .error f => violation (unreadable a.pc f)
  | .ok (o, next) => perform a.pc next o

end Run
end ClassForge
