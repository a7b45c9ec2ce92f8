import ClassForge.Machine.Activation
import ClassForge.Machine.Basic

namespace ClassForge

structure Run where
  activation : Activation
  machine : Machine

abbrev RunM := EStateM MachineError Run

namespace Run

def onMachine {α : Type} (act : MachineM α) : RunM α := fun r =>
  match act r.machine with
  | .ok a m => .ok a { r with machine := m }
  | .error e m => .error e { r with machine := m }

def onActivation (f : Activation → Except MachineError Activation) : RunM Unit := fun r =>
  match f r.activation with
  | .ok a => .ok () { r with activation := a }
  | .error e => .error e r

def lift {α : Type} : Except MachineError α → RunM α
  | .ok a => return a
  | .error e => throw e

def violation {α : Type} (v : Violation) : RunM α := throw (.verify v)

def heap : RunM Heap := return (← get).machine.heap

def setPc (pc : Nat) : RunM Unit :=
  modify fun r => { r with activation := { r.activation with pc := pc } }

def push (v : Value) : RunM Unit := onActivation (·.push v)

def pop : RunM Value := fun r =>
  match r.activation.pop with
  | .ok (v, a) => .ok v { r with activation := a }
  | .error e => .error e r

/-- Pops as many operands as given. The one pushed first comes first. -/
def popMany (n : Nat) : RunM (List Value) := go n []
where
  go : Nat → List Value → RunM (List Value)
    | 0, args => return args
    | n + 1, args => do
      let v ← pop
      go n (v :: args)

def popInt : RunM Int32 := do
  match ← pop with
  | .int v => return v
  | v => violation (.unexpected .int v)

def popLong : RunM Int64 := do
  match ← pop with
  | .long v => return v
  | v => violation (.unexpected .long v)

def popFloat : RunM Nat := do
  match ← pop with
  | .float b => return b.toNat
  | v => violation (.unexpected .float v)

def popDouble : RunM Nat := do
  match ← pop with
  | .double b => return b.toNat
  | v => violation (.unexpected .double v)

def popReference : RunM Value := do
  match ← pop with
  | .reference a => return .reference a
  | .null => return .null
  | v => violation (.unexpected .reference v)

def pushInt (v : Int32) : RunM Unit := push (.int v)

def pushLong (v : Int64) : RunM Unit := push (.long v)

def pushFloat (bits : Nat) : RunM Unit := push (.float (UInt32.ofNat bits))

def pushDouble (bits : Nat) : RunM Unit := push (.double (UInt64.ofNat bits))

def load (slot : UInt16) : RunM Unit := do
  match (← get).activation.load slot.toNat with
  | .ok v => push v
  | .error e => throw e

def store (slot : UInt16) : RunM Unit := do
  let v ← pop
  onActivation (·.store slot.toNat v)

def pool : RunM Pool := return (← get).activation.owner.pool

def member (i : Index) : RunM MemberRef := do
  match (← pool).memberAt? i with
  | some m => return m
  | none => violation (.notMember i)

def className (i : Index) : RunM String := do
  match (← pool).classNameAt? i with
  | some name => return name
  | none => violation (.notClass i)

def loadConstant (i : Index) : RunM Unit := do
  match (← pool).literalAt? i with
  | some l => push (← onMachine (Machine.ofLiteral l))
  | none => violation (.notLoadable i)

end Run
end ClassForge
