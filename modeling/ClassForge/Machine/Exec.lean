import ClassForge.Machine.Step

namespace ClassForge

/-- Runs a method from where it is. Exceptions go to the first method on the way out that catches
them; other errors end everything. -/
def Activation.exec : Nat → Activation → MachineM (Option Value)
  | 0, _ => throw .outOfFuel
  | fuel + 1, a => fun m =>
    let start := a.pc
    match Run.step ⟨a, m⟩ with
    | .error e r => .error e r.machine
    | .ok .next ⟨a, m⟩ => exec fuel a m
    | .ok (.leave v) r => .ok v r.machine
    | .ok (.raise v) ⟨a, m⟩ =>
      match a.catching start v m with
      | .ok a m => exec fuel a m
      | .error e m => .error e m
    | .ok (.call callee) ⟨a, m⟩ =>
      match exec fuel callee m with
      | .ok v m =>
        match Run.answered v ⟨a, m⟩ with
        | .ok _ ⟨a, m⟩ => exec fuel a m
        | .error e r => .error e r.machine
      | .error (.thrown v) m =>
        match a.catching start v m with
        | .ok a m => exec fuel a m
        | .error e m => .error e m
      | .error e m => .error e m

namespace Machine

def finish (fuel : Nat) : Dispatch → MachineM (Option Value)
  | .answered v => return v
  | .entered callee => callee.exec fuel

def newInstance (fuel : Nat) (name descriptor : String) (args : List Value) : MachineM Value := do
  let c ← resolve name
  match c.declaredMethod? constructorName descriptor with
  | none => throw (.noMethod c.name constructorName descriptor)
  | some m =>
    let v ← alloc (.ofClass c)
    let d ← Dispatch.enter c m (v :: args)
    let _ ← finish fuel d
    return v

def invokeVirtual (fuel : Nat) (receiver : Value) (name descriptor : String) (args : List Value) :
    MachineM (Option Value) := do
  finish fuel (← Dispatch.virtual name descriptor (receiver :: args))

def invokeStatic (fuel : Nat) (owner name descriptor : String) (args : List Value) :
    MachineM (Option Value) := do
  finish fuel (← Dispatch.static owner name descriptor args)

end Machine
end ClassForge
