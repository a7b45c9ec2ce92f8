import ClassForge.Code.Layout

namespace ClassForge

structure DepthSearch where
  depths : Array (Option Nat)
  work : List Nat := []
  peak : Nat := 0

namespace DepthSearch

def unreachable (s : DepthSearch) : Nat := s.depths.toList.countP Option.isNone

def meet (l : Layout) (s : DepthSearch) (i depth : Nat) : Except Error DepthSearch :=
  if l.size ≤ i then .error (.encoding .runsOff)
  else match s.depths.getD i none with
    | none => .ok { s with depths := s.depths.setIfInBounds i (some depth), work := i :: s.work }
    | some known =>
      if known = depth then .ok s else .error (.stackMismatch (l.offset i) known depth)

def follow (l : Layout) (s : DepthSearch) (i depth : Nat) (instruction : Instruction) :
    Except Error DepthSearch := do
  let offset := l.offset i
  if depth < instruction.pops then
    throw (.stackUnderflow offset depth instruction.pops)
  else
    let next := depth - instruction.pops + instruction.pushes
    if 65535 < next then throw (.encoding (.deepStack offset))
    else
      let s := { s with peak := max s.peak next }
      match instruction.operation with
      | .leave _ =>
        if depth = instruction.pops then return s
        else throw (.stackMismatch offset instruction.pops depth)
      | .raise => return s
      | .goto target => s.meet l (← l.instructionAt target) next
      | .branch _ target =>
        let s ← s.meet l (← l.instructionAt target) next
        s.meet l (i + 1) next
      | _ => s.meet l (i + 1) next

/-- Follows up to `fuel` instructions, the one met last first. Each is met for the first time only
once, so as many as there are suffice. -/
def run (l : Layout) : Nat → DepthSearch → Except Error DepthSearch
  | 0, s => .ok s
  | fuel + 1, s =>
    match s.work with
    | [] => .ok s
    | i :: rest =>
      let s := { s with work := rest }
      match l.instructions[i]?, s.depths.getD i none with
      | some instruction, some depth => do
        let s ← s.follow l i depth instruction
        run l fuel s
      | _, _ => run l fuel s

end DepthSearch

namespace Layout

/-- Handlers start with the exception alone. -/
def stackDepths (l : Layout) (handlers : List Nat) : Except Error DepthSearch := do
  let empty : DepthSearch := { depths := Array.replicate l.size none }
  let entered ← empty.meet l 0 0
  let handled ← handlers.foldlM (fun (s : DepthSearch) i => do
    let s ← s.meet l i 1
    return { s with peak := 1 }) entered
  handled.run l l.size

def maxStack (l : Layout) (handlers : List Nat) : Except Error Nat := do
  let s ← l.stackDepths handlers
  return s.peak

end Layout
end ClassForge
