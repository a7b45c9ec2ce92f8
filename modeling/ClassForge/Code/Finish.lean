import ClassForge.Code.StackDepth
import ClassForge.Journal

namespace ClassForge

namespace Layout

def handler (l : Layout) (p : Protection) : Except Error (Handler × Nat) := do
  let start ← l.offsetOf p.start
  let stop ← l.offsetOf p.stop
  let first ← l.instructionAt p.handler
  if stop ≤ start then throw (.invalidBranchTarget p.stop.id .emptyRange)
  else
    return (⟨UInt16.ofNat start, UInt16.ofNat stop, UInt16.ofNat (l.offset first), p.catchType⟩,
      first)

/-- A later line for the same offset takes the place of an earlier one. Lines behind the last
instruction are dropped. -/
def lineTable (l : Layout) : List LineNumber :=
  (l.lines.foldl addLine []).reverse
where
  addLine (table : List LineNumber) : Nat × UInt16 → List LineNumber
    | (i, line) =>
      if l.size ≤ i then table
      else
        let start := UInt16.ofNat (l.offset i)
        match table with
        | last :: rest =>
          if last.start = start then ⟨start, line⟩ :: rest else ⟨start, line⟩ :: table
        | [] => [⟨start, line⟩]

def localVariable (l : Layout) (s : Scope) : Except Error LocalVariable := do
  let start ← l.offsetOf s.start
  let stop ← l.offsetOf s.stop
  if stop < start then throw (.invalidBranchTarget s.stop.id .backwardScope)
  else return ⟨UInt16.ofNat start, UInt16.ofNat (stop - start), s.name, s.descriptor, s.slot⟩

end Layout

namespace Body

def layout (b : Body) : Except Error Layout := Layout.ofItems b.items.toList

/-- The depth to reserve: the one declared, which must be enough, or else the one needed. -/
def reserve (declared : Option UInt16) (computed : Nat) : Except Error UInt16 :=
  match declared with
  | none => .ok (UInt16.ofNat computed)
  | some d => if d.toNat < computed then .error (.maxStackExceeded d.toNat computed) else .ok d

def finish (b : Body) : Except Error Code := do
  let l ← b.layout
  let handlers ← b.protections.toList.mapM l.handler
  let computed ← l.maxStack (handlers.map (·.2))
  let maxStack ← reserve b.declaredStack computed
  let bytes ← l.encode
  let scopes ← b.scopes.toList.mapM l.localVariable
  let lines := l.lineTable
  return {
    maxStack, bytes
    maxLocals := b.maxLocals
    handlers := handlers.map (·.1)
    attributes := (if lines.isEmpty then [] else [.lineNumbers lines]) ++
      if scopes.isEmpty then [] else [.localVariables scopes] }

def finishJournal (b : Body) : Journal :=
  let searched : Except Error DepthSearch := do
    let l ← b.layout
    let handlers ← b.protections.toList.mapM l.handler
    l.stackDepths (handlers.map (·.2))
  let search : Journal := match searched with
    | .ok s => if s.unreachable = 0 then #[] else #[.unreachable s.unreachable]
    | .error _ => #[]
  match b.finish with
  | .ok c => search.push (.assembled c.bytes.length c.maxStack.toNat c.maxLocals.toNat)
  | .error _ => search

end Body
end ClassForge
