import ClassForge.Code.Finish

namespace ClassForge

inductive SlotRef where
  | number (slot : UInt16)
  | named (name : String)
deriving DecidableEq, Repr

inductive Step where
  | label (name : String)
  | place (label : String)
  | line (number : UInt16)
  | maxStack (depth : UInt16)
  | needsStackMap
  | descriptor
  | poolText (text : String)
  | poolIntegers (first : Int32) (count : Nat)
  | pool (request : Pool.Request)
  | refuse (reason : Unsupported)
  | pushNull
  | push (value : Literal)
  | load (kind : ValueKind) (slot : SlotRef)
  | store (kind : ValueKind) (slot : SlotRef)
  | loadThis
  | paramSlot (position : Nat)
  | loadParam (position : Nat)
  | loadParams
  | newLocal (type : FieldType) (name : Option String)
  | increment (slot : SlotRef) (delta : Int16)
  | localVariable (name : String) (type : FieldType) (slot : SlotRef) (start stop : String)
  | field (access : FieldAccess) (owner name : String) (type : FieldType)
  | invoke (kind : InvokeKind) (owner name descriptor : String)
  | invokeInterface (owner name descriptor : String)
  | newObject (name : String)
  | newArray (component : FieldType)
  | arrayLength
  | arrayLoad (component : FieldType)
  | arrayStore (component : FieldType)
  | checkCast (name : String)
  | instanceOf (name : String)
  | dup
  | dupX1
  | dup2
  | pop
  | pop2
  | discard (kind : ValueKind)
  | swap
  | arithmetic (kind : ValueKind) (operator : Arithmetic)
  | negate (kind : ValueKind)
  | convert (source target : ValueKind)
  | branch (condition : Condition) (label : String)
  | goto (label : String)
  | leave
  | raise
  | tryCatch (start stop handler : String) (caught : Option String)
  | box (type : FieldType)
  | unbox (type : FieldType)
  | badType (spelled : String)
  | repeat (count : Nat) (steps : List Step)
  /-- Steps whose failure is passed over. -/
  | attempt (steps : List Step)

inductive Reply where
  | nothing
  | number (n : Nat)
  | flag (b : Bool)
  | text (s : String)
  | failed
deriving DecidableEq, Repr

/-- The reply of each step, with the size of the pool after it. -/
abbrev Transcript := List (Reply × Nat)

structure Assembly where
  body : Body
  labels : List (String × Label) := []
  locals : List (String × UInt16) := []
  transcript : Transcript := []

abbrev AssemblyM := EStateM Error Assembly

namespace Assembly

def onBody {α : Type} (m : BodyM α) : AssemblyM α := fun a =>
  let body := a.body
  let a := { a with body := default }
  match m body with
  | .ok x body => .ok x { a with body := body }
  | .error e body => .error e { a with body := body }

def labelNamed (name : String) : AssemblyM Label := do
  match (← get).labels.lookup name with
  | some l => return l
  | none => throw (.unsupported (.refused s!"no label {name}"))

def slotOf : SlotRef → AssemblyM UInt16
  | .number s => return s
  | .named name => do
    match (← get).locals.lookup name with
    | some s => return s
    | none => throw (.unsupported (.refused s!"no local {name}"))

def nothing (m : BodyM Unit) : AssemblyM Reply := do
  onBody m
  return .nothing

def perform : Step → AssemblyM Reply
  | .label name => do
    let l ← onBody Body.newLabel
    modify fun a => { a with labels := (name, l) :: a.labels }
    return .number l.id
  | .place label => do nothing (Body.place (← labelNamed label))
  | .line n => nothing (Body.lineNumber n)
  | .maxStack n => nothing (Body.declareMaxStack n)
  | .needsStackMap => do return .flag (← get).body.needsStackMap
  | .descriptor => do return .text (← get).body.descriptor.descriptor
  | .poolText t => do
    let i ← onBody (Body.onPool (Pool.utf8 t))
    return .number i.toNat
  | .poolIntegers first n => nothing do
    let _ ← Body.onPool (Pool.integersFrom first n)
    return ()
  | .pool request => do
    let i ← onBody (Body.onPool request.answer)
    return .number i.toNat
  | .refuse reason => throw (.unsupported reason)
  | .pushNull => nothing Body.pushNull
  | .push v => nothing (Body.pushLiteral v)
  | .load k s => do nothing (Body.load k (← slotOf s))
  | .store k s => do nothing (Body.store k (← slotOf s))
  | .loadThis => nothing Body.loadThis
  | .paramSlot i => do
    let s ← onBody (Body.paramSlot i)
    return .number s.toNat
  | .loadParam i => nothing (Body.loadParam i)
  | .loadParams => nothing Body.loadParams
  | .newLocal t name => do
    let s ← onBody (Body.newLocal t)
    if let some name := name then
      modify fun a => { a with locals := (name, s) :: a.locals }
    return .number s.toNat
  | .increment s d => do nothing (Body.increment (← slotOf s) d)
  | .localVariable n t s start stop => do
    nothing (Body.localVariable n t (← slotOf s) (← labelNamed start) (← labelNamed stop))
  | .field access o n t => nothing (Body.field access o n t)
  | .invoke k o n d => nothing (Body.invoke k o n d)
  | .invokeInterface o n d => nothing (Body.invokeInterface o n d)
  | .newObject n => nothing (Body.newObject n)
  | .newArray t => nothing (Body.newArray t)
  | .arrayLength => nothing Body.arrayLength
  | .arrayLoad t => nothing (Body.arrayLoad t)
  | .arrayStore t => nothing (Body.arrayStore t)
  | .checkCast n => nothing (Body.checkCast n)
  | .instanceOf n => nothing (Body.instanceOf n)
  | .dup => nothing Body.dup
  | .dupX1 => nothing Body.dupX1
  | .dup2 => nothing Body.dup2
  | .pop => nothing Body.pop
  | .pop2 => nothing Body.pop2
  | .discard k => nothing (Body.discard k)
  | .swap => nothing Body.swap
  | .arithmetic k o => nothing (Body.arithmetic k o)
  | .negate k => nothing (Body.negate k)
  | .convert k j => nothing (Body.convert k j)
  | .branch c label => do nothing (Body.branch c (← labelNamed label))
  | .goto label => do nothing (Body.goto (← labelNamed label))
  | .leave => nothing Body.leave
  | .raise => nothing Body.raise
  | .tryCatch start stop handler caught => do
    nothing (Body.tryCatch (← labelNamed start) (← labelNamed stop) (← labelNamed handler) caught)
  | .box t => nothing (Body.box t)
  | .unbox t => nothing (Body.unbox t)
  | .badType spelled => throw (.invalidDescriptor spelled)
  | .repeat .. | .attempt _ => return .nothing

def write (r : Reply) : AssemblyM Unit :=
  modify fun a => { a with transcript := (r, a.body.pool.size) :: a.transcript }

def iterate (m : AssemblyM Unit) : Nat → AssemblyM Unit
  | 0 => return ()
  | n + 1 => do
    m
    iterate m n

/-- Writes the last entry of what `m` writes, and drops the others. -/
def lastOnly (m : AssemblyM Unit) : AssemblyM Unit := fun a =>
  let before := a.transcript
  let keepLast (a : Assembly) : Assembly := { a with transcript := a.transcript.take 1 ++ before }
  match m { a with transcript := [] } with
  | .ok u a => .ok u (keepLast a)
  | .error e a => .error e (keepLast a)

def runSingle (step : Step) : AssemblyM Unit := fun a =>
  match perform step a with
  | .ok r a => write r a
  | .error e a =>
    match write .failed a with
    | .ok _ a | .error _ a => .error e a

mutual

def runStep : Step → AssemblyM Unit
  | .repeat n steps => lastOnly (iterate (runSteps steps) n)
  | .attempt steps => fun a =>
    match runSteps steps a with
    | .ok _ a | .error _ a => .ok () a
  | step => runSingle step

def runSteps : List Step → AssemblyM Unit
  | [] => return ()
  | step :: rest => do
    runStep step
    runSteps rest

end

end Assembly

abbrev Listing := List Step

namespace Listing

/-- Runs the steps on a body. The transcript is there also when one of them fails. -/
def run (steps : Listing) (b : Body) : Except Error Unit × Body × Transcript :=
  match Assembly.runSteps steps { body := b } with
  | .ok _ a => (.ok (), a.body, a.transcript.reverse)
  | .error e a => (.error e, a.body, a.transcript.reverse)

end Listing
end ClassForge
