import ClassForge.Descriptor.Cache
import ClassForge.Journal
import ClassForge.Machine.Error

namespace ClassForge

/-- A call of a handler, with the objects as they were when it was made. -/
structure HandlerCall where
  heap : Heap
  proxy : Value
  method : String
  arguments : List Value

structure Machine where
  classes : Std.TreeMap String LoadedClass := .ofList [(objectClass, LoadedClass.root)]
  cache : DescriptorCache := {}
  statics : Std.TreeMap String (Std.TreeMap String Value) := ∅
  heap : Heap := {}
  calls : Array HandlerCall := #[]
  journal : Journal := #[]

instance : Inhabited Machine := ⟨{}⟩

/-- Steps on a machine. What a failed step did stays. -/
abbrev MachineM := EStateM MachineError Machine

namespace Machine

def note (e : Event) : MachineM Unit := modify fun m => { m with journal := m.journal.push e }

def violation {α : Type} (v : Violation) : MachineM α := throw (.verify v)

def resolve (name : String) : MachineM LoadedClass := do
  match (← get).classes[name]? with
  | some c => return c
  | none => throw (.noClass name)

def alloc (o : Object) : MachineM Value := modifyGet fun m =>
  let (a, heap) := m.heap.alloc o
  (.reference a, { m with heap := heap })

def change (a : Address) (f : Object → Object) : MachineM Unit :=
  modify fun m => { m with heap := m.heap.modify a f }

def newString (s : String) : MachineM Value := alloc (.string s)

def ofLiteral : Literal → MachineM Value
  | .int v => return .int v
  | .long v => return .long v
  | .float b => return .float b
  | .double b => return .double b
  | .string s => newString s

mutual

def build : Response → MachineM Value
  | .value v => return v
  | .literal l => ofLiteral l
  | .builder s => alloc (.builder s)
  | .box wrapper content => do alloc (.box wrapper (← build content))
  | .array component elements => do
    alloc (.array component (← buildAll elements).toArray)
  | .plain c => alloc (.ofClass c)
  | .handler interface answer => alloc (.handler ⟨interface, answer⟩)

def buildAll : List Response → MachineM (List Value)
  | [] => return []
  | r :: rest => do
    let v ← build r
    return v :: (← buildAll rest)

end

def target (v : Value) : MachineM Address := do
  match v with
  | .reference a => return a
  | .null => throw .nullPointer
  | v => violation (.notReference ((← get).heap.className v))

def object (a : Address) : MachineM Object := return (← get).heap.get a

def getField (v : Value) (name : String) : MachineM Value := do
  let o ← object (← target v)
  match o with
  | .plain _ fields =>
    match fields[name]? with
    | some v => return v
    | none => throw (.noField o.className name)
  | o => throw (.noField o.className name)

def putField (v : Value) (name : String) (new : Value) : MachineM Unit := do
  let a ← target v
  let o ← object a
  match o with
  | .plain c fields =>
    if fields.contains name then change a fun _ => .plain c (fields.insert name new)
    else throw (.noField o.className name)
  | o => throw (.noField o.className name)

def staticOwner? (m : Machine) (field : String) : LoadedClass → Option String
  | .root => none
  | .extending d s =>
    if (m.statics.getD d.name ∅).contains field then some d.name else m.staticOwner? field s

/-- A field that no class holds is missing from the root, where the search ends. -/
def getStatic (c : LoadedClass) (name : String) : MachineM Value := do
  let m ← get
  match (m.staticOwner? name c).bind fun owner => (m.statics.getD owner ∅)[name]? with
  | some v => return v
  | none => throw (.noField objectClass name)

def putStatic (c : LoadedClass) (name : String) (new : Value) : MachineM Unit := do
  match (← get).staticOwner? name c with
  | some owner =>
    modify fun m =>
      { m with statics := m.statics.insert owner ((m.statics.getD owner ∅).insert name new) }
  | none => throw (.noField objectClass name)

end Machine
end ClassForge
