import ClassForge.Proxy.Subtype

namespace ClassForge

structure HandlerContract where
  interface : String := "strangelybrown/bytecode/InvocationHandler"
  method : String := "invoke"
  field : String := "handler"
deriving DecidableEq, Repr

/-- A handler is given the object called, what was called, and the arguments. -/
def HandlerContract.descriptor : String :=
  "(Ljava/lang/Object;Ljava/lang/String;[Ljava/lang/Object;)Ljava/lang/Object;"

def HandlerContract.type (c : HandlerContract) : FieldType := .ofClass c.interface

inductive ConstructorKind where
  /-- Passes the first parameters to the superclass and stores the others. -/
  | forwarding (superParams : List FieldType) (captures : List String)
  /-- Calls the constructor with parameters `target`. -/
  | delegating (params target : List FieldType) (arguments : List Argument)
deriving DecidableEq, Repr

structure ConstructorSpec where
  kind : ConstructorKind
  access : UInt16 := Access.publicFlag
deriving DecidableEq, Repr

inductive MethodBody where
  /-- Calls the handler with boxed arguments and returns what it answers. -/
  | handled
  | returning (field : String)
  | assembled (steps : Listing)

structure MethodSpec where
  name : String
  descriptor : String
  access : UInt16 := Access.publicFlag
  body : MethodBody

structure ProxySpec where
  name : String
  superName : String := objectClass
  interfaces : List String := []
  captures : List (String × FieldType) := []
  constructors : List ConstructorSpec := []
  methods : List MethodSpec := []
  handler : Option HandlerContract := none
  major : UInt16 := 52
  minor : UInt16 := 0
  sourceFile : Option String := none

def MethodBody.kind : MethodBody → BodyKind
  | handled => .handler
  | returning field => .returnField field
  | assembled _ => .assembled

namespace ProxySpec

def captureType? (s : ProxySpec) (name : String) : Option FieldType := s.captures.lookup name

def unknownCapture (s : ProxySpec) (name : String) : Unsupported := .unknownCapture s.name name

/-- Parameters as a constructor declares them: the handler comes first. -/
def declaredParams (s : ProxySpec) (params : List FieldType) : List FieldType :=
  match s.handler with
  | some c => c.type :: params
  | none => params

def handlerParams (s : ProxySpec) : Nat := if s.handler.isSome then 1 else 0

def captureParam (s : ProxySpec) (name : String) : Except Error FieldType :=
  match s.captureType? name with
  | some t => .ok t
  | none => .error (.unsupported (s.unknownCapture name))

def constructorParams (s : ProxySpec) (c : ConstructorSpec) : Except Error (List FieldType) :=
  match c.kind with
  | .forwarding superParams captures => do
    let types ← captures.mapM s.captureParam
    return s.declaredParams (superParams ++ types)
  | .delegating params _ _ => .ok (s.declaredParams params)

end ProxySpec

def constructorDescriptor (params : List FieldType) : String :=
  MethodDescriptor.descriptor ⟨params, none⟩

end ClassForge
