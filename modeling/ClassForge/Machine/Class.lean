import ClassForge.ClassFile.Basic

namespace ClassForge

structure Method where
  name : String
  descriptor : String
  access : UInt16
  code : Option Code
deriving DecidableEq, Repr

def Method.isStatic (m : Method) : Bool := isSet m.access Access.staticFlag

structure Declaration where
  name : String
  access : UInt16
  interfaces : List String := []
  pool : Pool := {}
  fields : Std.TreeMap String (UInt16 × FieldType) := ∅
  /-- The method declared last comes first, and is the one found. -/
  methods : List Method := []

inductive LoadedClass where
  /-- The class that all others extend. Its methods are built in. -/
  | root
  | extending (own : Declaration) (superclass : LoadedClass)

namespace LoadedClass

def rootDeclaration : Declaration :=
  { name := objectClass, access := Access.publicFlag ||| Access.superFlag }

def own : LoadedClass → Declaration
  | root => rootDeclaration
  | extending d _ => d

def superclass? : LoadedClass → Option LoadedClass
  | root => none
  | extending _ s => some s

def name (c : LoadedClass) : String := c.own.name

def pool (c : LoadedClass) : Pool := c.own.pool

instance : Inhabited LoadedClass := ⟨root⟩

def declaredMethod? (c : LoadedClass) (name descriptor : String) : Option Method :=
  c.own.methods.find? fun m => m.name = name && m.descriptor = descriptor

def findMethod? (c : LoadedClass) (name descriptor : String) : Option (LoadedClass × Method) :=
  match c.declaredMethod? name descriptor with
  | some m => some (c, m)
  | none =>
    match c with
    | root => none
    | extending _ s => s.findMethod? name descriptor

/-- Whether the class is the one named, extends it or implements it. -/
def isSubclassOf (c : LoadedClass) (name : String) : Bool :=
  c.name = name || c.own.interfaces.contains name ||
    match c with
    | root => false
    | extending _ s => s.isSubclassOf name

def instanceFields : LoadedClass → List (String × FieldType)
  | root => []
  | extending d s =>
    s.instanceFields ++ d.fields.toList.filterMap fun (name, access, type) =>
      if isSet access Access.staticFlag then none else some (name, type)

end LoadedClass
end ClassForge
