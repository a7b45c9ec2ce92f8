import ClassForge.Text.Quoted

namespace ClassForge

inductive FieldType where
  | byte
  | char
  | double
  | float
  | int
  | long
  | short
  | boolean
  | object (name : String)
  | array (component : FieldType)
deriving DecidableEq, Repr, Hashable, Inhabited

namespace FieldType

def ofClass (name : String) : FieldType :=
  object (String.ofList (name.toList.map fun c => if c = '.' then '/' else c))

def letters : FieldType → List Char
  | byte => ['B']
  | char => ['C']
  | double => ['D']
  | float => ['F']
  | int => ['I']
  | long => ['J']
  | short => ['S']
  | boolean => ['Z']
  | object name => 'L' :: name.toList ++ [';']
  | array component => '[' :: component.letters

def descriptor (t : FieldType) : String := String.ofList t.letters

def shown : FieldType → String
  | byte => "Byte"
  | char => "Char"
  | double => "Double"
  | float => "Float"
  | int => "Int"
  | long => "Long"
  | short => "Short"
  | boolean => "Boolean"
  | object name => "Object(" ++ Text.quoted name ++ ")"
  | array component => "Array(" ++ component.shown ++ ")"

def slots : FieldType → Nat
  | long | double => 2
  | _ => 1

def isReference : FieldType → Bool
  | object _ | array _ => true
  | _ => false

def isPrimitive (t : FieldType) : Bool := !t.isReference

def dimensions : FieldType → Nat
  | array component => component.dimensions + 1
  | _ => 0

def className? : FieldType → Option String
  | object name => some name
  | t@(array _) => some t.descriptor
  | _ => none

def totalSlots (ts : List FieldType) : Nat := ts.foldr (fun t n => t.slots + n) 0

theorem slots_pos (t : FieldType) : 0 < t.slots := by cases t <;> simp [slots]

end FieldType

structure MethodDescriptor where
  params : List FieldType
  returns : Option FieldType
deriving DecidableEq, Repr, Inhabited

namespace MethodDescriptor

def returnLetters : Option FieldType → List Char
  | none => ['V']
  | some t => t.letters

def letters (d : MethodDescriptor) : List Char :=
  '(' :: d.params.flatMap FieldType.letters ++ ')' :: returnLetters d.returns

def descriptor (d : MethodDescriptor) : String := String.ofList d.letters

def paramSlots (d : MethodDescriptor) : Nat := FieldType.totalSlots d.params

def returnSlots (d : MethodDescriptor) : Nat := (d.returns.map FieldType.slots).getD 0

end MethodDescriptor
end ClassForge
