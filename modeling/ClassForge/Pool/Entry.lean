import ClassForge.Bytes
import ClassForge.Descriptor.Basic
import ClassForge.Floating.Text
import ClassForge.Text.Quoted

namespace ClassForge

/-- Slots of a pool are counted from one; zero names none. -/
abbrev Index := UInt16

inductive MemberKind where
  | field
  | method
  | interfaceMethod
deriving DecidableEq, Repr

inductive Tag where
  | classRef
  | member (kind : MemberKind)
  | string
  | integer
  | float
  | long
  | double
  | nameAndType
  | utf8
  | methodHandle
  | methodType
  | dynamic
  | invokeDynamic
  | moduleRef
  | packageRef
  | unknown (byte : UInt8)
deriving DecidableEq, Repr

namespace Tag

def ofByte : UInt8 → Tag
  | 1 => utf8
  | 3 => integer
  | 4 => float
  | 5 => long
  | 6 => double
  | 7 => classRef
  | 8 => string
  | 9 => member .field
  | 10 => member .method
  | 11 => member .interfaceMethod
  | 12 => nameAndType
  | 15 => methodHandle
  | 16 => methodType
  | 17 => dynamic
  | 18 => invokeDynamic
  | 19 => moduleRef
  | 20 => packageRef
  | b => unknown b

def byte : Tag → UInt8
  | utf8 => 1
  | integer => 3
  | float => 4
  | long => 5
  | double => 6
  | classRef => 7
  | string => 8
  | member .field => 9
  | member .method => 10
  | member .interfaceMethod => 11
  | nameAndType => 12
  | methodHandle => 15
  | methodType => 16
  | dynamic => 17
  | invokeDynamic => 18
  | moduleRef => 19
  | packageRef => 20
  | unknown b => b

def name : Tag → String
  | utf8 => "Utf8"
  | integer => "Integer"
  | float => "Float"
  | long => "Long"
  | double => "Double"
  | classRef => "Class"
  | string => "String"
  | member .field => "FieldRef"
  | member .method => "MethodRef"
  | member .interfaceMethod => "InterfaceMethodRef"
  | nameAndType => "NameAndType"
  | methodHandle => "MethodHandle"
  | methodType => "MethodType"
  | dynamic => "Dynamic"
  | invokeDynamic => "InvokeDynamic"
  | moduleRef => "Module"
  | packageRef => "Package"
  | unknown b => s!"Unknown({b.toNat})"

end Tag

inductive ReferenceKind where
  | getField
  | getStatic
  | putField
  | putStatic
  | invokeVirtual
  | invokeStatic
  | invokeSpecial
  | newInvokeSpecial
  | invokeInterface
deriving DecidableEq, Repr

namespace ReferenceKind

def ofByte? : UInt8 → Option ReferenceKind
  | 1 => some getField
  | 2 => some getStatic
  | 3 => some putField
  | 4 => some putStatic
  | 5 => some invokeVirtual
  | 6 => some invokeStatic
  | 7 => some invokeSpecial
  | 8 => some newInvokeSpecial
  | 9 => some invokeInterface
  | _ => none

def byte : ReferenceKind → UInt8
  | getField => 1
  | getStatic => 2
  | putField => 3
  | putStatic => 4
  | invokeVirtual => 5
  | invokeStatic => 6
  | invokeSpecial => 7
  | newInvokeSpecial => 8
  | invokeInterface => 9

def name : ReferenceKind → String
  | getField => "GetField"
  | getStatic => "GetStatic"
  | putField => "PutField"
  | putStatic => "PutStatic"
  | invokeVirtual => "InvokeVirtual"
  | invokeStatic => "InvokeStatic"
  | invokeSpecial => "InvokeSpecial"
  | newInvokeSpecial => "NewInvokeSpecial"
  | invokeInterface => "InvokeInterface"

def targets : ReferenceKind → List Tag
  | getField | getStatic | putField | putStatic => [.member .field]
  | invokeVirtual | newInvokeSpecial => [.member .method]
  | invokeStatic | invokeSpecial => [.member .method, .member .interfaceMethod]
  | invokeInterface => [.member .interfaceMethod]

theorem ofByte?_byte (k : ReferenceKind) : ofByte? k.byte = some k := by cases k <;> rfl

end ReferenceKind

/-- Floating-point constants are kept as bit patterns, so entries are equal exactly when their
bytes are. -/
inductive Entry where
  | classRef (name : Index)
  | member (kind : MemberKind) (owner nameAndType : Index)
  | string (text : Index)
  | integer (bits : UInt32)
  | float (bits : UInt32)
  | long (high low : UInt32)
  | double (high low : UInt32)
  | nameAndType (name descriptor : Index)
  | utf8 (bytes : List UInt8)
  | methodHandle (kind : ReferenceKind) (target : Index)
  | methodType (descriptor : Index)
  | dynamic (bootstrap : UInt16) (nameAndType : Index)
  | invokeDynamic (bootstrap : UInt16) (nameAndType : Index)
  | moduleRef (name : Index)
  | packageRef (name : Index)
deriving DecidableEq, Repr

namespace Entry

def tag : Entry → Tag
  | classRef .. => .classRef
  | member kind .. => .member kind
  | string .. => .string
  | integer .. => .integer
  | float .. => .float
  | long .. => .long
  | double .. => .double
  | nameAndType .. => .nameAndType
  | utf8 .. => .utf8
  | methodHandle .. => .methodHandle
  | methodType .. => .methodType
  | dynamic .. => .dynamic
  | invokeDynamic .. => .invokeDynamic
  | moduleRef .. => .moduleRef
  | packageRef .. => .packageRef

/-- Wide entries take two slots, the second of which stays unused. -/
def isWide : Entry → Bool
  | long .. | double .. => true
  | _ => false

def width (e : Entry) : Nat := if e.isWide then 2 else 1

/-- The indices that an entry refers to, in order, with the tags accepted at each. -/
def references : Entry → List (Index × List Tag)
  | classRef n | moduleRef n | packageRef n => [(n, [.utf8])]
  | member _ owner nt => [(owner, [.classRef]), (nt, [.nameAndType])]
  | string t => [(t, [.utf8])]
  | nameAndType n d => [(n, [.utf8]), (d, [.utf8])]
  | methodHandle kind target => [(target, kind.targets)]
  | methodType d => [(d, [.utf8])]
  | dynamic _ nt | invokeDynamic _ nt => [(nt, [.nameAndType])]
  | integer .. | float .. | long .. | double .. | utf8 .. => []

def payload : Entry → List UInt8
  | classRef n | moduleRef n | packageRef n => Bytes.ofU16 n
  | member _ owner nt => Bytes.ofU16 owner ++ Bytes.ofU16 nt
  | string t => Bytes.ofU16 t
  | integer bits | float bits => Bytes.ofU32 bits
  | long high low | double high low => Bytes.ofU32 high ++ Bytes.ofU32 low
  | nameAndType n d => Bytes.ofU16 n ++ Bytes.ofU16 d
  | utf8 bytes => Bytes.ofU16 (UInt16.ofNat bytes.length) ++ bytes
  | methodHandle kind target => kind.byte :: Bytes.ofU16 target
  | methodType d => Bytes.ofU16 d
  | dynamic b nt | invokeDynamic b nt => Bytes.ofU16 b ++ Bytes.ofU16 nt

def bytes (e : Entry) : List UInt8 := e.tag.byte :: e.payload

def shown (e : Entry) : String :=
  let name := e.tag.name
  let number (n : UInt16) := toString n.toNat
  let number32 (n : UInt32) := toString n.toNat
  Text.record name <| match e with
    | classRef n | moduleRef n | packageRef n => [("name_index", number n)]
    | member _ owner nt => [("class_index", number owner), ("name_and_type_index", number nt)]
    | string t => [("string_index", number t)]
    | integer bits | float bits => [("bytes", number32 bits)]
    | long high low | double high low =>
      [("high_bytes", number32 high), ("low_bytes", number32 low)]
    | nameAndType n d => [("name_index", number n), ("descriptor_index", number d)]
    | utf8 bytes => [("bytes", Text.bracketed (bytes.map fun b => toString b.toNat))]
    | methodHandle kind target =>
      [("reference_kind", kind.name), ("reference_index", number target)]
    | methodType d => [("descriptor_index", number d)]
    | dynamic b nt | invokeDynamic b nt =>
      [("bootstrap_method_attr_index", number b), ("name_and_type_index", number nt)]

theorem one_le_width (e : Entry) : 1 ≤ e.width := by
  unfold width
  split <;> omega

end Entry

inductive Literal where
  | int (value : Int32)
  | long (value : Int64)
  | float (bits : UInt32)
  | double (bits : UInt64)
  | string (value : String)
deriving DecidableEq, Repr

def Literal.shown : Literal → String
  | int v => s!"Int({v.toInt})"
  | long v => s!"Long({v.toInt})"
  | float b => s!"Float({Floating.single.render b.toNat})"
  | double b => s!"Double({Floating.double.render b.toNat})"
  | string s => s!"String({Text.quoted s})"

structure MemberRef where
  owner : String
  name : String
  descriptor : String
deriving DecidableEq, Repr

structure LinkFault where
  referrer : Index
  index : Index
  expected : Tag
  actual : Option Tag
deriving DecidableEq, Repr

end ClassForge
