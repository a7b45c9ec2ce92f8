import ClassForge.ClassFile.Attribute
import ClassForge.Pool.Basic

namespace ClassForge

def isSet (flags flag : UInt16) : Bool := flags &&& flag == flag

namespace Access

def publicFlag : UInt16 := 0x0001
def privateFlag : UInt16 := 0x0002
def staticFlag : UInt16 := 0x0008
def finalFlag : UInt16 := 0x0010
def superFlag : UInt16 := 0x0020
def bridgeFlag : UInt16 := 0x0040
def nativeFlag : UInt16 := 0x0100
def interfaceFlag : UInt16 := 0x0200
def abstractFlag : UInt16 := 0x0400

end Access

def objectClass : String := "java/lang/Object"

def constructorName : String := "<init>"

structure Member where
  access : UInt16
  name : Index
  descriptor : Index
  attributes : List Attribute
deriving DecidableEq, Repr

namespace Member

def name? (m : Member) (p : Pool) : Option String := p.utf8At? m.name

def descriptor? (m : Member) (p : Pool) : Option String := p.utf8At? m.descriptor

def constantValue? (m : Member) : Option Index :=
  m.attributes.findSome? fun
    | .constantValue i => some i
    | _ => none

def code? (m : Member) : Option Code :=
  m.attributes.findSome? fun
    | .code body => some body
    | _ => none

end Member

structure ClassFile where
  minor : UInt16
  major : UInt16
  pool : Pool
  access : UInt16
  thisClass : Index
  /-- Zero for the class that all others extend. -/
  superClass : Index
  interfaces : List Index
  fields : List Member
  methods : List Member
  attributes : List Attribute

namespace ClassFile

/-- Class files are the same when they are spelled the same, whatever is found in their pools. -/
def same (c d : ClassFile) : Bool :=
  c.minor == d.minor && c.major == d.major && c.pool.same d.pool && c.access == d.access &&
    c.thisClass == d.thisClass && c.superClass == d.superClass && c.interfaces == d.interfaces &&
    c.fields == d.fields && c.methods == d.methods && c.attributes == d.attributes

def name? (c : ClassFile) : Option String := c.pool.classNameAt? c.thisClass

def superName? (c : ClassFile) : Option String :=
  if c.superClass = 0 then none else c.pool.classNameAt? c.superClass

def interfaceNames (c : ClassFile) : List String := c.interfaces.filterMap c.pool.classNameAt?

def findField? (c : ClassFile) (name : String) : Option Nat :=
  c.fields.findIdx? fun f => f.name? c.pool = some name

def findMethod? (c : ClassFile) (name descriptor : String) : Option Nat :=
  c.methods.findIdx? fun m => m.name? c.pool = some name && m.descriptor? c.pool = some descriptor

end ClassFile
end ClassForge
