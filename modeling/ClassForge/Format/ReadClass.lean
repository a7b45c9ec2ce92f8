import ClassForge.Descriptor.Reader
import ClassForge.Format.ReadAttribute

namespace ClassForge

def Member.report (p : Pool) (j : Journal) (m : Member) : Journal :=
  Attribute.reportAll p j m.attributes

def ClassFile.report (j : Journal) (c : ClassFile) : Journal :=
  let j := j.push (.readPool c.pool.size)
  let j := c.fields.foldl (Member.report c.pool) j
  let j := c.methods.foldl (Member.report c.pool) j
  Attribute.reportAll c.pool j c.attributes

namespace Reader

def magicNumber : UInt32 := 0xCAFEBABE

def oldestMajor : UInt16 := 45

def newestMajor : UInt16 := 65

def magic : Reader Unit :=
  orElse (expect (Bytes.ofU32 magicNumber)) do
    let start ← offset
    let m ← u32
    failAt start (.badMagic m)

def text (p : Pool) : Reader (Index × String) := do
  let start ← offset
  let i ← indexOf p .utf8
  match p.utf8At? i with
  | some s => return (i, s)
  | none => failAt start (.badText i)

def member (p : Pool) (accepts : String → Bool) : Reader Member := do
  let access ← u16
  let (name, _) ← text p
  let start ← offset
  let (descriptor, spelled) ← text p
  if accepts spelled then
    let attributes ← attributes p
    return ⟨access, name, descriptor, attributes⟩
  else failAt start (.badDescriptor spelled)

def members (p : Pool) (accepts : String → Bool) : Reader (List Member) := do
  let n ← u16
  many (member p accepts) (Member.report p) n.toNat

def acceptsField (descriptor : String) : Bool := (FieldType.decode? descriptor).isSome

def acceptsMethod (descriptor : String) : Bool := (MethodDescriptor.decode? descriptor).isSome

def classBody (minor major : UInt16) (p : Pool) : Reader ClassFile := do
  let access ← u16
  let thisClass ← indexOf p .classRef
  let superClass ← indexOrZero p .classRef
  let interfaces ← table (indexOf p .classRef)
  let fields ← members p acceptsField
  after (fields.foldl (Member.report p)) do
    let methods ← members p acceptsMethod
    after (methods.foldl (Member.report p)) do
      let attributes ← attributes p
      return ⟨minor, major, p, access, thisClass, superClass, interfaces, fields, methods,
        attributes⟩

def classFile : Reader ClassFile := do
  magic
  let start ← offset
  let minor ← u16
  let major ← u16
  if major < oldestMajor ∨ newestMajor < major then
    failAt start (.unsupportedVersion major minor)
  else
    let p ← pool
    after (·.push (.readPool p.size)) (classBody minor major p)

end Reader

namespace ClassFile

def read (bytes : List UInt8) : Except Fault ClassFile :=
  match Reader.classFile ⟨0, bytes⟩ with
  | .error f => .error f
  | .ok (c, left) =>
    match left.bytes with
    | [] => .ok c
    | _ :: _ => .error ⟨left.offset, .trailingBytes left.bytes.length, c.report #[]⟩

def parse (bytes : List UInt8) : Except Error ClassFile :=
  match read bytes with
  | .ok c => .ok c
  | .error f => .error (.malformedClass f.offset f.reason)

def parseJournal (bytes : List UInt8) : Journal :=
  #[.readingClass bytes.length] ++
    match read bytes with
    | .ok c => (c.report #[]).push (.readClass c.name?)
    | .error f => f.journal.push (.rejected f.offset f.reason)

end ClassFile
end ClassForge
