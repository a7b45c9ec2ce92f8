import ClassForge.Bytes
import ClassForge.ClassFile.Basic
import ClassForge.Format.ReadClass

namespace ClassForge

abbrev Written := Except Error (List UInt8)

namespace Writer

def index (p : Pool) (accepted : List Tag) (i : Index) : Written :=
  let actual := p.tagAt? i
  if actual.any (accepted.contains ·) then .ok (Bytes.ofU16 i)
  else .error (.encoding (.wrongEntry i accepted actual))

def indexOrZero (p : Pool) (accepted : List Tag) (i : Index) : Written :=
  if i = 0 then .ok (Bytes.ofU16 i) else index p accepted i

def table {α : Type} (name : Table) (write : α → Written) (xs : List α) : Written := do
  if 65535 < xs.length then throw (.encoding (.tooMany name xs.length))
  else
    let parts ← xs.mapM write
    return Bytes.ofU16 (UInt16.ofNat xs.length) ++ parts.flatten

def entry (e : Entry) : Written :=
  match e with
  | .utf8 bytes =>
    if 65535 < bytes.length then .error (.encoding (.longEntry bytes.length)) else .ok e.bytes
  | e => .ok e.bytes

def pool (p : Pool) : Written := do
  if Pool.maxSlots < p.size then throw (.poolOverflow p.size)
  else
    let parts ← p.entries.mapM fun (_, e) => entry e
    return Bytes.ofU16 (UInt16.ofNat p.count) ++ parts.flatten

def verificationType (p : Pool) (t : VerificationType) : Written := do
  match t with
  | .object c => return t.byte :: (← index p [.classRef] c)
  | .uninitialized o => return t.byte :: Bytes.ofU16 o
  | _ => return [t.byte]

def frame (p : Pool) (f : Frame) : Written := do
  match f.type? with
  | none => throw (.encoding (.frameRange f))
  | some type =>
    match f with
    | .same _ => return [type]
    | .sameLocalsOneItem _ t => return type :: (← verificationType p t)
    | .sameLocalsOneItemExtended d t =>
      return type :: (Bytes.ofU16 d ++ (← verificationType p t))
    | .chop d _ | .sameExtended d => return type :: Bytes.ofU16 d
    | .append d locals =>
      let parts ← locals.mapM (verificationType p)
      return type :: (Bytes.ofU16 d ++ parts.flatten)
    | .full d locals stack =>
      let locals ← table .frameLocals (verificationType p) locals
      let stack ← table .frameStack (verificationType p) stack
      return type :: (Bytes.ofU16 d ++ locals ++ stack)

def handler (p : Pool) (h : Handler) : Written := do
  let catchType ← indexOrZero p [.classRef] h.catchType
  return Bytes.ofU16 h.start ++ Bytes.ofU16 h.stop ++ Bytes.ofU16 h.handler ++ catchType

def lineNumber (l : LineNumber) : Written :=
  .ok (Bytes.ofU16 l.start ++ Bytes.ofU16 l.line)

def localVariable (p : Pool) (v : LocalVariable) : Written := do
  let name ← index p [.utf8] v.name
  let descriptor ← index p [.utf8] v.descriptor
  return Bytes.ofU16 v.start ++ Bytes.ofU16 v.length ++ name ++ descriptor ++ Bytes.ofU16 v.slot

def name (p : Pool) : Attribute → Written
  | .other name _ => index p [.utf8] name
  | a =>
    match a.kind?.bind fun kind => p.find? (.utf8 kind.bytes) with
    | some i => .ok (Bytes.ofU16 i)
    | none => .error (.encoding (.missingName ((a.kind?.map Attribute.Kind.name).getD "")))

mutual

def content (p : Pool) : Attribute → Written
  | .constantValue i => index p Reader.loadable i
  | .code ⟨maxStack, maxLocals, bytes, handlers, attributes⟩ => do
    if bytes.length = 0 ∨ 65535 < bytes.length then
      throw (.encoding (.codeLength bytes.length))
    else
      let handlers ← table .handlers (handler p) handlers
      if 65535 < attributes.length then
        throw (.encoding (.tooMany .attributes attributes.length))
      else
        let inner ← attributeParts p attributes []
        return Bytes.ofU16 maxStack ++ Bytes.ofU16 maxLocals ++
          Bytes.ofU32 (UInt32.ofNat bytes.length) ++ bytes ++ handlers ++
          Bytes.ofU16 (UInt16.ofNat attributes.length) ++ inner
  | .stackMap frames => table .frames (frame p) frames
  | .exceptions thrown => table .exceptions (index p [.classRef]) thrown
  | .synthetic | .deprecated => .ok []
  | .signature i | .sourceFile i => index p [.utf8] i
  | .lineNumbers lines => table .lineNumbers lineNumber lines
  | .localVariables scopes => table .localVariables (localVariable p) scopes
  | .other _ bytes => .ok bytes

/-- Attributes one after another, each as its name, its length and its content. What was written
before them comes last part first. -/
def attributeParts (p : Pool) : List Attribute → List (List UInt8) → Written
  | [], written => .ok written.reverse.flatten
  | a :: rest, written => do
    let name ← name p a
    let body ← content p a
    if 4294967295 < body.length then throw (.encoding (.longAttribute body.length))
    else
      attributeParts p rest ((name ++ Bytes.ofU32 (UInt32.ofNat body.length) ++ body) :: written)

end

def attributes (p : Pool) (as : List Attribute) : Written := do
  if 65535 < as.length then throw (.encoding (.tooMany .attributes as.length))
  else
    let parts ← attributeParts p as []
    return Bytes.ofU16 (UInt16.ofNat as.length) ++ parts

def member (p : Pool) (m : Member) : Written := do
  let name ← index p [.utf8] m.name
  let descriptor ← index p [.utf8] m.descriptor
  let attributes ← attributes p m.attributes
  return Bytes.ofU16 m.access ++ name ++ descriptor ++ attributes

def classFile (c : ClassFile) : Written := do
  let poolBytes ← pool c.pool
  let thisClass ← index c.pool [.classRef] c.thisClass
  let superClass ← indexOrZero c.pool [.classRef] c.superClass
  let interfaces ← table .interfaces (index c.pool [.classRef]) c.interfaces
  let fields ← table .fields (member c.pool) c.fields
  let methods ← table .methods (member c.pool) c.methods
  let attributes ← attributes c.pool c.attributes
  return Bytes.ofU32 Reader.magicNumber ++ Bytes.ofU16 c.minor ++ Bytes.ofU16 c.major ++ poolBytes
    ++ Bytes.ofU16 c.access ++ thisClass ++ superClass ++ interfaces ++ fields ++ methods
    ++ attributes

end Writer

namespace ClassFile

def write (c : ClassFile) : Written := Writer.classFile c

def writeJournal (c : ClassFile) : Journal :=
  match c.write with
  | .ok bytes => #[.wroteClass c.name? bytes.length]
  | .error _ => #[]

end ClassFile
end ClassForge
