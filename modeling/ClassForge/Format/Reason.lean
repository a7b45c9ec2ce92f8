import ClassForge.Pool.Entry

namespace ClassForge

inductive Mismatch where
  | eof
  | complete
  | tag
deriving DecidableEq, Repr

def Mismatch.name : Mismatch → String
  | eof => "Eof"
  | complete => "Complete"
  | tag => "Tag"

inductive Reason where
  | truncated
  | badMagic (magic : UInt32)
  | unsupportedVersion (major minor : UInt16)
  | badPoolCount (count : Nat)
  | unknownTag (byte : UInt8)
  | noEntry (index : Index)
  | wrongTag (index : Index) (expected actual : Tag)
  | forbiddenByte (byte : UInt8)
  | badText (index : Index)
  | unknownReferenceKind (byte : UInt8)
  | badDescriptor (text : String)
  | attributeLength (name : String) (declared consumed : Nat)
  | badCodeLength (length : Nat)
  | badHandler (start stop handler : UInt16)
  | reservedFrame (byte : UInt8)
  | unknownVerificationType (byte : UInt8)
  | trailingBytes (count : Nat)
  | unspecific (mismatch : Mismatch)
deriving DecidableEq, Repr

namespace Reason

def ofMismatch : Mismatch → Reason
  | .eof | .complete => truncated
  | other => unspecific other

def padded (width n : Nat) : String :=
  let digits := Text.hex n
  "0x" ++ String.ofList (List.replicate (width - digits.length) '0' ++ digits)

def message : Reason → String
  | truncated => "unexpected end of input"
  | badMagic m => "bad magic number " ++ padded 8 m.toNat
  | unsupportedVersion major minor =>
    s!"unsupported class file version {major.toNat}.{minor.toNat}"
  | badPoolCount n => s!"bad constant_pool_count {n}"
  | unknownTag b => s!"unknown constant pool tag {b.toNat}"
  | noEntry i => s!"constant pool index #{i.toNat} does not name an entry"
  | wrongTag i expected actual =>
    s!"constant pool entry #{i.toNat} is {actual.name}, expected {expected.name}"
  | forbiddenByte b => s!"byte {padded 2 b.toNat} may not appear in modified UTF-8"
  | badText i => s!"constant pool entry #{i.toNat} is not valid modified UTF-8"
  | unknownReferenceKind b => s!"unknown method handle reference kind {b.toNat}"
  | badDescriptor text => "invalid descriptor " ++ Text.quoted text
  | attributeLength name declared consumed =>
    s!"attribute {name} declares {declared} bytes but its contents take {consumed}"
  | badCodeLength n => s!"bad code_length {n}"
  | badHandler start stop handler =>
    s!"exception handler [{start.toNat}, {stop.toNat}) -> {handler.toNat} lies outside the code"
  | reservedFrame b => s!"reserved stack map frame type {b.toNat}"
  | unknownVerificationType b => s!"unknown verification type tag {b.toNat}"
  | trailingBytes n => s!"{n} byte(s) follow the end of the class"
  | unspecific mismatch => s!"parse error ({mismatch.name})"

def kind : Reason → String
  | truncated => "Truncated"
  | badMagic _ => "Magic"
  | unsupportedVersion .. => "UnsupportedVersion"
  | badPoolCount _ => "ConstantPool"
  | unknownTag _ => "UnknownConstantPoolTag"
  | noEntry _ => "ConstantPoolIndexOutOfBounds"
  | wrongTag .. => "UnexpectedConstantPoolType"
  | forbiddenByte _ => "IllegalModifiedUtf8"
  | badText _ => "ModifiedUtf8"
  | unknownReferenceKind _ => "UnknownConstantPoolMethodReferenceTag"
  | badDescriptor _ => "Descriptor"
  | attributeLength .. => "AttributeLength"
  | badCodeLength _ => "CodeLength"
  | badHandler .. => "ExceptionTableEntry"
  | reservedFrame _ => "ReservedStackMapFrameTag"
  | unknownVerificationType _ => "UnknownVerificationTypeInfoTag"
  | trailingBytes _ => "TrailingBytes"
  | unspecific _ => "Syntax"

end Reason
end ClassForge
