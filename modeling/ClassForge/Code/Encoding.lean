import ClassForge.Bytes
import ClassForge.Code.Operation

namespace ClassForge

def ValueKind.offset : ValueKind → Nat
  | int => 0
  | long => 1
  | float => 2
  | double => 3
  | reference => 4

def ValueKind.ofOffset : Nat → ValueKind
  | 0 => int
  | 1 => long
  | 2 => float
  | 3 => double
  | _ => reference

def NumberKind.offset (k : NumberKind) : Nat := k.toValueKind.offset

def NumberKind.ofOffset : Nat → NumberKind
  | 0 => int
  | 1 => long
  | 2 => float
  | _ => double

def ElementKind.offset : ElementKind → Nat
  | int => 0
  | long => 1
  | float => 2
  | double => 3
  | reference => 4
  | byte => 5
  | char => 6
  | short => 7

def ElementKind.ofOffset : Nat → ElementKind
  | 0 => int
  | 1 => long
  | 2 => float
  | 3 => double
  | 4 => reference
  | 5 => byte
  | 6 => char
  | _ => short

def Arithmetic.offset : Arithmetic → Nat
  | add => 0
  | sub => 1
  | mul => 2
  | div => 3
  | rem => 4

def Arithmetic.ofOffset : Nat → Arithmetic
  | 0 => add
  | 1 => sub
  | 2 => mul
  | 3 => div
  | _ => rem

def Comparison.offset : Comparison → Nat
  | eq => 0
  | ne => 1
  | lt => 2
  | ge => 3
  | gt => 4
  | le => 5

def Comparison.ofOffset : Nat → Comparison
  | 0 => eq
  | 1 => ne
  | 2 => lt
  | 3 => ge
  | 4 => gt
  | _ => le

def Shift.offset : Shift → Nat
  | left => 0
  | right => 1
  | unsignedRight => 2

def Shift.ofOffset : Nat → Shift
  | 0 => left
  | 1 => right
  | _ => unsignedRight

def Bitwise.offset : Bitwise → Nat
  | and => 0
  | or => 1
  | xor => 2

def Bitwise.ofOffset : Nat → Bitwise
  | 0 => and
  | 1 => or
  | _ => xor

def Conversion.offset : Conversion → Nat
  | intToLong => 0
  | intToFloat => 1
  | intToDouble => 2
  | longToInt => 3
  | longToFloat => 4
  | longToDouble => 5
  | floatToInt => 6
  | floatToLong => 7
  | floatToDouble => 8
  | doubleToInt => 9
  | doubleToLong => 10
  | doubleToFloat => 11
  | intToByte => 12
  | intToChar => 13
  | intToShort => 14

def Conversion.ofOffset : Nat → Conversion
  | 0 => intToLong
  | 1 => intToFloat
  | 2 => intToDouble
  | 3 => longToInt
  | 4 => longToFloat
  | 5 => longToDouble
  | 6 => floatToInt
  | 7 => floatToLong
  | 8 => floatToDouble
  | 9 => doubleToInt
  | 10 => doubleToLong
  | 11 => doubleToFloat
  | 12 => intToByte
  | 13 => intToChar
  | _ => intToShort

def Ordered.offset : Ordered → Nat
  | long => 0
  | float false => 1
  | float true => 2
  | double false => 3
  | double true => 4

def Ordered.ofOffset : Nat → Ordered
  | 0 => long
  | 1 => float false
  | 2 => float true
  | 3 => double false
  | _ => double true

def FieldAccess.offset : FieldAccess → Nat
  | getStatic => 0
  | putStatic => 1
  | get => 2
  | put => 3

def FieldAccess.ofOffset : Nat → FieldAccess
  | 0 => getStatic
  | 1 => putStatic
  | 2 => get
  | _ => put

def InvokeKind.offset : InvokeKind → Nat
  | virtual => 0
  | special => 1
  | static => 2

def InvokeKind.ofOffset : Nat → InvokeKind
  | 0 => virtual
  | 1 => special
  | _ => static

def PrimitiveType.code : PrimitiveType → UInt8
  | boolean => 4
  | char => 5
  | float => 6
  | double => 7
  | byte => 8
  | short => 9
  | int => 10
  | long => 11

def PrimitiveType.ofCode? : UInt8 → Option PrimitiveType
  | 4 => some boolean
  | 5 => some char
  | 6 => some float
  | 7 => some double
  | 8 => some byte
  | 9 => some short
  | 10 => some int
  | 11 => some long
  | _ => none

/-- Offset from the first branch instruction, `ifeq`. Tests for null stand apart from the rest. -/
def Condition.offset : Condition → Nat
  | zero t => t.offset
  | ints t => 6 + t.offset
  | same true => 12
  | same false => 13
  | null true => 45
  | null false => 46

def Condition.ofOffset (n : Nat) : Condition :=
  if n < 6 then zero (.ofOffset n)
  else if n < 12 then ints (.ofOffset (n - 6))
  else if n < 14 then same (n = 12)
  else null (n = 45)

namespace Operation

def widePrefix : UInt8 := 0xc4

def fitsByte (n : UInt16) : Bool := n.toNat < 256

def fitsSignedByte (d : Int16) : Bool := -128 ≤ d.toInt && d.toInt ≤ 127

variable {τ : Type}

/-- The byte by which the instruction is known. A wide form puts another byte before it. -/
def opcode : Operation τ → UInt8
  | nop => 0x00
  | pushNull => 0x01
  | pushInt v =>
    if -1 ≤ v.toInt ∧ v.toInt ≤ 5 then UInt8.ofNat (v.toInt + 3).toNat
    else if fitsSignedByte v then 0x10 else 0x11
  | pushLong one => if one then 0x0a else 0x09
  | pushFloat v => UInt8.ofNat (0x0b + v.val)
  | pushDouble one => if one then 0x0f else 0x0e
  | loadConstant i => if fitsByte i then 0x12 else 0x13
  | loadWideConstant _ => 0x14
  | load k s =>
    UInt8.ofNat (if s.toNat ≤ 3 then 0x1a + 4 * k.offset + s.toNat else 0x15 + k.offset)
  | store k s =>
    UInt8.ofNat (if s.toNat ≤ 3 then 0x3b + 4 * k.offset + s.toNat else 0x36 + k.offset)
  | increment .. => 0x84
  | arrayLoad k => UInt8.ofNat (0x2e + k.offset)
  | arrayStore k => UInt8.ofNat (0x4f + k.offset)
  | arrayLength => 0xbe
  | newArray _ => 0xbc
  | newReferenceArray _ => 0xbd
  | pop => 0x57
  | pop2 => 0x58
  | dup => 0x59
  | dupX1 => 0x5a
  | dup2 => 0x5c
  | swap => 0x5f
  | arithmetic k o => UInt8.ofNat (0x60 + 4 * o.offset + k.offset)
  | negate k => UInt8.ofNat (0x74 + k.offset)
  | shift long d => UInt8.ofNat (0x78 + 2 * d.offset + long.toNat)
  | bitwise long o => UInt8.ofNat (0x7e + 2 * o.offset + long.toNat)
  | convert c => UInt8.ofNat (0x85 + c.offset)
  | compare o => UInt8.ofNat (0x94 + o.offset)
  | branch c _ => UInt8.ofNat (0x99 + c.offset)
  | goto _ => 0xa7
  | leave k => UInt8.ofNat (0xac + (k.map ValueKind.offset).getD 5)
  | field a _ => UInt8.ofNat (0xb2 + a.offset)
  | invoke k _ => UInt8.ofNat (0xb6 + k.offset)
  | invokeInterface .. => 0xb9
  | new _ => 0xbb
  | raise => 0xbf
  | checkCast _ => 0xc0
  | instanceOf _ => 0xc1

def slotSize (s : UInt16) : Nat := if s.toNat ≤ 3 then 1 else if fitsByte s then 2 else 4

def size : Operation τ → Nat
  | pushInt v =>
    if -1 ≤ v.toInt ∧ v.toInt ≤ 5 then 1 else if fitsSignedByte v then 2 else 3
  | loadConstant i => if fitsByte i then 2 else 3
  | load _ s | store _ s => slotSize s
  | increment s d => if fitsByte s && fitsSignedByte d then 3 else 6
  | newArray _ => 2
  | loadWideConstant _ | newReferenceArray _ | branch .. | goto _ | field .. | invoke .. | new _
  | checkCast _ | instanceOf _ => 3
  | invokeInterface .. => 5
  | _ => 1

def low (n : UInt16) : UInt8 := UInt8.ofNat n.toNat

def encodeSlot (op : UInt8) (s : UInt16) : List UInt8 :=
  if s.toNat ≤ 3 then [op]
  else if fitsByte s then [op, low s]
  else widePrefix :: op :: Bytes.ofU16 s

def encode (o : Operation Int16) : List UInt8 :=
  let op := o.opcode
  match o with
  | pushInt v =>
    if -1 ≤ v.toInt ∧ v.toInt ≤ 5 then [op]
    else if fitsSignedByte v then [op, low v.toUInt16]
    else op :: Bytes.ofU16 v.toUInt16
  | loadConstant i => if fitsByte i then [op, low i] else op :: Bytes.ofU16 i
  | load _ s | store _ s => encodeSlot op s
  | increment s d =>
    if fitsByte s && fitsSignedByte d then [op, low s, low d.toUInt16]
    else widePrefix :: op :: (Bytes.ofU16 s ++ Bytes.ofU16 d.toUInt16)
  | newArray c => [op, c.code]
  | loadWideConstant i | newReferenceArray i | field _ i | invoke _ i | new i | checkCast i
  | instanceOf i => op :: Bytes.ofU16 i
  | branch _ d | goto d => op :: Bytes.ofU16 d.toUInt16
  | invokeInterface i n => op :: (Bytes.ofU16 i ++ [n, 0])
  | _ => [op]

end Operation
end ClassForge
