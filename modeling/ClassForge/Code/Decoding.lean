import ClassForge.Code.Encoding

namespace ClassForge.Operation

inductive DecodeFault where
  | truncated (pc : Nat)
  | unknown (opcode : UInt8)
  | unknownWide (opcode : UInt8)
  | unknownArray (byte : UInt8)
deriving DecidableEq, Repr

def byteAt (code : Array UInt8) (pc : Nat) : Except DecodeFault UInt8 :=
  match code[pc]? with
  | some b => .ok b
  | none => .error (.truncated pc)

def u16At (code : Array UInt8) (pc : Nat) : Except DecodeFault UInt16 := do
  let a ← byteAt code pc
  let b ← byteAt code (pc + 1)
  return Bytes.toU16 a b

/-- The distance of a branch. It is looked at only when the operands have been compared, so code
that ends inside it is no fault yet. -/
def distanceAt (code : Array UInt8) (pc : Nat) : Option Int16 :=
  match u16At code pc with
  | .ok d => some d.toInt16
  | .error _ => none

def signedByte (b : UInt8) : Int16 := Int16.ofInt b.toInt8.toInt

def decodeWide (code : Array UInt8) (pc : Nat) :
    Except DecodeFault (Operation (Option Int16) × Nat) := do
  let op ← byteAt code pc
  let slot ← u16At code (pc + 1)
  let n := op.toNat
  if 0x15 ≤ n ∧ n ≤ 0x19 then return (load (.ofOffset (n - 0x15)) slot, pc + 3)
  else if 0x36 ≤ n ∧ n ≤ 0x3a then return (store (.ofOffset (n - 0x36)) slot, pc + 3)
  else if n = 0x84 then do
    let delta ← u16At code (pc + 3)
    return (increment slot delta.toInt16, pc + 5)
  else throw (.unknownWide op)

def decode (code : Array UInt8) (pc : Nat) :
    Except DecodeFault (Operation (Option Int16) × Nat) := do
  let op ← byteAt code pc
  let n := op.toNat
  let plain (o : Operation (Option Int16)) := (o, pc + 1)
  let withIndex (f : UInt16 → Operation (Option Int16)) : Except DecodeFault _ := do
    let i ← u16At code (pc + 1)
    return (f i, pc + 3)
  if n = 0x00 then return plain nop
  else if n = 0x01 then return plain pushNull
  else if n ≤ 0x08 then return plain (pushInt (Int16.ofInt (n - 3)))
  else if n ≤ 0x0a then return plain (pushLong (n = 0x0a))
  else if n ≤ 0x0d then return plain (pushFloat (Fin.ofNat 3 (n - 0x0b)))
  else if n ≤ 0x0f then return plain (pushDouble (n = 0x0f))
  else if n = 0x10 then do
    let b ← byteAt code (pc + 1)
    return (pushInt (signedByte b), pc + 2)
  else if n = 0x11 then withIndex fun v => pushInt v.toInt16
  else if n = 0x12 then do
    let b ← byteAt code (pc + 1)
    return (loadConstant b.toUInt16, pc + 2)
  else if n = 0x13 then withIndex loadConstant
  else if n = 0x14 then withIndex loadWideConstant
  else if n ≤ 0x19 then do
    let s ← byteAt code (pc + 1)
    return (load (.ofOffset (n - 0x15)) s.toUInt16, pc + 2)
  else if n ≤ 0x2d then
    return plain (load (.ofOffset ((n - 0x1a) / 4)) (UInt16.ofNat ((n - 0x1a) % 4)))
  else if n ≤ 0x35 then return plain (arrayLoad (.ofOffset (n - 0x2e)))
  else if n ≤ 0x3a then do
    let s ← byteAt code (pc + 1)
    return (store (.ofOffset (n - 0x36)) s.toUInt16, pc + 2)
  else if n ≤ 0x4e then
    return plain (store (.ofOffset ((n - 0x3b) / 4)) (UInt16.ofNat ((n - 0x3b) % 4)))
  else if n ≤ 0x56 then return plain (arrayStore (.ofOffset (n - 0x4f)))
  else if n = 0x57 then return plain pop
  else if n = 0x58 then return plain pop2
  else if n = 0x59 then return plain dup
  else if n = 0x5a then return plain dupX1
  else if n = 0x5c then return plain dup2
  else if n = 0x5f then return plain swap
  else if 0x60 ≤ n ∧ n ≤ 0x73 then
    return plain (arithmetic (.ofOffset ((n - 0x60) % 4)) (.ofOffset ((n - 0x60) / 4)))
  else if 0x74 ≤ n ∧ n ≤ 0x77 then return plain (negate (.ofOffset (n - 0x74)))
  else if 0x78 ≤ n ∧ n ≤ 0x7d then
    return plain (shift (n % 2 = 1) (.ofOffset ((n - 0x78) / 2)))
  else if 0x7e ≤ n ∧ n ≤ 0x83 then
    return plain (bitwise (n % 2 = 1) (.ofOffset ((n - 0x7e) / 2)))
  else if n = 0x84 then do
    let s ← byteAt code (pc + 1)
    let d ← byteAt code (pc + 2)
    return (increment s.toUInt16 (signedByte d), pc + 3)
  else if 0x85 ≤ n ∧ n ≤ 0x93 then return plain (convert (.ofOffset (n - 0x85)))
  else if 0x94 ≤ n ∧ n ≤ 0x98 then return plain (compare (.ofOffset (n - 0x94)))
  else if 0x99 ≤ n ∧ n ≤ 0xa6 ∨ n = 0xc6 ∨ n = 0xc7 then
    return (branch (.ofOffset (n - 0x99)) (distanceAt code (pc + 1)), pc + 3)
  else if n = 0xa7 then return (goto (distanceAt code (pc + 1)), pc + 3)
  else if 0xac ≤ n ∧ n ≤ 0xb0 then return plain (leave (some (.ofOffset (n - 0xac))))
  else if n = 0xb1 then return plain (leave none)
  else if 0xb2 ≤ n ∧ n ≤ 0xb5 then withIndex (field (.ofOffset (n - 0xb2)))
  else if 0xb6 ≤ n ∧ n ≤ 0xb8 then withIndex (invoke (.ofOffset (n - 0xb6)))
  else if n = 0xb9 then do
    let i ← u16At code (pc + 1)
    let count ← byteAt code (pc + 3)
    let _ ← byteAt code (pc + 4)
    return (invokeInterface i count, pc + 5)
  else if n = 0xbb then withIndex new
  else if n = 0xbc then do
    let b ← byteAt code (pc + 1)
    match PrimitiveType.ofCode? b with
    | some t => return (newArray t, pc + 2)
    | none => throw (.unknownArray b)
  else if n = 0xbd then withIndex newReferenceArray
  else if n = 0xbe then return plain arrayLength
  else if n = 0xbf then return plain raise
  else if n = 0xc0 then withIndex checkCast
  else if n = 0xc1 then withIndex instanceOf
  else if n = 0xc4 then decodeWide code (pc + 1)
  else throw (.unknown op)

end ClassForge.Operation
