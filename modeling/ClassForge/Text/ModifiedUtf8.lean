namespace ClassForge.Text.ModifiedUtf8

structure DecodeError where
  offset : Nat
deriving DecidableEq, Repr

def DecodeError.message (e : DecodeError) : String := s!"invalid modified UTF-8 at byte {e.offset}"

def isForbidden (b : UInt8) : Bool := b == 0 || 0xf0 ≤ b

/-- The UTF-16 units of a character: itself, or a surrogate pair beyond 0xFFFF. -/
def unitsOf (c : Char) : List UInt16 :=
  let n := c.toNat
  if n < 0x10000 then [UInt16.ofNat n]
  else
    [UInt16.ofNat (0xd800 + (n - 0x10000) / 0x400), UInt16.ofNat (0xdc00 + (n - 0x10000) % 0x400)]

def encodeUnit (u : UInt16) : List UInt8 :=
  let n := u.toNat
  if 1 ≤ n ∧ n ≤ 0x7f then [UInt8.ofNat n]
  else if n ≤ 0x7ff then [UInt8.ofNat (0xc0 + n / 64), UInt8.ofNat (0x80 + n % 64)]
  else
    [UInt8.ofNat (0xe0 + n / 4096), UInt8.ofNat (0x80 + n / 64 % 64), UInt8.ofNat (0x80 + n % 64)]

def encode (s : String) : List UInt8 :=
  (s.toList.flatMap unitsOf).flatMap encodeUnit

def isContinuation (b : UInt8) : Bool := 0x80 ≤ b && b < 0xc0

def continued (b : UInt8) : Nat := b.toNat % 64

/-- The units that a byte string spells. Longer forms of a unit than needed are accepted. The
bytes start at `offset`. -/
def decodeUnits (offset : Nat) : List UInt8 → Except DecodeError (List UInt16)
  | [] => .ok []
  | b :: rest =>
    if 1 ≤ b && b ≤ 0x7f then do
      let units ← decodeUnits (offset + 1) rest
      return UInt16.ofNat b.toNat :: units
    else if 0xc0 ≤ b && b ≤ 0xdf then
      match rest with
      | c :: rest =>
        if isContinuation c then do
          let units ← decodeUnits (offset + 2) rest
          return UInt16.ofNat (b.toNat % 32 * 64 + continued c) :: units
        else .error ⟨offset + 1⟩
      | [] => .error ⟨offset + 1⟩
    else if 0xe0 ≤ b && b ≤ 0xef then
      match rest with
      | c :: rest =>
        if isContinuation c then
          match rest with
          | d :: rest =>
            if isContinuation d then do
              let units ← decodeUnits (offset + 3) rest
              return UInt16.ofNat (b.toNat % 16 * 4096 + continued c * 64 + continued d) :: units
            else .error ⟨offset + 2⟩
          | [] => .error ⟨offset + 2⟩
        else .error ⟨offset + 1⟩
      | [] => .error ⟨offset + 1⟩
    else .error ⟨offset⟩

/-- The characters that UTF-16 units spell, unless a surrogate stands alone. -/
def charsOfUnits : List UInt16 → Option (List Char)
  | [] => some []
  | u :: rest =>
    let n := u.toNat
    if n < 0xd800 || 0xe000 ≤ n then (Char.ofNat n :: ·) <$> charsOfUnits rest
    else if n < 0xdc00 then
      match rest with
      | v :: rest =>
        let m := v.toNat
        if 0xdc00 ≤ m && m < 0xe000 then
          (Char.ofNat (0x10000 + (n - 0xd800) * 0x400 + (m - 0xdc00)) :: ·) <$> charsOfUnits rest
        else none
      | [] => none
    else none

/-- Refuses bytes that are no groups at the byte that breaks the group, and units that are no
text at the end. -/
def decode (bytes : List UInt8) : Except DecodeError String := do
  let units ← decodeUnits 0 bytes
  match charsOfUnits units with
  | some chars => return String.ofList chars
  | none => throw ⟨bytes.length⟩

end ClassForge.Text.ModifiedUtf8
