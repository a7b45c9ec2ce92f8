namespace ClassForge.Floating

structure Format where
  exponentBits : Nat
  fractionBits : Nat
deriving DecidableEq, Repr

def single : Format := ⟨8, 23⟩

def double : Format := ⟨11, 52⟩

/-- What a pattern stands for. A finite number is `m · 2 ^ q`, with a sign also for zero. -/
inductive Datum where
  | nan
  | infinite (negative : Bool)
  | finite (negative : Bool) (m : Nat) (q : Int)
deriving DecidableEq, Repr

def twoTo (n : Nat) : Nat := Nat.pow 2 n

namespace Format

def bias (f : Format) : Int := twoTo (f.exponentBits - 1) - 1

def least (f : Format) : Int := 1 - f.bias - f.fractionBits

def signBit (f : Format) : Nat := twoTo (f.exponentBits + f.fractionBits)

def top (f : Format) : Nat := twoTo f.exponentBits - 1

def infinity (f : Format) : Nat := f.top * twoTo f.fractionBits

def quietNan (f : Format) : Nat := f.infinity + twoTo (f.fractionBits - 1)

def exponentField (f : Format) (bits : Nat) : Nat :=
  bits / twoTo f.fractionBits % twoTo f.exponentBits

def fraction (f : Format) (bits : Nat) : Nat := bits % twoTo f.fractionBits

def isNegative (f : Format) (bits : Nat) : Bool := bits / f.signBit % 2 = 1

def decode (f : Format) (bits : Nat) : Datum :=
  let e := f.exponentField bits
  let frac := f.fraction bits
  let neg := f.isNegative bits
  if e = f.top then if frac = 0 then .infinite neg else .nan
  else if e = 0 then .finite neg frac f.least
  else .finite neg (twoTo f.fractionBits + frac) (f.least + (e - 1))

def signed (f : Format) (negative : Bool) (magnitude : Nat) : Nat :=
  if negative then f.signBit + magnitude else magnitude

/-- `m / 2 ^ k` to the nearest integer, a half to the even one. -/
def halveEven (m k : Nat) : Nat :=
  let d := twoTo k
  let r := m % d
  if 2 * r < d then m / d
  else if d < 2 * r then m / d + 1
  else m / d + m / d % 2

/-- The pattern of the number nearest to `m · 2 ^ q`, a half to the even neighbour. What is too
large becomes an infinity. -/
def nearest (f : Format) (negative : Bool) (m : Nat) (q : Int) : Nat :=
  if m = 0 then f.signed negative 0
  else
    let last := max f.least (q + m.log2 - f.fractionBits)
    let kept := if q < last then halveEven m (last - q).toNat else m * twoTo (q - last).toNat
    let magnitude :=
      if kept < twoTo f.fractionBits then kept
      else (last - f.least).toNat * twoTo f.fractionBits + kept
    f.signed negative (min magnitude f.infinity)

def ofInt (f : Format) (i : Int) : Nat := f.nearest (i < 0) i.natAbs 0

def convert (f g : Format) (bits : Nat) : Nat :=
  match g.decode bits with
  | .nan => f.quietNan
  | .infinite neg => f.signed neg f.infinity
  | .finite neg m q => f.nearest neg m q

/-- The integer part, kept within `lo` and `hi`; zero for NaN. -/
def toInt (f : Format) (lo hi : Int) (bits : Nat) : Int :=
  match f.decode bits with
  | .nan => 0
  | .infinite neg => if neg then lo else hi
  | .finite neg m q =>
    let whole : Int := if q < 0 then (m / twoTo q.natAbs : Nat) else (m * twoTo q.natAbs : Nat)
    max lo (min hi (if neg then -whole else whole))

def toInt32 (f : Format) (bits : Nat) : Int32 :=
  Int32.ofInt (f.toInt Int32.minValue.toInt Int32.maxValue.toInt bits)

def toInt64 (f : Format) (bits : Nat) : Int64 :=
  Int64.ofInt (f.toInt Int64.minValue.toInt Int64.maxValue.toInt bits)

def remainder (f : Format) (a b : Nat) : Nat :=
  match f.decode a, f.decode b with
  | .finite neg m q, .finite _ n p =>
    if n = 0 then f.quietNan
    else
      let low := min q p
      f.nearest neg (m * twoTo (q - low).toNat % (n * twoTo (p - low).toNat)) low
  | .finite .., .infinite _ => a
  | _, _ => f.quietNan

def negate (f : Format) (bits : Nat) : Nat :=
  if f.isNegative bits then bits - f.signBit else bits + f.signBit

def isNan (f : Format) (bits : Nat) : Bool := f.decode bits = .nan

end Format
end ClassForge.Floating
