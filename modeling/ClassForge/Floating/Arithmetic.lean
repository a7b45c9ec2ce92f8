import ClassForge.Floating.Format

namespace ClassForge.Floating.Format

def withSign (negative : Bool) (m : Nat) : Int := if negative then -(m : Int) else m

/-- A sum that is exactly zero is positive unless both numbers are negative. -/
def addFinite (f : Format) (neg : Bool) (m : Nat) (q : Int) (neg' : Bool) (n : Nat) (p : Int) :
    Nat :=
  let low := min q p
  let sum := withSign neg (m * twoTo (q - low).toNat) + withSign neg' (n * twoTo (p - low).toNat)
  if sum = 0 then f.signed (neg && neg') 0 else f.nearest (sum < 0) sum.natAbs low

def add (f : Format) (a b : Nat) : Nat :=
  match f.decode a, f.decode b with
  | .finite neg m q, .finite neg' n p => f.addFinite neg m q neg' n p
  | .infinite neg, .infinite neg' => if neg = neg' then a else f.quietNan
  | .infinite _, .finite .. => a
  | .finite .., .infinite _ => b
  | .nan, _ | _, .nan => f.quietNan

def sub (f : Format) (a b : Nat) : Nat := f.add a (f.negate b)

def mul (f : Format) (a b : Nat) : Nat :=
  match f.decode a, f.decode b with
  | .finite neg m q, .finite neg' n p => f.nearest (neg != neg') (m * n) (q + p)
  | .infinite neg, .infinite neg' => f.signed (neg != neg') f.infinity
  | .infinite neg, .finite neg' m _ | .finite neg m _, .infinite neg' =>
    if m = 0 then f.quietNan else f.signed (neg != neg') f.infinity
  | .nan, _ | _, .nan => f.quietNan

/-- The number nearest to a quotient of integers times `2 ^ q`. Two more binary places than the
format has are worked out, and one that tells whether anything is left. -/
def nearestQuotient (f : Format) (negative : Bool) (m n : Nat) (q : Int) : Nat :=
  let places := f.fractionBits + 3 + n.log2 - m.log2
  let quotient := m * twoTo places / n
  let rest := m * twoTo places % n
  f.nearest negative (2 * quotient + if rest = 0 then 0 else 1) (q - places - 1)

def div (f : Format) (a b : Nat) : Nat :=
  match f.decode a, f.decode b with
  | .finite neg m q, .finite neg' n p =>
    if n = 0 then if m = 0 then f.quietNan else f.signed (neg != neg') f.infinity
    else f.nearestQuotient (neg != neg') m n (q - p)
  | .infinite neg, .finite neg' .. => f.signed (neg != neg') f.infinity
  | .finite neg .., .infinite neg' => f.signed (neg != neg') 0
  | .infinite _, .infinite _ => f.quietNan
  | .nan, _ | _, .nan => f.quietNan

/-- An integer for each number, in the order of the numbers. Both zeros have the same. -/
def orderKey (f : Format) (bits : Nat) : Int :=
  if f.isNegative bits then -((bits - f.signBit : Nat) : Int) else bits

/-- NaN is neither less nor greater than anything, and not equal to itself. -/
def compare? (f : Format) (a b : Nat) : Option Ordering :=
  if f.isNan a || f.isNan b then none else some (compare (f.orderKey a) (f.orderKey b))

end ClassForge.Floating.Format
