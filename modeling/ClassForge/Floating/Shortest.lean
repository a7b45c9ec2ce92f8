import ClassForge.Floating.Format

namespace ClassForge.Floating

def tenTo (n : Nat) : Nat := Nat.pow 10 n

structure Decimal where
  digits : Nat
  exponent : Int
deriving DecidableEq, Repr

/-- The reals that round to a number, as multiples of `2 ^ q / 4`. The ends belong to it when
`closed` holds. -/
structure Interval where
  low : Nat
  value : Nat
  high : Nat
  closed : Bool
  q : Int

/-- Below a power of two the neighbours lie half as far apart. -/
def Format.interval (f : Format) (m : Nat) (q : Int) : Interval :=
  let narrow := m = twoTo f.fractionBits && f.least < q
  ⟨4 * m - (if narrow then 1 else 2), 4 * m, 4 * m + 2, m % 2 = 0, q⟩

/-- A neighbour of the value among the multiples of `10 ^ k` that lies in the interval. Of two
the nearer is taken, and of two equally near ones the larger. -/
def Interval.on? (i : Interval) (k : Int) : Option Nat :=
  let s := i.q - 2
  let num := (if 0 ≤ s then twoTo s.natAbs else 1) * (if k < 0 then tenTo k.natAbs else 1)
  let den := (if s < 0 then twoTo s.natAbs else 1) * (if 0 ≤ k then tenTo k.natAbs else 1)
  let below := i.value * num / den
  let holds (d : Nat) : Bool :=
    if i.closed then i.low * num ≤ d * den && d * den ≤ i.high * num
    else i.low * num < d * den && d * den < i.high * num
  let up := holds (below + 1)
  let down := holds below
  if up && (!down || (2 * below + 1) * den ≤ 2 * (i.value * num)) then some (below + 1)
  else if down then some below
  else none

def Interval.shortest (i : Interval) : Decimal :=
  let found := (List.range 680).findSome? fun (n : Nat) =>
    let k : Int := 340 - n
    (i.on? k).map fun d => Decimal.mk d k
  found.getD ⟨0, 0⟩

end ClassForge.Floating
