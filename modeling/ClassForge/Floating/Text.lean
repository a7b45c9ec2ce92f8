import ClassForge.Floating.Shortest

namespace ClassForge.Floating

structure Style where
  first : Int
  last : Int

/-- Numbers from 0.0001 up to below 10 to the 16th are written positionally. -/
def plain : Style := ⟨-4, 15⟩

def positional (digits : List Char) (exponent : Int) : List Char :=
  if 0 ≤ exponent then digits ++ List.replicate exponent.toNat '0' ++ ['.', '0']
  else
    let places := exponent.natAbs
    if places < digits.length then
      digits.take (digits.length - places) ++ '.' :: digits.drop (digits.length - places)
    else '0' :: '.' :: List.replicate (places - digits.length) '0' ++ digits

/-- Scientific text has a point only between digits. -/
def scientific (digits : List Char) (leading : Int) : List Char :=
  let head := match digits with
    | d :: e :: rest => d :: '.' :: e :: rest
    | short => short
  head ++ 'e' :: (toString leading).toList

def Style.render (n : Style) (d : Decimal) : List Char :=
  let digits := (toString d.digits).toList
  let leading := d.exponent + digits.length - 1
  if n.first ≤ leading ∧ leading ≤ n.last then positional digits d.exponent
  else scientific digits leading

def Format.render (f : Format) (bits : Nat) : String :=
  match f.decode bits with
  | .nan => "NaN"
  | .infinite neg => if neg then "-inf" else "inf"
  | .finite neg m q =>
    let body := if m = 0 then ['0', '.', '0'] else plain.render (f.interval m q).shortest
    String.ofList (if neg then '-' :: body else body)

end ClassForge.Floating
