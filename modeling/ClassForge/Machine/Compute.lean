import ClassForge.Floating.Arithmetic
import ClassForge.Machine.Run

namespace ClassForge.Run

open Floating (single double)

/-- Whole numbers wrap around. Division cuts off fractions and refuses zero. -/
def intResult (o : Arithmetic) (a b : Int32) : Except MachineError Int32 :=
  match o with
  | .add => .ok (a + b)
  | .sub => .ok (a - b)
  | .mul => .ok (a * b)
  | .div => if b = 0 then .error .divisionByZero else .ok (a / b)
  | .rem => if b = 0 then .error .divisionByZero else .ok (a % b)

def longResult (o : Arithmetic) (a b : Int64) : Except MachineError Int64 :=
  match o with
  | .add => .ok (a + b)
  | .sub => .ok (a - b)
  | .mul => .ok (a * b)
  | .div => if b = 0 then .error .divisionByZero else .ok (a / b)
  | .rem => if b = 0 then .error .divisionByZero else .ok (a % b)

def floatResult (f : Floating.Format) (o : Arithmetic) (a b : Nat) : Nat :=
  match o with
  | .add => f.add a b
  | .sub => f.sub a b
  | .mul => f.mul a b
  | .div => f.div a b
  | .rem => f.remainder a b

def arithmetic (kind : NumberKind) (o : Arithmetic) : RunM Unit := do
  match kind with
  | .int =>
    let b ← popInt
    let a ← popInt
    pushInt (← lift (intResult o a b))
  | .long =>
    let b ← popLong
    let a ← popLong
    pushLong (← lift (longResult o a b))
  | .float =>
    let b ← popFloat
    let a ← popFloat
    pushFloat (floatResult single o a b)
  | .double =>
    let b ← popDouble
    let a ← popDouble
    pushDouble (floatResult double o a b)

def negate (kind : NumberKind) : RunM Unit := do
  match kind with
  | .int => pushInt (-(← popInt))
  | .long => pushLong (-(← popLong))
  | .float => pushFloat (single.negate (← popFloat))
  | .double => pushDouble (double.negate (← popDouble))

/-- Only the low five bits of the distance count. -/
def shiftInt (s : Shift) (a distance : Int32) : Int32 :=
  let d := distance.toUInt32 &&& 0x1f
  match s with
  | .left => (a.toUInt32 <<< d).toInt32
  | .right => a >>> d.toInt32
  | .unsignedRight => (a.toUInt32 >>> d).toInt32

def shiftLong (s : Shift) (a : Int64) (distance : Int32) : Int64 :=
  let d := distance.toUInt32.toUInt64 &&& 0x3f
  match s with
  | .left => (a.toUInt64 <<< d).toInt64
  | .right => a >>> d.toInt64
  | .unsignedRight => (a.toUInt64 >>> d).toInt64

def shift (long : Bool) (s : Shift) : RunM Unit := do
  let distance ← popInt
  if long then pushLong (shiftLong s (← popLong) distance)
  else pushInt (shiftInt s (← popInt) distance)

def bitwise (long : Bool) (o : Bitwise) : RunM Unit := do
  if long then
    let b ← popLong
    let a ← popLong
    pushLong <| match o with
      | .and => a &&& b
      | .or => a ||| b
      | .xor => a ^^^ b
  else
    let b ← popInt
    let a ← popInt
    pushInt <| match o with
      | .and => a &&& b
      | .or => a ||| b
      | .xor => a ^^^ b

def convert (c : Conversion) : RunM Unit := do
  match c with
  | .intToLong => pushLong (← popInt).toInt64
  | .intToFloat => pushFloat (single.ofInt (← popInt).toInt)
  | .intToDouble => pushDouble (double.ofInt (← popInt).toInt)
  | .longToInt => pushInt (← popLong).toInt32
  | .longToFloat => pushFloat (single.ofInt (← popLong).toInt)
  | .longToDouble => pushDouble (double.ofInt (← popLong).toInt)
  | .floatToInt => pushInt (single.toInt32 (← popFloat))
  | .floatToLong => pushLong (single.toInt64 (← popFloat))
  | .floatToDouble => pushDouble (double.convert single (← popFloat))
  | .doubleToInt => pushInt (double.toInt32 (← popDouble))
  | .doubleToLong => pushLong (double.toInt64 (← popDouble))
  | .doubleToFloat => pushFloat (single.convert double (← popDouble))
  | .intToByte => pushInt (← popInt).toInt8.toInt32
  | .intToChar => pushInt ((← popInt).toUInt32 &&& 0xffff).toInt32
  | .intToShort => pushInt (← popInt).toInt16.toInt32

def sign : Ordering → Int32
  | .lt => -1
  | .eq => 0
  | .gt => 1

def unordered (nanIsGreater : Bool) : Int32 := if nanIsGreater then 1 else -1

def compare (o : Ordered) : RunM Unit := do
  match o with
  | .long =>
    let b ← popLong
    let a ← popLong
    pushInt (sign (Ord.compare a.toInt b.toInt))
  | .float nanIsGreater =>
    let b ← popFloat
    let a ← popFloat
    pushInt (((single.compare? a b).map sign).getD (unordered nanIsGreater))
  | .double nanIsGreater =>
    let b ← popDouble
    let a ← popDouble
    pushInt (((double.compare? a b).map sign).getD (unordered nanIsGreater))

end ClassForge.Run
