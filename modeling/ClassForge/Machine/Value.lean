import ClassForge.Pool.Entry

namespace ClassForge

structure Address where
  index : Nat
deriving DecidableEq, Repr

inductive Value where
  /-- Also stands for booleans, bytes, characters and shorts. -/
  | int (value : Int32)
  | float (bits : UInt32)
  | long (value : Int64)
  | double (bits : UInt64)
  | reference (address : Address)
  | null
deriving DecidableEq, Repr, Inhabited

namespace Value

def initial : FieldType → Value
  | .long => long 0
  | .float => float 0
  | .double => double 0
  | .object _ | .array _ => null
  | _ => int 0

def slots : Value → Nat
  | long _ | double _ => 2
  | _ => 1

def asInt? : Value → Option Int32
  | int v => some v
  | _ => none

def asLong? : Value → Option Int64
  | long v => some v
  | _ => none

def address? : Value → Option Address
  | reference a => some a
  | _ => none

def sameReference : Value → Value → Bool
  | null, null => true
  | reference a, reference b => a = b
  | _, _ => false

def char? (v : Value) : Option Char :=
  v.asInt?.bind fun i =>
    let n := i.toUInt32.toNat
    if n.isValidChar then some (Char.ofNat n) else none

end Value
end ClassForge
