import ClassForge.Descriptor.Basic

namespace ClassForge

inductive ValueKind where
  | int
  | long
  | float
  | double
  | reference
deriving DecidableEq, Repr

namespace ValueKind

/-- Booleans, bytes, characters and shorts are ints to instructions. -/
def ofType : FieldType → ValueKind
  | .long => long
  | .float => float
  | .double => double
  | .object _ | .array _ => reference
  | _ => int

def slots : ValueKind → Nat
  | long | double => 2
  | _ => 1

def name : ValueKind → String
  | int => "Int"
  | long => "Long"
  | float => "Float"
  | double => "Double"
  | reference => "Reference"

theorem slots_ofType (t : FieldType) : (ofType t).slots = t.slots := by cases t <;> rfl

end ValueKind

inductive NumberKind where
  | int
  | long
  | float
  | double
deriving DecidableEq, Repr

namespace NumberKind

def toValueKind : NumberKind → ValueKind
  | int => .int
  | long => .long
  | float => .float
  | double => .double

def slots (k : NumberKind) : Nat := k.toValueKind.slots

end NumberKind

def ValueKind.number? : ValueKind → Option NumberKind
  | int => some .int
  | long => some .long
  | float => some .float
  | double => some .double
  | reference => none

inductive Arithmetic where
  | add
  | sub
  | mul
  | div
  | rem
deriving DecidableEq, Repr

inductive Comparison where
  | eq
  | ne
  | lt
  | ge
  | gt
  | le
deriving DecidableEq, Repr

inductive Condition where
  | zero (test : Comparison)
  | ints (test : Comparison)
  | same (expected : Bool)
  | null (expected : Bool)
deriving DecidableEq, Repr

def Condition.slots : Condition → Nat
  | zero _ | null _ => 1
  | ints _ | same _ => 2

inductive Conversion where
  | intToLong
  | intToFloat
  | intToDouble
  | longToInt
  | longToFloat
  | longToDouble
  | floatToInt
  | floatToLong
  | floatToDouble
  | doubleToInt
  | doubleToLong
  | doubleToFloat
  | intToByte
  | intToChar
  | intToShort
deriving DecidableEq, Repr

/-- The conversion from one kind to another. A kind needs none to itself. -/
def Conversion.between? : NumberKind → NumberKind → Option Conversion
  | .int, .long => some intToLong
  | .int, .float => some intToFloat
  | .int, .double => some intToDouble
  | .long, .int => some longToInt
  | .long, .float => some longToFloat
  | .long, .double => some longToDouble
  | .float, .int => some floatToInt
  | .float, .long => some floatToLong
  | .float, .double => some floatToDouble
  | .double, .int => some doubleToInt
  | .double, .long => some doubleToLong
  | .double, .float => some doubleToFloat
  | .int, .int | .long, .long | .float, .float | .double, .double => none

inductive Shift where
  | left
  | right
  | unsignedRight
deriving DecidableEq, Repr

inductive Bitwise where
  | and
  | or
  | xor
deriving DecidableEq, Repr

/-- Comparisons that leave -1, 0 or 1. Those of floating-point numbers say what NaN gives. -/
inductive Ordered where
  | long
  | float (nanIsGreater : Bool)
  | double (nanIsGreater : Bool)
deriving DecidableEq, Repr

/-- How array elements are kept. Booleans share the form of bytes. -/
inductive ElementKind where
  | int
  | long
  | float
  | double
  | reference
  | byte
  | char
  | short
deriving DecidableEq, Repr

namespace ElementKind

def ofType : FieldType → ElementKind
  | .int => int
  | .long => long
  | .float => float
  | .double => double
  | .object _ | .array _ => reference
  | .byte | .boolean => byte
  | .char => char
  | .short => short

end ElementKind

inductive PrimitiveType where
  | boolean
  | char
  | float
  | double
  | byte
  | short
  | int
  | long
deriving DecidableEq, Repr

def PrimitiveType.toFieldType : PrimitiveType → FieldType
  | boolean => .boolean
  | char => .char
  | float => .float
  | double => .double
  | byte => .byte
  | short => .short
  | int => .int
  | long => .long

def FieldType.primitive? : FieldType → Option PrimitiveType
  | boolean => some .boolean
  | char => some .char
  | float => some .float
  | double => some .double
  | byte => some .byte
  | short => some .short
  | int => some .int
  | long => some .long
  | object _ | array _ => none

inductive FieldAccess where
  | getStatic
  | putStatic
  | get
  | put
deriving DecidableEq, Repr

inductive InvokeKind where
  | virtual
  /-- Constructors, private methods and those of a superclass. -/
  | special
  | static
deriving DecidableEq, Repr

inductive Operation (τ : Type) where
  | nop
  | pushNull
  | pushInt (value : Int16)
  | pushLong (one : Bool)
  | pushFloat (value : Fin 3)
  | pushDouble (one : Bool)
  | loadConstant (index : UInt16)
  | loadWideConstant (index : UInt16)
  | load (kind : ValueKind) (slot : UInt16)
  | store (kind : ValueKind) (slot : UInt16)
  | increment (slot : UInt16) (delta : Int16)
  | arrayLoad (kind : ElementKind)
  | arrayStore (kind : ElementKind)
  | arrayLength
  | newArray (component : PrimitiveType)
  | newReferenceArray (component : UInt16)
  | pop
  | pop2
  | dup
  | dupX1
  | dup2
  | swap
  | arithmetic (kind : NumberKind) (operator : Arithmetic)
  | negate (kind : NumberKind)
  | shift (long : Bool) (direction : Shift)
  | bitwise (long : Bool) (operator : Bitwise)
  | convert (conversion : Conversion)
  | compare (ordered : Ordered)
  | branch (condition : Condition) (target : τ)
  | goto (target : τ)
  | leave (kind : Option ValueKind)
  | field (access : FieldAccess) (member : UInt16)
  | invoke (kind : InvokeKind) (member : UInt16)
  /-- The count is that of the slots taken. -/
  | invokeInterface (member : UInt16) (count : UInt8)
  | new (classRef : UInt16)
  | raise
  | checkCast (classRef : UInt16)
  | instanceOf (classRef : UInt16)
deriving DecidableEq, Repr

namespace Operation

variable {τ σ : Type}

def map (f : τ → σ) : Operation τ → Operation σ
  | nop => nop
  | pushNull => pushNull
  | pushInt v => pushInt v
  | pushLong b => pushLong b
  | pushFloat v => pushFloat v
  | pushDouble b => pushDouble b
  | loadConstant i => loadConstant i
  | loadWideConstant i => loadWideConstant i
  | load k s => load k s
  | store k s => store k s
  | increment s d => increment s d
  | arrayLoad k => arrayLoad k
  | arrayStore k => arrayStore k
  | arrayLength => arrayLength
  | newArray c => newArray c
  | newReferenceArray c => newReferenceArray c
  | pop => pop
  | pop2 => pop2
  | dup => dup
  | dupX1 => dupX1
  | dup2 => dup2
  | swap => swap
  | arithmetic k o => arithmetic k o
  | negate k => negate k
  | shift l d => shift l d
  | bitwise l o => bitwise l o
  | convert c => convert c
  | compare o => compare o
  | branch c t => branch c (f t)
  | goto t => goto (f t)
  | leave k => leave k
  | field a m => field a m
  | invoke k m => invoke k m
  | invokeInterface m n => invokeInterface m n
  | new c => new c
  | raise => raise
  | checkCast c => checkCast c
  | instanceOf c => instanceOf c

def target? : Operation τ → Option τ
  | branch _ t | goto t => some t
  | _ => none

def fallsThrough : Operation τ → Bool
  | goto _ | leave _ | raise => false
  | _ => true

end Operation
end ClassForge
