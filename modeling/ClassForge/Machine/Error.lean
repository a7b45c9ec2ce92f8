import ClassForge.Error
import ClassForge.Machine.Heap

namespace ClassForge

inductive NamedPart where
  | className
  | fieldName
  | fieldType
  | methodName
  | methodType
deriving DecidableEq, Repr

def NamedPart.message : NamedPart → String
  | className => "class name"
  | fieldName => "field name"
  | fieldType => "field type"
  | methodName => "method name"
  | methodType => "method type"

inductive Violation where
  | unresolvable (part : NamedPart)
  | noSuperclass (name : String)
  | fewLocals (owner name descriptor : String) (declared needed : Nat)
  | noCode (owner name : String)
  | manyArguments (owner name : String)
  | noReceiver
  | handlerArguments
  | missingArgument
  | expectedChar
  | notReference (found : String)
  | notArray (found : String)
  | expectedArray (found : Value)
  | unexpected (expected : ValueKind) (found : Value)
  | truncated (pc : Nat)
  | unknownOpcode (opcode : UInt8) (pc : Nat)
  | unknownWide (opcode : UInt8) (pc : Nat)
  | unknownArray (byte : UInt8)
  | stackOverflow (limit pc : Nat)
  | stackUnderflow (pc : Nat)
  | emptyLocal (slot : Nat)
  | noLocal (slot : Nat)
  | incrementOf (slot : Nat)
  | notMember (index : Index)
  | notClass (index : Index)
  | notLoadable (index : Index)
  | leavesCode (pc : Nat)
deriving DecidableEq, Repr

namespace Violation

def kindShown : ValueKind → String
  | .reference => "a reference"
  | k => k.name

def message (h : Heap) : Violation → String
  | unresolvable part => "unresolvable " ++ part.message
  | noSuperclass name => s!"{name} has no superclass"
  | fewLocals owner name descriptor declared needed =>
    s!"{owner}.{name}{descriptor} declares {declared} locals but takes {needed} parameter slots"
  | noCode owner name => s!"{owner}.{name} has no code"
  | manyArguments owner name => s!"{owner}.{name} takes more arguments than it has locals"
  | noReceiver => "missing receiver"
  | handlerArguments => "handler arguments are not an array"
  | missingArgument => "missing argument"
  | expectedChar => "expected a char argument"
  | notReference found => s!"{found} is not a reference"
  | notArray found => s!"{found} is not an array"
  | expectedArray found => "expected an array, found " ++ h.shown found
  | unexpected expected found => s!"expected {kindShown expected}, found {h.shown found}"
  | truncated pc => s!"code ends inside the instruction at {pc}"
  | unknownOpcode op pc => s!"unsupported opcode {Reason.padded 2 op.toNat} at {pc}"
  | unknownWide op pc => s!"wide {Reason.padded 2 op.toNat} at {pc}"
  | unknownArray b => s!"unknown array type {b.toNat}"
  | stackOverflow limit pc => s!"operand stack exceeds max_stack {limit} at {pc}"
  | stackUnderflow pc => s!"operand stack underflow at {pc}"
  | emptyLocal slot => s!"local {slot} is not initialized"
  | noLocal slot => s!"local {slot} is out of range"
  | incrementOf slot => s!"iinc of local {slot}, which is not an int"
  | notMember index => s!"constant {index.toNat} is not a member reference"
  | notClass index => s!"constant {index.toNat} is not a class"
  | notLoadable index => s!"constant {index.toNat} cannot be loaded"
  | leavesCode pc => s!"branch at {pc} leaves the code"

end Violation

inductive MachineError where
  | classFormat (error : Error)
  | noClass (name : String)
  | duplicateClass (name : String)
  | noMethod (owner name descriptor : String)
  | noField (owner name : String)
  | nullPointer
  | classCast (source target : String)
  | indexOutOfBounds (index : Int32)
  | negativeSize (size : Int32)
  | divisionByZero
  | verify (violation : Violation)
  | thrown (exception : Value)
  /-- A count of slots does not fit its 16 bits. Nothing goes on after this error. -/
  | slotOverflow
  | outOfFuel
deriving DecidableEq, Repr

namespace MachineError

def message (h : Heap) : MachineError → String
  | classFormat e => "ClassFormatError: " ++ e.message
  | noClass name => "NoClassDefFoundError: " ++ name
  | duplicateClass name => "duplicate class definition: " ++ name
  | noMethod owner name descriptor => s!"NoSuchMethodError: {owner}.{name}{descriptor}"
  | noField owner name => s!"NoSuchFieldError: {owner}.{name}"
  | nullPointer => "NullPointerException"
  | classCast source target => s!"ClassCastException: {source} cannot be cast to {target}"
  | indexOutOfBounds i => s!"ArrayIndexOutOfBoundsException: {i.toInt}"
  | negativeSize n => s!"NegativeArraySizeException: {n.toInt}"
  | divisionByZero => "ArithmeticException: / by zero"
  | verify v => "VerifyError: " ++ v.message h
  | thrown v => "uncaught exception " ++ h.className v
  | slotOverflow => "slot count does not fit 16 bits"
  | outOfFuel => "out of fuel"

def kind : MachineError → String
  | classFormat _ => "ClassFormat"
  | noClass _ => "NoClassDefFound"
  | duplicateClass _ => "DuplicateClass"
  | noMethod .. => "NoSuchMethod"
  | noField .. => "NoSuchField"
  | nullPointer => "NullPointer"
  | classCast .. => "ClassCast"
  | indexOutOfBounds _ => "ArrayIndexOutOfBounds"
  | negativeSize _ => "NegativeArraySize"
  | divisionByZero => "Arithmetic"
  | verify _ => "Verify"
  | thrown _ => "Thrown"
  | slotOverflow => "SlotOverflow"
  | outOfFuel => "OutOfFuel"

end MachineError
end ClassForge
