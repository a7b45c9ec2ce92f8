import ClassForge.ClassFile.StackMap
import ClassForge.Code.Operation
import ClassForge.Format.Reason
import ClassForge.Proxy.Argument

namespace ClassForge

inductive LabelFault where
  | neverPlaced
  | placedTwice
  | placedLast
  | emptyRange
  | backwardScope
deriving DecidableEq, Repr

def LabelFault.message : LabelFault → String
  | neverPlaced => "never placed"
  | placedTwice => "placed more than once"
  | placedLast => "placed after the last instruction"
  | emptyRange => "protected range is empty"
  | backwardScope => "local variable scope ends before it starts"

inductive Table where
  | interfaces
  | fields
  | methods
  | attributes
  | frames
  | exceptions
  | lineNumbers
  | localVariables
  | handlers
  | frameLocals
  | frameStack
deriving DecidableEq, Repr

def Table.name : Table → String
  | interfaces => "interfaces"
  | fields => "fields"
  | methods => "methods"
  | attributes => "attributes"
  | frames => "stack map frames"
  | exceptions => "exceptions"
  | lineNumbers => "line numbers"
  | localVariables => "local variables"
  | handlers => "exception handlers"
  | frameLocals => "frame locals"
  | frameStack => "frame stack items"

inductive EncodingFault where
  | longText (bytes : Nat)
  | handleTarget (kind : ReferenceKind) (index : Index) (actual : Option Tag)
  | tooMany (table : Table) (count : Nat)
  | wrongEntry (index : Index) (accepted : List Tag) (actual : Option Tag)
  | missingName (name : String)
  | longEntry (bytes : Nat)
  | longAttribute (bytes : Nat)
  | codeLength (length : Nat)
  | frameRange (frame : Frame)
  | emptyBody
  | longBody (bytes : Nat)
  | runsOff
  | deepStack (offset : Nat)
  | longBranch (label : Nat) (distance : Int)
  | manyArguments (name descriptor : String)
  | constructorReturns (owner descriptor : String)
  | parameterSlots (name descriptor : String) (slots : Nat)
deriving DecidableEq, Repr

def EncodingFault.message : EncodingFault → String
  | longText n => s!"string of {n} encoded bytes does not fit a Utf8 entry"
  | handleTarget kind index actual =>
    s!"method handle of kind {kind.name} cannot refer to #{index.toNat} " ++
      s!"({Text.optional (actual.map Tag.name)})"
  | tooMany table n => s!"too many {table.name} ({n})"
  | wrongEntry index accepted actual =>
    s!"constant pool index #{index.toNat} should be {Text.bracketed (accepted.map Tag.name)}, " ++
      s!"found {Text.optional (actual.map Tag.name)}"
  | missingName name => s!"attribute name {name} is not in the constant pool"
  | longEntry n => s!"Utf8 entry of {n} bytes is too long"
  | longAttribute n => s!"attribute of {n} bytes"
  | codeLength n => s!"code length {n} is outside 1..=65535"
  | frameRange frame => s!"stack map frame {frame.shown} is out of range"
  | emptyBody => "method body has no instructions"
  | longBody n => s!"{n} bytes of code is too long"
  | runsOff => "execution can run past the end of the code"
  | deepStack offset => s!"operand stack overflows at {offset}"
  | longBranch label distance => s!"branch to L{label} spans {distance} bytes"
  | manyArguments name descriptor => s!"too many arguments for {name}{descriptor}"
  | constructorReturns owner descriptor => s!"constructor {owner}{descriptor} must return void"
  | parameterSlots name descriptor slots => s!"{name}{descriptor} takes {slots} parameter slots"

inductive Unsupported where
  | refused (reason : String)
  | staticThis
  | noParameter (position count : Nat)
  | referenceArithmetic
  | conversion (source target : ValueKind)
  | constantType (value : Literal) (field : String) (type : FieldType)
  | needsStackMap (method descriptor : String) (major : UInt16)
  | codeForbidden (method : String)
  | codeMissing (method : String)
  | unknownCapture (owner field : String)
  | handlerFieldCaptured (field : String)
  | capturedTwice (field : String)
  | methodTwice (name descriptor : String)
  | constructorTwice (descriptor : String)
  | missingConstructor (owner descriptor : String)
  | delegationLoop (owner descriptor : String)
  | argumentCount (given taken : Nat)
  | argumentType (argument : Argument) (type : FieldType)
  | notOrdinary (method : String)
  | bridge (method descriptor : String)
  | staticHandler (method : String)
  | noHandler (method : String)
  | staticField (method field : String)
  | fieldReturned (field : String) (type : FieldType) (descriptor : MethodDescriptor)
deriving DecidableEq, Repr

def Unsupported.message : Unsupported → String
  | refused reason => reason
  | staticThis => "\x60this\x60 is not available in a static method"
  | noParameter i n => s!"parameter {i} of a method taking {n}"
  | referenceArithmetic => "arithmetic on references"
  | conversion source target => s!"conversion from {source.name} to {target.name}"
  | constantType value field type =>
    s!"constant {value.shown} for field {field} of type {type.descriptor}"
  | needsStackMap method descriptor major =>
    s!"{method}{descriptor} branches, which needs a StackMapTable in version {major.toNat} " ++
      "classes; use version 49"
  | codeForbidden method => s!"abstract or native method {method} cannot have code"
  | codeMissing method => s!"method {method} needs code unless it is abstract or native"
  | unknownCapture owner field => s!"{owner} captures no field {Text.quoted field}"
  | handlerFieldCaptured field =>
    s!"captured field {Text.quoted field} clashes with the handler field"
  | capturedTwice field => s!"field {Text.quoted field} captured twice"
  | methodTwice name descriptor => s!"method {name}{descriptor} declared twice"
  | constructorTwice descriptor => s!"constructor {descriptor} declared twice"
  | missingConstructor owner descriptor =>
    s!"{owner} delegates to missing constructor {descriptor}"
  | delegationLoop owner descriptor =>
    s!"constructor delegation in {owner} loops back to {descriptor}"
  | argumentCount given taken => s!"{given} arguments for a constructor taking {taken}"
  | argumentType argument type =>
    s!"argument {argument.shown} cannot be passed as {type.descriptor}"
  | notOrdinary method =>
    s!"{method} is not an ordinary method; declare constructors with ConstructorSpec"
  | bridge method descriptor => s!"bridge method {method}{descriptor}"
  | staticHandler method => s!"static method {method} cannot reach the handler"
  | noHandler method => s!"method {method} needs a handler contract"
  | staticField method field => s!"static method {method} cannot read instance field {field}"
  | fieldReturned field type descriptor =>
    s!"field {field} of type {type.descriptor} cannot be returned by {descriptor.descriptor}"

inductive Error where
  | malformedClass (offset : Nat) (reason : Reason)
  | invalidDescriptor (text : String)
  | stackUnderflow (offset depth required : Nat)
  /-- Two paths meet with different depths, or a return leaves values behind. -/
  | stackMismatch (offset expected actual : Nat)
  | maxStackExceeded (declared computed : Nat)
  | invalidBranchTarget (label : Nat) (fault : LabelFault)
  | poolOverflow (slots : Nat)
  | encoding (fault : EncodingFault)
  | unsupported (construct : Unsupported)
  /-- A sum of slots does not fit the 16 bits in which slots are counted. Nothing goes on after
  this error. -/
  | slotOverflow
deriving DecidableEq, Repr

def Error.message : Error → String
  | malformedClass offset reason => s!"malformed class file at byte {offset}: {reason.message}"
  | invalidDescriptor text => "invalid descriptor " ++ Text.quoted text
  | stackUnderflow offset depth required =>
    s!"stack underflow at {offset}: {required} value slot(s) required, {depth} available"
  | stackMismatch offset expected actual =>
    s!"inconsistent stack depth at {offset}: expected {expected}, found {actual}"
  | maxStackExceeded declared computed =>
    s!"operand stack reaches {computed} slot(s) but max_stack is declared as {declared}"
  | invalidBranchTarget label fault => s!"invalid branch target L{label}: {fault.message}"
  | poolOverflow slots =>
    s!"constant pool would need {slots} slots, more than a class file can index"
  | encoding fault => "cannot encode class: " ++ fault.message
  | unsupported construct => "unsupported: " ++ construct.message
  | slotOverflow => "slot count does not fit 16 bits"

def Error.kind : Error → String
  | malformedClass .. => "MalformedClass"
  | invalidDescriptor _ => "InvalidDescriptor"
  | stackUnderflow .. => "StackUnderflow"
  | stackMismatch .. => "StackMismatch"
  | maxStackExceeded .. => "MaxStackExceeded"
  | invalidBranchTarget .. => "InvalidBranchTarget"
  | poolOverflow _ => "PoolOverflow"
  | encoding _ => "EncodingError"
  | unsupported _ => "UnsupportedConstruct"
  | slotOverflow => "SlotOverflow"

end ClassForge
