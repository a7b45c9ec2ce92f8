import ClassForge.ClassFile.Basic

namespace ClassForge

inductive Level where
  | error
  | warn
  | info
  | debug
  | trace
deriving DecidableEq, Repr

namespace Level

def rank : Level → Nat
  | error => 1
  | warn => 2
  | info => 3
  | debug => 4
  | trace => 5

def name : Level → String
  | error => "ERROR"
  | warn => "WARN"
  | info => "INFO"
  | debug => "DEBUG"
  | trace => "TRACE"

end Level

inductive BodyKind where
  | handler
  | returnField (field : String)
  | assembled
deriving DecidableEq, Repr

def BodyKind.shown : BodyKind → String
  | handler => "Handler"
  | returnField field => s!"ReturnField({Text.quoted field})"
  | assembled => "Assembled(..)"

inductive Event where
  | interned (index : Index) (entry : Entry)
  | truncated (slots : Nat)
  | readingClass (bytes : Nat)
  | readPool (slots : Nat)
  | readAttribute (name : String) (bytes : Nat)
  | readClass (name : Option String)
  | rejected (offset : Nat) (reason : Reason)
  | wroteClass (name : Option String) (bytes : Nat)
  | unreachable (instructions : Nat)
  | assembled (bytes maxStack maxLocals : Nat)
  | fieldAdded (owner name : String) (type : FieldType)
  | methodAdded (owner name descriptor : String)
  | defaultConstructor (owner : String)
  | builtClass (name : String) (fields methods slots : Nat)
  | generating (name superName : String) (interfaces : List String)
  | constructorPlanned (owner descriptor : String)
  | methodPlanned (owner name descriptor : String) (body : BodyKind)
  | definedClass (name : String)
  | calling (owner name descriptor : String)
  | handlerInvoked (interface method : String)
  | caught (exception : String) (handler : Nat)
deriving DecidableEq, Repr

namespace Event

def level : Event → Level
  | rejected .. => .warn
  | readingClass _ | readClass _ | wroteClass .. | assembled .. | methodAdded ..
  | defaultConstructor _ | builtClass .. | generating .. | definedClass _ => .debug
  | interned .. | truncated _ | readPool _ | readAttribute .. | unreachable _ | fieldAdded ..
  | constructorPlanned .. | methodPlanned .. | calling .. | handlerInvoked .. | caught .. => .trace

def message : Event → String
  | interned i e => s!"interned #{i.toNat} {e.shown}"
  | truncated n => s!"constant pool truncated to {n} slots"
  | readingClass n => s!"parsing class file of {n} bytes"
  | readPool n => s!"parsed {n} constant pool slots"
  | readAttribute name n => s!"parsed {name} attribute ({n} bytes)"
  | readClass name => s!"parsed class {Text.optional (name.map Text.quoted)}"
  | rejected offset reason => s!"rejected class file at byte {offset}: {reason.message}"
  | wroteClass name n => s!"wrote class {Text.optional (name.map Text.quoted)} ({n} bytes)"
  | unreachable n => s!"{n} unreachable instruction(s)"
  | assembled n stack locals =>
    s!"assembled {n} bytes of code (max_stack {stack}, max_locals {locals})"
  | fieldAdded owner name type => s!"{owner}: field {name} {type.descriptor}"
  | methodAdded owner name descriptor => s!"{owner}: method {name}{descriptor}"
  | defaultConstructor owner => s!"{owner}: adding default constructor"
  | builtClass name fields methods slots =>
    s!"built class {name} ({fields} fields, {methods} methods, {slots} constant pool slots)"
  | generating name superName interfaces =>
    s!"generating {name} extending {superName} implementing " ++
      Text.bracketed (interfaces.map Text.quoted)
  | constructorPlanned owner descriptor => s!"{owner}: constructor {descriptor}"
  | methodPlanned owner name descriptor body =>
    s!"{owner}: method {name}{descriptor} ({body.shown})"
  | definedClass name => s!"defined class {name}"
  | calling owner name descriptor => s!"calling {owner}.{name}{descriptor}"
  | handlerInvoked interface method => s!"handler {interface} invoked for {method}"
  | caught exception handler => s!"{exception} caught at {handler}"

def line (e : Event) : String := e.level.name ++ " " ++ e.message

end Event

abbrev Journal := Array Event

/-- Lines of the events that matter at least as much as the given rank asks. Rank zero asks for
none. -/
def Journal.lines (j : Journal) (rank : Nat) : List String :=
  (j.toList.filter fun e => e.level.rank ≤ rank).map Event.line

/-- What an operation did to a pool of the given size: it added entries at the end, or dropped
some there. -/
def Pool.changes (p : Pool) (before : Nat) : Journal :=
  if p.size < before then #[.truncated p.size]
  else (p.slots.items.extract before).zipIdx.filterMap fun (slot, i) =>
    slot.map fun e => .interned (UInt16.ofNat (before + i + 1)) e

end ClassForge
