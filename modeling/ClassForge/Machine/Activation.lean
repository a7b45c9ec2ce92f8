import ClassForge.Machine.Instance

namespace ClassForge

structure Activation where
  owner : LoadedClass
  bytes : Array UInt8
  handlers : List Handler
  maxStack : UInt16
  pc : Nat := 0
  /-- A value of two slots is kept in the first of them, and the second is empty. -/
  locals : Array (Option Value)
  /-- The operand on top comes first. -/
  stack : List Value := []
  depth : Nat := 0

namespace Activation

def slotsOf (args : List Value) : List (Option Value) :=
  args.flatMap fun v => if v.slots = 2 then [some v, none] else [some v]

def ofCode (owner : LoadedClass) (name : String) (code : Code) (args : List Value) :
    Except Violation Activation :=
  let slots := slotsOf args
  let size := code.maxLocals.toNat
  if size < slots.length then .error (.manyArguments owner.name name)
  else .ok {
    owner, bytes := code.bytes.toArray, handlers := code.handlers, maxStack := code.maxStack
    locals := (slots ++ List.replicate (size - slots.length) none).toArray }

def push (f : Activation) (v : Value) : Except MachineError Activation :=
  let depth := f.depth + v.slots
  if 65535 < depth then .error .slotOverflow
  else if f.maxStack.toNat < depth then
    .error (.verify (.stackOverflow f.maxStack.toNat f.pc))
  else .ok { f with stack := v :: f.stack, depth := depth }

def pop (f : Activation) : Except MachineError (Value × Activation) :=
  match f.stack with
  | v :: rest =>
    if f.depth < v.slots then .error .slotOverflow
    else .ok (v, { f with stack := rest, depth := f.depth - v.slots })
  | [] => .error (.verify (.stackUnderflow f.pc))

def load (f : Activation) (slot : Nat) : Except MachineError Value :=
  match f.locals[slot]? with
  | some (some v) => .ok v
  | some none => .error (.verify (.emptyLocal slot))
  | none => .error (.verify (.noLocal slot))

/-- A value of two slots empties the slot after it. -/
def store (f : Activation) (slot : Nat) (v : Value) : Except MachineError Activation :=
  if f.locals.size < slot + v.slots then .error (.verify (.noLocal slot))
  else
    let locals := if v.slots = 2 then f.locals.setIfInBounds (slot + 1) none else f.locals
    .ok { f with locals := locals.setIfInBounds slot (some v) }

def increment (f : Activation) (slot : Nat) (delta : Int32) : Except MachineError Activation :=
  match f.locals[slot]? with
  | some (some (.int v)) =>
    .ok { f with locals := f.locals.setIfInBounds slot (some (.int (v + delta))) }
  | _ => .error (.verify (.incrementOf slot))

def handlerAmong? (f : Activation) (h : Heap) (start : Nat) (exception : Value) :
    List Handler → Except MachineError (Option Handler)
  | [] => .ok none
  | e :: rest =>
    if start < e.start.toNat ∨ e.stop.toNat ≤ start then
      f.handlerAmong? h start exception rest
    else if e.catchType = 0 then .ok (some e)
    else
      match f.owner.pool.classNameAt? e.catchType with
      | none => .error (.verify (.notClass e.catchType))
      | some name =>
        if h.isInstance exception name then .ok (some e)
        else f.handlerAmong? h start exception rest

/-- Goes on at a handler for what the instruction at `start` threw, with the exception as the only
operand. -/
def catching (f : Activation) (start : Nat) (exception : Value) : MachineM Activation := do
  let h := (← get).heap
  match f.handlerAmong? h start exception f.handlers with
  | .error e => throw e
  | .ok none => throw (.thrown exception)
  | .ok (some e) =>
    Machine.note (.caught (h.className exception) e.handler.toNat)
    match { f with stack := [], depth := 0 }.push exception with
    | .error e => throw e
    | .ok f => return { f with pc := e.handler.toNat }

end Activation
end ClassForge
