import ClassForge.Machine.Activation
import ClassForge.Machine.Native
import ClassForge.Proxy.Spec

namespace ClassForge

inductive Dispatch where
  | answered (value : Option Value)
  | entered (callee : Activation)

namespace Dispatch

open Machine

def noMethod {α : Type} (owner name descriptor : String) : MachineM α :=
  throw (.noMethod owner name descriptor)

def enter (owner : LoadedClass) (m : Method) (args : List Value) : MachineM Dispatch := do
  match m.code with
  | none => violation (.noCode owner.name m.name)
  | some code =>
    match Activation.ofCode owner m.name code args with
    | .error v => violation v
    | .ok f =>
      note (.calling owner.name m.name m.descriptor)
      return .entered f

def native (owner name descriptor : String) (action : Option Native.Action) :
    MachineM Dispatch :=
  match action with
  | some act => return .answered (← act)
  | none => noMethod owner name descriptor

/-- A handler is called with the object, the method and an array of arguments; without an array
there are none. -/
def callHandler (h : ProxyHandler) (name descriptor : String) (args : List Value) :
    MachineM Dispatch := do
  match args with
  | [_, proxy, method, arguments] =>
    if descriptor ≠ HandlerContract.descriptor then noMethod h.interface name descriptor
    else
      let m ← get
      match m.heap.string? method with
      | none => throw .nullPointer
      | some method =>
        let elements ← match m.heap.object? arguments with
          | some (.array _ elements) => pure elements.toList
          | some _ => violation .handlerArguments
          | none => pure []
        note (.handlerInvoked h.interface method)
        modify fun now => { now with calls := now.calls.push ⟨m.heap, proxy, method, elements⟩ }
        return .answered (some (← build (h.answer m.calls.size proxy method elements)))
  | _ => noMethod h.interface name descriptor

def receiver (args : List Value) : MachineM Address :=
  match args with
  | v :: _ => target v
  | [] => violation .noReceiver

/-- Calls the method that the class of the receiver has. The receiver comes first among the
arguments. -/
def virtual (name descriptor : String) (args : List Value) : MachineM Dispatch := do
  let a ← receiver args
  let o ← object a
  match o with
  | .plain c _ =>
    match c.findMethod? name descriptor with
    | some (owner, m) => enter owner m args
    | none => noMethod c.name name descriptor
  | .handler h => callHandler h name descriptor args
  | o => native o.className name descriptor (Native.virtual? a o name descriptor args.tail)

/-- Calls the method that the named class has, or a constructor that it declares itself. The
constructor of the root does nothing. -/
def special (owner name descriptor : String) (args : List Value) : MachineM Dispatch := do
  let a ← receiver args
  if owner = objectClass ∧ name = constructorName ∧ descriptor = "()V" then return .answered none
  else if Native.isBuiltIn owner then
    native owner name descriptor
      (Native.special? a (← object a) name descriptor args.tail)
  else
    let c ← resolve owner
    let found :=
      if name = constructorName then (c.declaredMethod? name descriptor).map (c, ·)
      else c.findMethod? name descriptor
    match found with
    | some (c, m) => enter c m args
    | none => noMethod owner name descriptor

def static (owner name descriptor : String) (args : List Value) : MachineM Dispatch := do
  if Native.isBuiltIn owner then
    native owner name descriptor (Native.static? owner name descriptor args)
  else
    let c ← resolve owner
    match c.findMethod? name descriptor with
    | some (c, m) => if m.isStatic then enter c m args else noMethod owner name descriptor
    | none => noMethod owner name descriptor

end Dispatch
end ClassForge
