import ClassForge.Proofs.Descriptor.Decoding
import ClassForge.Proofs.Machine.Objects

namespace ClassForge

def InvokeKind.dispatch (kind : InvokeKind) (ref : MemberRef) (args : List Value) :
    MachineM Dispatch :=
  match kind with
  | virtual => Dispatch.virtual ref.name ref.descriptor args
  | special => Dispatch.special ref.owner ref.name ref.descriptor args
  | static => Dispatch.static ref.owner ref.name ref.descriptor args

def InvokeKind.receivers (kind : InvokeKind) : Nat := Body.receiverSlots (kind = .static)

theorem Dispatch.enter_eq {owner : LoadedClass} {method : Method} {code : Code} {args : List Value}
    {a : Activation} (coded : method.code = some code)
    (entered : Activation.ofCode owner method.name code args = .ok a) (m : Machine) :
    enter owner method args m =
      .ok (.entered a) (m.noting (.calling owner.name method.name method.descriptor)) := by
  rw [enter, coded]
  dsimp only
  rw [entered]
  rfl

namespace Machine

open Outcome

theorem invokeVirtual_eq {m : Machine} {receiver : Address} {own owner : LoadedClass}
    {fields : Std.TreeMap String Value} {name descriptor : String} {args : List Value}
    {method : Method} {code : Code} {a : Activation} (plain : m.heap.get receiver = .plain own fields)
    (found : own.findMethod? name descriptor = some (owner, method)) (coded : method.code = some code)
    (entered : Activation.ofCode owner method.name code (.reference receiver :: args) = .ok a)
    (fuel : Nat) : invokeVirtual fuel (.reference receiver) name descriptor args m =
      a.exec fuel (m.noting (.calling owner.name method.name method.descriptor)) := by
  have first : Dispatch.receiver (.reference receiver :: args) m = .ok receiver m := rfl
  have reached : Dispatch.virtual name descriptor (.reference receiver :: args) m =
      .ok (.entered a) (m.noting (.calling owner.name method.name method.descriptor)) := by
    rw [Dispatch.virtual, bind_of_ok first, bind_of_ok (object_eq m receiver), plain]
    dsimp only
    rw [found]
    exact Dispatch.enter_eq coded entered m
  rw [invokeVirtual, bind_of_ok reached]
  rfl

end Machine

namespace Run

open Outcome

variable {a : Activation} {m m' : Machine} {stack args : List Value} {pc : Nat} {i : Index}
  {ref : MemberRef} {d' : MethodDescriptor} {kind : InvokeKind}

theorem invokeKind_eq (kind : InvokeKind) (i : Index) :
    invokeKind kind i = invoke i kind.receivers kind.dispatch := by cases kind <;> rfl

def afterCall (a : Activation) (pc : Nat) (stack : List Value) :
    EStateM.Result MachineError Machine Dispatch → EStateM.Result MachineError Run Flow
  | .ok (.answered v) m => answered v ⟨a.holding pc stack, m⟩
  | .ok (.entered callee) m => .ok (.call callee) ⟨a.holding pc stack, m⟩
  | .error e m => .error e ⟨a.holding pc stack, m⟩

theorem invokeKind_holding (named : a.owner.pool.memberAt? i = some ref)
    (decoded : MethodDescriptor.decode? ref.descriptor = some d')
    (count : args.length = d'.params.length + kind.receivers) :
    invokeKind kind i ⟨a.holding pc (args.reverse ++ stack), m⟩ =
      afterCall a pc stack (kind.dispatch ref args (m.remembering ref.descriptor)) := by
  have found : onMachine (Machine.decodeDescriptor ref.descriptor)
      ⟨a.holding pc (args.reverse ++ stack), m⟩ =
        .ok d' ⟨a.holding pc (args.reverse ++ stack), m.remembering ref.descriptor⟩ :=
    onMachine_of_ok (Machine.decodeDescriptor_eq decoded m)
  rw [invokeKind_eq, invoke, bind_of_ok (member_holding named), bind_of_ok found, ← count,
    bind_of_ok (popMany_holding args)]
  cases dispatched : kind.dispatch ref args (m.remembering ref.descriptor) with
  | ok reached m' =>
    rw [bind_of_ok (onMachine_of_ok dispatched)]
    cases reached <;> rfl
  | error e m' =>
    rw [bind_of_error (onMachine_of_error dispatched)]
    rfl

theorem checkCast_holding {v : Value} {name : String}
    (named : a.owner.pool.classNameAt? i = some name) (reference : v.kind = .reference) :
    checkCast i ⟨a.holding pc (v :: stack), m⟩ =
      if v = .null ∨ m.heap.isInstance v name then push v ⟨a.holding pc stack, m⟩
      else EStateM.Result.error (MachineError.classCast (m.heap.className v) name)
        ⟨a.holding pc stack, m⟩ := by
  have got : heap ⟨a.holding pc stack, m⟩ = .ok m.heap ⟨a.holding pc stack, m⟩ := rfl
  rw [checkCast, bind_of_ok (className_holding named), bind_of_ok (popReference_holding reference),
    bind_of_ok got]
  split <;> rfl

end Run

namespace Activation

open Outcome Run

variable {a : Activation} {m m' m₁ : Machine} {stack : List Value} {v : Value} {i : Index}
  {ref : MemberRef} {d d' : MethodDescriptor} {isStatic : Bool} {new : List Instruction}
  {kind : InvokeKind} {o : Operation Label} {pops : Nat} (args : List Value)

structure IsCall (o : Operation Label) (kind : InvokeKind) (i : Index) : Prop where
  straight : o.target? = none
  falls : o.fallsThrough = true
  same : ∀ start next r, perform start next (o.map fun _ => none) r =
    invokeKind kind i { r with activation := { r.activation with pc := next } }

theorem isCall_invoke (kind : InvokeKind) (i : Index) : IsCall (.invoke kind i) kind i :=
  ⟨rfl, rfl, fun _ _ _ => rfl⟩

theorem isCall_invokeInterface (i : Index) (count : UInt8) :
    IsCall (.invokeInterface i count) .virtual i := ⟨rfl, rfl, fun _ _ _ => rfl⟩

theorem plays_answered (call : IsCall o kind i) (named : a.owner.pool.memberAt? i = some ref)
    (decoded : MethodDescriptor.decode? ref.descriptor = some d')
    (count : args.length = d'.params.length + kind.receivers)
    (slots : Value.totalSlots args = pops) (returns : v.slots = d'.returnSlots)
    (dispatched : kind.dispatch ref args (m.remembering ref.descriptor) =
      .ok (.answered (some v)) m') :
    a.Plays [⟨o, pops, d'.returnSlots⟩] (args.reverse ++ stack) m (v :: stack) m' := by
  refine .cons call.straight call.falls ?_ (fun room => .next fun start pc next => ?_) .nil
  · simp only [Value.totalSlots_cons, Value.totalSlots_append, Value.totalSlots_reverse, slots,
      returns, Instruction.behind]
    omega
  · rw [call.same]
    refine (invokeKind_holding named decoded count).trans ?_
    rw [dispatched, afterCall, answered, bind_of_ok (push_holding room)]
    rfl

theorem plays_done (call : IsCall o kind i) (named : a.owner.pool.memberAt? i = some ref)
    (decoded : MethodDescriptor.decode? ref.descriptor = some d')
    (count : args.length = d'.params.length + kind.receivers)
    (slots : Value.totalSlots args = pops) (returns : d'.returns = none)
    (dispatched : kind.dispatch ref args (m.remembering ref.descriptor) = .ok (.answered none) m') :
    a.Plays [⟨o, pops, d'.returnSlots⟩] (args.reverse ++ stack) m stack m' := by
  refine .cons call.straight call.falls ?_ (fun _ => .next fun start pc next => ?_) .nil
  · simp only [Value.totalSlots_append, Value.totalSlots_reverse, slots, Instruction.behind,
      MethodDescriptor.returnSlots, returns, Option.map_none, Option.getD_none]
    omega
  · rw [call.same]
    refine (invokeKind_holding named decoded count).trans ?_
    rw [dispatched]
    rfl

theorem plays_entered (call : IsCall o kind i) (named : a.owner.pool.memberAt? i = some ref)
    (decoded : MethodDescriptor.decode? ref.descriptor = some d')
    (count : args.length = d'.params.length + kind.receivers)
    (slots : Value.totalSlots args = pops) (returns : d'.returns = none) {callee : Activation}
    (dispatched : kind.dispatch ref args (m.remembering ref.descriptor) = .ok (.entered callee) m₁)
    (settles : callee.Settles m₁ (.ok none m')) :
    a.Plays [⟨o, pops, d'.returnSlots⟩] (args.reverse ++ stack) m stack m' := by
  refine .cons call.straight call.falls ?_ (fun _ => .call (fun start pc next => ?_) settles) .nil
  · simp only [Value.totalSlots_append, Value.totalSlots_reverse, slots, Instruction.behind,
      MethodDescriptor.returnSlots, returns, Option.map_none, Option.getD_none]
    omega
  · rw [call.same]
    refine (invokeKind_holding named decoded count).trans ?_
    rw [dispatched]
    rfl

theorem stops_call (call : IsCall o kind i) (named : a.owner.pool.memberAt? i = some ref)
    (decoded : MethodDescriptor.decode? ref.descriptor = some d')
    (count : args.length = d'.params.length + kind.receivers) {e : MachineError}
    (failed : kind.dispatch ref args (m.remembering ref.descriptor) = .error e m') :
    a.Stops (o.map fun _ => none) (args.reverse ++ stack) m (.error e m') := by
  refine .fail fun start pc next => ⟨a.holding next stack, ?_⟩
  rw [call.same]
  refine (invokeKind_holding named decoded count).trans ?_
  rw [failed]
  rfl

theorem plays_checkCast {name : String} (named : a.owner.pool.classNameAt? i = some name)
    (reference : v.kind = .reference) (fits : v = .null ∨ m.heap.isInstance v name = true) :
    a.Plays [⟨.checkCast i, 1, 1⟩] (v :: stack) m (v :: stack) m := by
  have one : v.slots = 1 := Value.slots_of_kind (t := .object objectClass) reference
  refine plays_going (Run.checkCast i) rfl rfl (fun _ _ _ => rfl) ?_ fun room pc => ?_
  · simp only [Value.totalSlots_cons, one]
    omega
  · rw [checkCast_holding named reference, if_pos fits]
    exact push_holding room

theorem stops_checkCast {name : String} (named : a.owner.pool.classNameAt? i = some name)
    (reference : v.kind = .reference) (misfits : ¬(v = .null ∨ m.heap.isInstance v name = true)) :
    a.Stops (.checkCast i) (v :: stack) m (.error (.classCast (m.heap.className v) name) m) := by
  refine .fail fun start pc next => ⟨a.holding next stack, ?_⟩
  have failed : Run.checkCast i ⟨a.holding next (v :: stack), m⟩ =
      .error (.classCast (m.heap.className v) name) ⟨a.holding next stack, m⟩ := by
    rw [checkCast_holding named reference, if_neg misfits]
  have same : perform start next (.checkCast i) ⟨a.holding pc (v :: stack), m⟩ =
      going (Run.checkCast i) ⟨a.holding next (v :: stack), m⟩ := rfl
  rw [same]
  exact bind_of_error failed

end Activation

namespace FieldType

variable {t : FieldType} {wrapper : String}

theorem decode?_boxing (wraps : t.wrapper? = some wrapper) :
    MethodDescriptor.decode? s!"({t.descriptor})L{wrapper};" =
      some ⟨[t], some (.object wrapper)⟩ := by
  have parts : t.Readable ∧ (object wrapper).Readable ∧
      s!"({t.descriptor})L{wrapper};" = (⟨[t], some (.object wrapper)⟩ : MethodDescriptor).descriptor := by
    cases t <;> cases wraps <;> decide
  rw [parts.2.2]
  refine MethodDescriptor.decode?_descriptor ?_ ?_
  · simpa using parts.1
  · simpa using parts.2.1

theorem decode?_unboxing {owner name : String} (through : Body.unboxing? t = some (owner, name)) :
    MethodDescriptor.decode? s!"(){t.descriptor}" = some ⟨[], some t⟩ := by
  have parts : t.Readable ∧ s!"(){t.descriptor}" =
      (⟨[], some t⟩ : MethodDescriptor).descriptor := by
    cases t <;> cases through <;> decide
  rw [parts.2]
  refine MethodDescriptor.decode?_descriptor (by simp) ?_
  simpa using parts.1

end FieldType

namespace Activation

variable {a : Activation} {m : Machine} {stack : List Value} {v : Value} {t : FieldType}
  {d : MethodDescriptor} {isStatic : Bool} {new : List Instruction}

theorem dispatch_boxing {wrapper : String} (wraps : t.wrapper? = some wrapper) (m : Machine) :
    Dispatch.static (Pool.internalName wrapper) "valueOf" s!"({t.descriptor})L{wrapper};" [v] m =
      .ok (.answered (some (.reference ⟨m.heap.size⟩))) (m.adding (.box wrapper v)) := by
  cases t <;> cases wraps <;> rfl

theorem plays_box {wrapper : String} (wraps : t.wrapper? = some wrapper)
    (means : (Step.box t).Means d isStatic a.owner.pool new) (kind : v.kind = .ofType t) :
    a.Plays new (v :: stack) m (.reference ⟨m.heap.size⟩ :: stack)
      ((m.remembering s!"({t.descriptor})L{wrapper};").adding (.box wrapper v)) := by
  cases means with
  | boxReference reference =>
    rw [wraps] at reference
    cases reference
  | @box _ wrapper' d' i wraps' decoded named =>
    rw [wraps] at wraps'
    cases wraps'
    rw [FieldType.decode?_boxing wraps] at decoded
    cases decoded
    refine plays_answered [v] (isCall_invoke .static i) named
      (FieldType.decode?_boxing wraps) rfl ?_ rfl (dispatch_boxing wraps _)
    rw [Value.totalSlots_cons, Value.slots_of_kind kind]
    rfl

end Activation
end ClassForge
