import ClassForge.Proofs.Code.PlainSteps
import ClassForge.Proofs.Machine.Straight

namespace ClassForge

/-- What instructions tell values apart by. -/
def Value.kind : Value → ValueKind
  | int _ => .int
  | float _ => .float
  | long _ => .long
  | double _ => .double
  | reference _ | null => .reference

theorem Value.slots_of_kind {v : Value} {t : FieldType} (kind : v.kind = .ofType t) :
    v.slots = t.slots := by
  have slots : v.slots = v.kind.slots := by cases v <;> rfl
  rw [slots, kind, ValueKind.slots_ofType]

@[simp] theorem Value.slots_reference (a : Address) : (reference a).slots = 1 := rfl

@[simp] theorem Value.slots_int (n : Int32) : (int n).slots = 1 := rfl

abbrev Value.Suit (types : List FieldType) (vs : List Value) : Prop :=
  List.Forall₂ (fun t v => v.kind = .ofType t) types vs

theorem Value.totalSlots_of_suit {types : List FieldType} {vs : List Value}
    (suit : Value.Suit types vs) : Value.totalSlots vs = FieldType.totalSlots types := by
  induction suit with
  | nil => rfl
  | cons kind _ ih =>
    rw [totalSlots_cons, slots_of_kind kind, ih]
    rfl

theorem Operation.straight_of_loaded? {τ : Type} {o : Operation τ} {p : Pool} {l : Literal}
    (loads : o.loaded? p = some l) : o.target? = none ∧ o.fallsThrough = true := by
  cases o <;> first | exact ⟨rfl, rfl⟩ | cases loads

namespace Activation

theorem slotsOf_cons (v : Value) (vs : List Value) :
    slotsOf (v :: vs) = (if v.slots = 2 then [some v, none] else [some v]) ++ slotsOf vs := rfl

theorem length_slotsOf (vs : List Value) : (slotsOf vs).length = Value.totalSlots vs := by
  induction vs with
  | nil => rfl
  | cons v rest ih =>
    rw [slotsOf_cons, List.length_append, ih, Value.totalSlots_cons]
    cases v <;> rfl

theorem slotsOf_append (vs ws : List Value) : slotsOf (vs ++ ws) = slotsOf vs ++ slotsOf ws :=
  List.flatMap_append

theorem drop_slotsOf (vs : List Value) (i : Nat) (more : List (Option Value)) :
    (slotsOf vs ++ more).drop (Value.totalSlots (vs.take i)) = slotsOf (vs.drop i) ++ more := by
  have split : slotsOf vs = slotsOf (vs.take i) ++ slotsOf (vs.drop i) := by
    rw [← slotsOf_append, List.take_append_drop]
  rw [split, List.append_assoc, List.drop_left' (length_slotsOf _)]

theorem slotsOf_at {vs : List Value} {i : Nat} {v : Value} (found : vs[i]? = some v)
    (more : List (Option Value)) :
    (slotsOf vs ++ more)[Value.totalSlots (vs.take i)]? = some (some v) ∧
      (v.slots = 2 → (slotsOf vs ++ more)[Value.totalSlots (vs.take i) + 1]? = some none) := by
  obtain ⟨inside, same⟩ := List.getElem?_eq_some_iff.1 found
  have behind := drop_slotsOf vs i more
  rw [List.drop_eq_getElem_cons inside, same, slotsOf_cons] at behind
  have first := congrArg (·[0]?) behind
  have second := congrArg (·[1]?) behind
  simp only [List.getElem?_drop, Nat.add_zero] at first second
  rw [first, second]
  cases v with
  | long n | double bits => exact ⟨rfl, fun _ => rfl⟩
  | _ => exact ⟨rfl, nofun⟩

theorem getElem?_slotsOf {vs : List Value} {i : Nat} {v : Value} (found : vs[i]? = some v)
    (more : List (Option Value)) :
    (slotsOf vs ++ more)[Value.totalSlots (vs.take i)]? = some (some v) :=
  (slotsOf_at found more).1

structure Given (a : Activation) (this : Value) (args : List Value) : Prop where
  locals : ∃ more, a.locals = (slotsOf (this :: args) ++ more).toArray
  receiver : this.slots = 1

theorem Given.this {a : Activation} {this : Value} {args : List Value} (given : a.Given this args) :
    a.locals[0]? = some (some this) := by
  obtain ⟨more, locals⟩ := given.locals
  rw [locals, List.getElem?_toArray]
  exact getElem?_slotsOf (i := 0) rfl more

theorem Given.param {a : Activation} {this : Value} {args : List Value} (given : a.Given this args)
    {types : List FieldType} (suit : Value.Suit types args) {i : Nat} {v : Value}
    (found : args[i]? = some v) :
    a.locals[1 + FieldType.totalSlots (types.take i)]? = some (some v) := by
  obtain ⟨more, locals⟩ := given.locals
  have before : Value.totalSlots (args.take i) = FieldType.totalSlots (types.take i) :=
    Value.totalSlots_of_suit (List.forall₂_take i suit)
  have place : 1 + FieldType.totalSlots (types.take i) =
      Value.totalSlots ((this :: args).take (i + 1)) := by
    rw [List.take_succ_cons, Value.totalSlots_cons, given.receiver, before]
  have behind : (this :: args)[i + 1]? = some v := found
  rw [locals, List.getElem?_toArray, place]
  exact getElem?_slotsOf behind more

end Activation

namespace Run

open Outcome

variable {a : Activation} {m m' : Machine} {stack : List Value} {pc : Nat} {v : Value}

theorem going_of_ok {act : RunM Unit} {r r' : Run} (done : act r = .ok () r') :
    going act r = .ok .next r' := bind_of_ok done

theorem onMachine_of_ok {α : Type} {act : MachineM α} {x : α} (done : act m = .ok x m') :
    onMachine act ⟨a, m⟩ = .ok x ⟨a, m'⟩ := by
  rw [onMachine, done]

theorem onMachine_of_error {α : Type} {act : MachineM α} {e : MachineError}
    (failed : act m = .error e m') : onMachine act ⟨a, m⟩ = .error e ⟨a, m'⟩ := by
  rw [onMachine, failed]

theorem push_eq (room : a.depth + v.slots ≤ a.maxStack.toNat) : push v ⟨a, m⟩ =
    .ok () ⟨{ a with stack := v :: a.stack, depth := a.depth + v.slots }, m⟩ := by
  have bound := a.maxStack.toNat_lt
  have counted : ¬65535 < a.depth + v.slots := by omega
  simp only [push, onActivation, Activation.push, if_neg counted, if_neg (Nat.not_lt.2 room)]

theorem push_holding (room : Value.totalSlots (v :: stack) ≤ a.maxStack.toNat) :
    push v ⟨a.holding pc stack, m⟩ = .ok () ⟨a.holding pc (v :: stack), m⟩ := by
  rw [Value.totalSlots_cons, Nat.add_comm] at room
  rw [push_eq room]
  simp only [Activation.holding, Value.totalSlots_cons, Nat.add_comm]

theorem pop_holding : pop ⟨a.holding pc (v :: stack), m⟩ = .ok v ⟨a.holding pc stack, m⟩ := by
  have counted : ¬v.slots + Value.totalSlots stack < v.slots := by omega
  have popped : (a.holding pc (v :: stack)).pop = .ok (v, a.holding pc stack) := by
    simp only [Activation.pop, Activation.holding_stack, Activation.holding_depth,
      Value.totalSlots_cons, if_neg counted, Nat.add_sub_cancel_left]
    rfl
  rw [pop, popped]

theorem popMany_holding (args : List Value) :
    popMany args.length ⟨a.holding pc (args.reverse ++ stack), m⟩ =
      .ok args ⟨a.holding pc stack, m⟩ := by
  have go (given taken : List Value) :
      popMany.go given.length taken ⟨a.holding pc (given ++ stack), m⟩ =
        .ok (given.reverse ++ taken) ⟨a.holding pc stack, m⟩ := by
    induction given generalizing taken with
    | nil => rfl
    | cons w rest ih =>
      have first : pop ⟨a.holding pc (w :: rest ++ stack), m⟩ =
          .ok w ⟨a.holding pc (rest ++ stack), m⟩ := pop_holding
      rw [List.length_cons, popMany.go, bind_of_ok first, ih, List.reverse_cons, List.append_assoc,
        List.singleton_append]
  have whole := go args.reverse []
  rwa [List.length_reverse, List.reverse_reverse, List.append_nil] at whole

theorem popReference_holding (kind : v.kind = .reference) :
    popReference ⟨a.holding pc (v :: stack), m⟩ = .ok v ⟨a.holding pc stack, m⟩ := by
  rw [popReference, bind_of_ok pop_holding]
  cases v with
  | reference b | null => rfl
  | _ => cases kind

theorem popInt_holding {n : Int32} :
    popInt ⟨a.holding pc (.int n :: stack), m⟩ = .ok n ⟨a.holding pc stack, m⟩ := by
  rw [popInt, bind_of_ok pop_holding]
  rfl

theorem popArray_holding {r : Address} {component : FieldType} {elements : Array Value}
    (array : m.heap.get r = .array component elements) :
    popArray ⟨a.holding pc (.reference r :: stack), m⟩ =
      .ok (r, component, elements) ⟨a.holding pc stack, m⟩ := by
  have got : heap ⟨a.holding pc stack, m⟩ = .ok m.heap ⟨a.holding pc stack, m⟩ := rfl
  rw [popArray, bind_of_ok pop_holding]
  dsimp only
  rw [bind_of_ok got, array]
  rfl

theorem checkElement_holding {component : FieldType} {name : String}
    (named : component.className?.getD component.descriptor = name) :
    checkElement component v ⟨a.holding pc stack, m⟩ =
      if v = .null ∨ m.heap.isInstance v name then .ok () ⟨a.holding pc stack, m⟩
      else EStateM.Result.error (MachineError.classCast (m.heap.className v) name)
        ⟨a.holding pc stack, m⟩ := by
  have got : heap ⟨a.holding pc stack, m⟩ = .ok m.heap ⟨a.holding pc stack, m⟩ := rfl
  rw [checkElement, bind_of_ok got, named]
  split <;> rfl

theorem member_holding {i : Index} {ref : MemberRef} (named : a.owner.pool.memberAt? i = some ref) :
    member i ⟨a.holding pc stack, m⟩ = .ok ref ⟨a.holding pc stack, m⟩ := by
  have pool : pool ⟨a.holding pc stack, m⟩ = .ok a.owner.pool ⟨a.holding pc stack, m⟩ := rfl
  rw [member, bind_of_ok pool, named]
  rfl

theorem className_holding {i : Index} {name : String}
    (named : a.owner.pool.classNameAt? i = some name) :
    className i ⟨a.holding pc stack, m⟩ = .ok name ⟨a.holding pc stack, m⟩ := by
  have pool : pool ⟨a.holding pc stack, m⟩ = .ok a.owner.pool ⟨a.holding pc stack, m⟩ := rfl
  rw [className, bind_of_ok pool, named]
  rfl

theorem single_ofInt (n : Fin 3) : UInt32.ofNat (Floating.single.ofInt n.val) =
    [0, 0x3f800000, 0x40000000].getD n.val 0 := by
  match n with
  | 0 | 1 | 2 => decide +kernel

theorem double_ofInt (one : Bool) : UInt64.ofNat (Floating.double.ofInt (if one then 1 else 0)) =
    if one then 0x3ff0000000000000 else 0 := by
  cases one <;> decide +kernel

theorem ofLiteral_slots {l : Literal} (made : Machine.ofLiteral l m = .ok v m') :
    v.slots = l.slots := by
  cases l <;> cases made <;> rfl

theorem perform_loads {o : Operation Label} {l : Literal}
    (loads : o.loaded? a.owner.pool = some l) (made : Machine.ofLiteral l m = .ok v m')
    (room : a.depth + l.slots ≤ a.maxStack.toNat) (start next : Nat) :
    perform start next (o.map fun _ => none) ⟨a, m⟩ = .ok .next
      ⟨{ a with pc := next, stack := v :: a.stack, depth := a.depth + l.slots }, m'⟩ := by
  have pushed : push v ⟨{ a with pc := next }, m'⟩ = .ok ()
      ⟨{ a with pc := next, stack := v :: a.stack, depth := a.depth + l.slots }, m'⟩ := by
    rw [← ofLiteral_slots made] at room ⊢
    exact push_eq room
  cases o with
  | pushInt n =>
    cases loads
    cases made
    exact going_of_ok pushed
  | pushLong one =>
    cases loads
    cases made
    exact going_of_ok pushed
  | pushFloat n =>
    cases loads
    cases made
    rw [← single_ofInt] at pushed ⊢
    exact going_of_ok pushed
  | pushDouble one =>
    cases loads
    cases made
    rw [← double_ofInt] at pushed ⊢
    exact going_of_ok pushed
  | loadConstant i | loadWideConstant i =>
    have pool : pool ⟨{ a with pc := next }, m⟩ =
        .ok a.owner.pool ⟨{ a with pc := next }, m⟩ := rfl
    have loaded : Run.loadConstant i ⟨{ a with pc := next }, m⟩ = .ok ()
        ⟨{ a with pc := next, stack := v :: a.stack, depth := a.depth + l.slots }, m'⟩ := by
      change Pool.literalAt? _ _ = _ at loads
      rw [Run.loadConstant, bind_of_ok pool, loads]
      dsimp only
      rw [bind_of_ok (onMachine_of_ok made), pushed]
    exact going_of_ok loaded
  | _ => cases loads

end Run

namespace Activation

open Outcome Run

variable {a : Activation} {m m' : Machine} {stack stack' : List Value} {v : Value}

theorem plays_going (act : RunM Unit) {o : Operation Label} {pops pushes : Nat}
    (straight : o.target? = none) (falls : o.fallsThrough = true)
    (same : ∀ start next r, perform start next (o.map fun _ => none) r =
      going act { r with activation := { r.activation with pc := next } })
    (moves : Value.totalSlots stack' = Value.totalSlots stack - pops + pushes)
    (done : Value.totalSlots stack' ≤ a.maxStack.toNat →
      ∀ pc, act ⟨a.holding pc stack, m⟩ = .ok () ⟨a.holding pc stack', m'⟩) :
    a.Plays [⟨o, pops, pushes⟩] stack m stack' m' := by
  refine .cons straight falls moves (fun room => .next fun start pc next => ?_) .nil
  rw [same]
  exact going_of_ok (done room next)

theorem plays_pushNull : a.Plays [⟨.pushNull, 0, 1⟩] stack m (.null :: stack) m := by
  refine plays_going (Run.push .null) rfl rfl (fun _ _ _ => rfl) ?_ fun room pc => ?_
  · simp [Value.slots, Nat.add_comm]
  · exact push_holding room

theorem plays_push {o : Operation Label} {l : Literal} (loads : o.loaded? a.owner.pool = some l)
    (made : Machine.ofLiteral l m = .ok v m') :
    a.Plays [⟨o, 0, l.slots⟩] stack m (v :: stack) m' := by
  have moves : Value.totalSlots (v :: stack) = Value.totalSlots stack + l.slots := by
    rw [Value.totalSlots_cons, ofLiteral_slots made, Nat.add_comm]
  have next (room : Value.totalSlots (v :: stack) ≤ a.maxStack.toNat) :
      a.Does (o.map fun _ => none) stack m (v :: stack) m' := by
    refine .next fun start pc next => ?_
    rw [moves] at room
    have loaded := perform_loads (a := a.holding pc stack) loads made room start next
    rw [Activation.holding_depth, ← moves] at loaded
    exact loaded
  obtain ⟨straight, falls⟩ := Operation.straight_of_loaded? loads
  exact .cons straight falls moves next .nil

theorem plays_load {kind : ValueKind} {slot : UInt16} {pushes : Nat}
    (held : a.locals[slot.toNat]? = some (some v)) (slots : v.slots = pushes) :
    a.Plays [⟨.load kind slot, 0, pushes⟩] stack m (v :: stack) m := by
  refine plays_going (Run.load slot) rfl rfl (fun _ _ _ => rfl) ?_ fun room pc => ?_
  · rw [Value.totalSlots_cons, slots, Nat.sub_zero, Nat.add_comm]
  · have got : (get : RunM Run) ⟨a.holding pc stack, m⟩ =
        .ok ⟨a.holding pc stack, m⟩ ⟨a.holding pc stack, m⟩ := rfl
    have loaded : (a.holding pc stack).load slot.toNat = .ok v := by
      simp only [Activation.load, Activation.holding_locals, held]
    rw [Run.load, bind_of_ok got]
    dsimp only
    rw [loaded]
    exact push_holding room

theorem plays_pop (one : v.slots = 1) : a.Plays [⟨.pop, 1, 0⟩] (v :: stack) m stack m := by
  refine plays_going (do let _ ← Run.pop) rfl rfl (fun _ _ _ => rfl) ?_ fun _ pc => ?_
  · simp [one]
  · rw [bind_of_ok pop_holding]
    rfl

theorem plays_dup (one : v.slots = 1) : a.Plays [⟨.dup, 1, 2⟩] (v :: stack) m (v :: v :: stack) m := by
  refine plays_going Run.dup rfl rfl (fun _ _ _ => rfl) ?_ fun room pc => ?_
  · simp only [Value.totalSlots_cons, one]
    omega
  · have less : Value.totalSlots (v :: stack) ≤ a.maxStack.toNat := by
      rw [Value.totalSlots_cons] at room
      omega
    rw [Run.dup, bind_of_ok pop_holding, bind_of_ok (push_holding less), push_holding room]

theorem stops_leave : a.Stops (.leave none) stack m (.ok none m) :=
  .leave fun _ _ next => ⟨a.holding next stack, rfl⟩

theorem stops_leaveValue {kind : ValueKind} : a.Stops (.leave (some kind)) (v :: stack) m
    (.ok (some v) m) := by
  refine .leave fun start pc next => ⟨a.holding next stack, ?_⟩
  have same : perform start next (.leave (some kind)) ⟨a.holding pc (v :: stack), m⟩ =
      (do return .leave (some (← Run.pop)) : RunM Flow) ⟨a.holding next (v :: stack), m⟩ := rfl
  rw [same, bind_of_ok pop_holding]
  rfl

end Activation
end ClassForge
