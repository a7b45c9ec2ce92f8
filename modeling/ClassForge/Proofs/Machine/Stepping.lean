import ClassForge.Proofs.Machine.Work

namespace ClassForge

namespace Activation

structure SameCode (a b : Activation) : Prop where
  owner : b.owner = a.owner
  bytes : b.bytes = a.bytes
  handlers : b.handlers = a.handlers
  maxStack : b.maxStack = a.maxStack

theorem SameCode.refl (a : Activation) : SameCode a a := ⟨rfl, rfl, rfl, rfl⟩

theorem SameCode.trans {a b c : Activation} (first : SameCode a b) (second : SameCode b c) :
    SameCode a c :=
  ⟨second.owner.trans first.owner, second.bytes.trans first.bytes,
    second.handlers.trans first.handlers, second.maxStack.trans first.maxStack⟩

def SamePlace (a b : Activation) : Prop := SameCode a b ∧ b.pc = a.pc

theorem kept_samePlace : KeptLocals SamePlace where
  refl a := ⟨.refl a, rfl⟩
  trans a b c first second := ⟨first.1.trans second.1, second.2.trans first.2⟩
  push a v b pushed := by
    simp only [push] at pushed
    split at pushed
    · cases pushed
    · split at pushed
      · cases pushed
      · cases pushed
        exact ⟨⟨rfl, rfl, rfl, rfl⟩, rfl⟩
  pop a v b popped := by
    rw [pop] at popped
    split at popped
    · split at popped
      · cases popped
      · cases popped
        exact ⟨⟨rfl, rfl, rfl, rfl⟩, rfl⟩
    · cases popped
  store a slot v b stored := by
    rw [store] at stored
    split at stored
    · cases stored
    · cases stored
      exact ⟨⟨rfl, rfl, rfl, rfl⟩, rfl⟩
  increment a slot delta b added := by
    rw [increment] at added
    split at added
    · cases added
      exact ⟨⟨rfl, rfl, rfl, rfl⟩, rfl⟩
    · cases added

end Activation

def Operation.writesLocal {τ : Type} : Operation τ → Bool
  | store .. | increment .. => true
  | _ => false

def Operation.putsField {τ : Type} : Operation τ → Bool
  | field .put _ => true
  | _ => false

def Operation.effects {τ : Type} (o : Operation τ) : Run.Effects := ⟨o.writesLocal, o.putsField⟩

def Flow.Suits {τ : Type} (o : Operation τ) : Flow → Prop
  | .next | .call _ => o.fallsThrough = true
  | .leave _ => True
  | .raise v => v.slots = 1

namespace Run

open Activation (SameCode SamePlace kept_samePlace)

variable {α β : Type}

theorem bind_ok {act : RunM α} {k : α → RunM β} {r r' : Run} {b : β}
    (done : (act >>= k) r = .ok b r') : ∃ a r₁, act r = .ok a r₁ ∧ k a r₁ = .ok b r' := by
  cases h : act r with
  | ok a r₁ =>
    simp only [Bind.bind, EStateM.bind, h] at done
    exact ⟨a, r₁, rfl, done⟩
  | error e r₁ =>
    simp only [Bind.bind, EStateM.bind, h] at done
    cases done

theorem bind_error {act : RunM α} {k : α → RunM β} {r r' : Run} {e : MachineError}
    (failed : (act >>= k) r = .error e r') :
    act r = .error e r' ∨ ∃ a r₁, act r = .ok a r₁ ∧ k a r₁ = .error e r' := by
  cases h : act r with
  | ok a r₁ =>
    simp only [Bind.bind, EStateM.bind, h] at failed
    exact .inr ⟨a, r₁, rfl, failed⟩
  | error e₁ r₁ =>
    simp only [Bind.bind, EStateM.bind, h] at failed
    cases failed
    exact .inl rfl

theorem going_ok {act : RunM Unit} {r r' : Run} {f : Flow} (done : going act r = .ok f r') :
    f = .next ∧ act r = .ok () r' := by
  obtain ⟨_, _, first, last⟩ := bind_ok done
  cases last
  exact ⟨rfl, first⟩

theorem answered_ok {value : Option Value} {r r' : Run} {f : Flow}
    (done : answered value r = .ok f r') : f = .next := by
  cases value with
  | none =>
    cases done
    rfl
  | some v =>
    obtain ⟨_, _, _, last⟩ := bind_ok done
    cases last
    rfl

theorem invoke_ok {i : Index} {receiver : Nat}
    {dispatch : MemberRef → List Value → MachineM Dispatch} {r r' : Run} {f : Flow}
    (done : invoke i receiver dispatch r = .ok f r') : f = .next ∨ ∃ callee, f = .call callee := by
  obtain ⟨m, _, _, done⟩ := bind_ok done
  obtain ⟨d, _, _, done⟩ := bind_ok done
  obtain ⟨args, _, _, done⟩ := bind_ok done
  obtain ⟨dispatched, _, _, done⟩ := bind_ok done
  cases dispatched with
  | answered v => exact .inl (answered_ok done)
  | entered callee =>
    cases done
    exact .inr ⟨callee, rfl⟩

theorem invokeKind_ok {kind : InvokeKind} {i : Index} {r r' : Run} {f : Flow}
    (done : invokeKind kind i r = .ok f r') : f = .next ∨ ∃ callee, f = .call callee := by
  cases kind <;> exact invoke_ok done

theorem popReference_ok {r r' : Run} {v : Value} (done : popReference r = .ok v r') :
    v.slots = 1 := by
  obtain ⟨u, _, _, done⟩ := bind_ok done
  cases u with
  | reference a | null =>
    cases done
    rfl
  | _ => cases done

theorem raise_ok {r r' : Run} {f : Flow} (done : raise r = .ok f r') :
    ∃ v, f = .raise v ∧ v.slots = 1 := by
  obtain ⟨v, _, popped, done⟩ := bind_ok done
  have slots := popReference_ok popped
  cases v with
  | null => cases done
  | _ =>
    cases done
    exact ⟨_, rfl, slots⟩

/-- The instruction goes on at `next` first, and then works without going anywhere. -/
def Straight (start next : Nat) (o : Operation (Option Int16)) : Prop :=
  ∃ work : RunM Flow, perform start next o = (do setPc next; work) ∧
    Operates o.effects work ∧
    ∀ r f r', work r = .ok f r' → f.Suits o

theorem straight_going {start next : Nat} {o : Operation (Option Int16)} {act : RunM Unit}
    (falls : o.fallsThrough = true) (same : perform start next o = (do setPc next; going act))
    (operates : Operates o.effects act) : Straight start next o := by
  refine ⟨_, same, operates_going operates, ?_⟩
  intro r f r' done
  rw [(going_ok done).1]
  exact falls

theorem straight_invoke {start next : Nat} {o : Operation (Option Int16)} (kind : InvokeKind)
    (i : Index) (falls : o.fallsThrough = true)
    (same : perform start next o = (do setPc next; invokeKind kind i)) : Straight start next o := by
  refine ⟨_, same, operates_invokeKind kind i, ?_⟩
  intro r f r' done
  rcases invokeKind_ok done with rfl | ⟨callee, rfl⟩
  · exact falls
  · exact falls

theorem straight_perform (start next : Nat) {o : Operation (Option Int16)}
    (straight : o.target? = none) : Straight start next o := by
  cases o with
  | branch c d | goto d => cases straight
  | nop =>
    refine ⟨_, rfl, .pure _, ?_⟩
    intro r f r' done
    cases done
    rfl
  | pushNull => exact straight_going rfl rfl (.push _)
  | pushInt v => exact straight_going rfl rfl (operates_pushInt _)
  | pushLong one => exact straight_going rfl rfl (operates_pushLong _)
  | pushFloat v => exact straight_going rfl rfl (operates_pushFloat _)
  | pushDouble one => exact straight_going rfl rfl (operates_pushDouble _)
  | loadConstant i | loadWideConstant i =>
    exact straight_going rfl rfl (operates_loadConstant i)
  | load k slot => exact straight_going rfl rfl (operates_load slot)
  | store k slot => exact straight_going rfl rfl (operates_store rfl slot)
  | increment slot delta =>
    exact straight_going rfl rfl (.increment rfl _ _)
  | arrayLoad kind => exact straight_going rfl rfl operates_arrayLoad
  | arrayStore kind => exact straight_going rfl rfl (operates_arrayStore kind)
  | arrayLength => exact straight_going rfl rfl operates_arrayLength
  | newArray t => exact straight_going rfl rfl (operates_newArray _)
  | newReferenceArray i =>
    refine straight_going rfl rfl ?_
    apply (operates_className i).bind
    intro name
    apply (operates_componentNamed name).bind
    intro component
    exact operates_newArray component
  | pop =>
    exact straight_going rfl rfl (Operates.pop.bind fun _ => .pure _)
  | pop2 => exact straight_going rfl rfl operates_pop2
  | dup => exact straight_going rfl rfl operates_dup
  | dupX1 => exact straight_going rfl rfl operates_dupX1
  | dup2 => exact straight_going rfl rfl operates_dup2
  | swap => exact straight_going rfl rfl operates_swap
  | arithmetic kind o => exact straight_going rfl rfl (operates_arithmetic kind o)
  | negate kind => exact straight_going rfl rfl (operates_negate kind)
  | shift long s => exact straight_going rfl rfl (operates_shift long s)
  | bitwise long o => exact straight_going rfl rfl (operates_bitwise long o)
  | convert c => exact straight_going rfl rfl (operates_convert c)
  | compare o => exact straight_going rfl rfl (operates_compare o)
  | field access i =>
    refine straight_going rfl rfl (operates_field ?_ i)
    rintro rfl
    rfl
  | new i => exact straight_going rfl rfl (operates_new i)
  | checkCast i => exact straight_going rfl rfl (operates_checkCast i)
  | instanceOf i => exact straight_going rfl rfl (operates_instanceOf i)
  | invoke kind i => exact straight_invoke kind i rfl rfl
  | invokeInterface i n => exact straight_invoke .virtual i rfl rfl
  | leave k =>
    cases k with
    | none =>
      refine ⟨_, rfl, .pure _, ?_⟩
      intro r f r' done
      cases done
      exact True.intro
    | some k =>
      refine ⟨_, rfl, Operates.pop.bind fun _ => .pure _, ?_⟩
      intro r f r' done
      obtain ⟨v, _, _, last⟩ := bind_ok done
      cases last
      exact True.intro
  | raise =>
    refine ⟨_, rfl, operates_raise, ?_⟩
    intro r f r' done
    obtain ⟨v, rfl, slots⟩ := raise_ok done
    exact slots

theorem step_of_decode {r : Run} {o : Operation (Option Int16)} {next : Nat}
    (read : Operation.decode r.activation.bytes r.activation.pc = .ok (o, next)) :
    step r = perform r.activation.pc next o r := by
  have got : (get : RunM Run) r = .ok r r := rfl
  simp only [step, Bind.bind, EStateM.bind, got, read]

theorem setPc_bind {work : RunM α} (pc : Nat) (r : Run) : (do setPc pc; work) r =
    work { r with activation := { r.activation with pc := pc } } := rfl

section

variable {r r' : Run} {o : Operation (Option Int16)} {next : Nat}

theorem step_straight {f : Flow}
    (read : Operation.decode r.activation.bytes r.activation.pc = .ok (o, next))
    (straight : o.target? = none) (done : step r = .ok f r') :
    SameCode r.activation r'.activation ∧ r'.activation.pc = next ∧ f.Suits o := by
  obtain ⟨work, same, operates, suits⟩ := straight_perform r.activation.pc next straight
  rw [step_of_decode read, same, setPc_bind] at done
  have kept := operates.keepsLocals kept_samePlace.toKept fun _ => kept_samePlace
  obtain ⟨code, place⟩ : SamePlace _ _ := kept.ok _ _ _ done
  have moved : SameCode r.activation { r.activation with pc := next } := ⟨rfl, rfl, rfl, rfl⟩
  exact ⟨moved.trans code, place, suits _ _ _ done⟩

theorem step_straight_error {e : MachineError}
    (read : Operation.decode r.activation.bytes r.activation.pc = .ok (o, next))
    (straight : o.target? = none) (failed : step r = .error e r') : e.ordinary = true := by
  obtain ⟨work, same, operates, -⟩ := straight_perform r.activation.pc next straight
  rw [step_of_decode read, same, setPc_bind] at failed
  exact (operates.keepsLocals kept_samePlace.toKept fun _ => kept_samePlace).error _ _ _ failed

theorem jump_ok {start : Nat} {d : Int16} {taken : Bool} {u : Unit}
    (done : jump start next (some d) taken r = .ok u r') :
    SameCode r.activation r'.activation ∧
      (taken = true ∧ (start : Int) + d.toInt = r'.activation.pc ∨
        taken = false ∧ r'.activation.pc = next) := by
  obtain ⟨_, _, got, done⟩ := bind_ok done
  cases got
  cases taken with
  | false =>
    cases done
    exact ⟨⟨rfl, rfl, rfl, rfl⟩, .inr ⟨rfl, rfl⟩⟩
  | true =>
    dsimp only at done
    rw [if_pos rfl] at done
    split at done
    · cases done
    · rename_i inside
      cases done
      refine ⟨⟨rfl, rfl, rfl, rfl⟩, .inl ⟨rfl, ?_⟩⟩
      show _ = ((((start : Int) + d.toInt).toNat : Nat) : Int)
      omega

theorem jump_error {start : Nat} {d : Int16} {taken : Bool} {e : MachineError}
    (inside : 0 ≤ (start : Int) + d.toInt ∧ (start : Int) + d.toInt < r.activation.bytes.size) :
    jump start next (some d) taken r ≠ .error e r' := by
  intro failed
  rcases bind_error failed with got | ⟨_, _, got, failed⟩
  · cases got
  · cases got
    cases taken with
    | false => cases failed
    | true =>
      dsimp only at failed
      rw [if_pos rfl, if_neg (by omega)] at failed
      cases failed

theorem going_error {act : RunM Unit} {e : MachineError} (failed : going act r = .error e r') :
    act r = .error e r' := by
  rcases bind_error failed with first | ⟨_, _, _, last⟩
  · exact first
  · cases last

theorem step_branch {f : Flow} {d : Int16}
    (read : Operation.decode r.activation.bytes r.activation.pc = .ok (o, next))
    (target : o.target? = some (some d)) (done : step r = .ok f r') :
    f = .next ∧ SameCode r.activation r'.activation ∧
      ((r.activation.pc : Int) + d.toInt = r'.activation.pc ∨
        o.fallsThrough = true ∧ r'.activation.pc = next) := by
  rw [step_of_decode read] at done
  cases o with
  | branch c t =>
    cases target
    obtain ⟨flow, done⟩ := going_ok done
    obtain ⟨taken, r₁, tested, done⟩ := bind_ok done
    obtain ⟨code, _⟩ : SamePlace _ _ := ((operates_test c).keeps kept_samePlace.toKept).ok _ _ _ tested
    have moved : SameCode r.activation { r.activation with pc := r.activation.pc + 1 } :=
      ⟨rfl, rfl, rfl, rfl⟩
    obtain ⟨code', place⟩ := jump_ok done
    refine ⟨flow, (moved.trans code).trans code', ?_⟩
    rcases place with ⟨_, there⟩ | ⟨_, there⟩
    · exact .inl there
    · exact .inr ⟨rfl, there⟩
  | goto t =>
    cases target
    obtain ⟨flow, done⟩ := going_ok done
    have moved : SameCode r.activation { r.activation with pc := r.activation.pc + 1 } :=
      ⟨rfl, rfl, rfl, rfl⟩
    obtain ⟨code, place⟩ := jump_ok done
    refine ⟨flow, moved.trans code, ?_⟩
    rcases place with ⟨_, there⟩ | ⟨always, _⟩
    · exact .inl there
    · cases always
  | _ => cases target

theorem step_branch_error {e : MachineError} {d : Int16}
    (read : Operation.decode r.activation.bytes r.activation.pc = .ok (o, next))
    (target : o.target? = some (some d))
    (inside : 0 ≤ (r.activation.pc : Int) + d.toInt ∧
      (r.activation.pc : Int) + d.toInt < r.activation.bytes.size)
    (failed : step r = .error e r') : e.ordinary = true := by
  rw [step_of_decode read] at failed
  cases o with
  | branch c t =>
    cases target
    rcases bind_error (going_error failed) with failed | ⟨taken, r₁, tested, failed⟩
    · exact ((operates_test c).keeps kept_samePlace.toKept).error _ _ _ failed
    · obtain ⟨code, _⟩ : SamePlace _ _ := ((operates_test c).keeps kept_samePlace.toKept).ok _ _ _ tested
      have size : r₁.activation.bytes.size = r.activation.bytes.size :=
        congrArg Array.size code.bytes
      exact absurd failed (jump_error (by rw [size]; exact inside))
  | goto t =>
    cases target
    exact absurd (going_error failed) (jump_error inside)
  | _ => cases target

theorem jump_fault {start : Nat} {distance : Option Int16} {taken : Bool} {e : MachineError}
    (failed : jump start next distance taken r = .error e r') : ∃ v, e = .verify v := by
  rcases bind_error failed with got | ⟨_, _, got, failed⟩
  · cases got
  · cases got
    cases distance with
    | none =>
      cases failed
      exact ⟨_, rfl⟩
    | some d =>
      cases taken with
      | false => cases failed
      | true =>
        dsimp only at failed
        rw [if_pos rfl] at failed
        split at failed
        · cases failed
          exact ⟨_, rfl⟩
        · cases failed

theorem step_of_fault {f : Operation.DecodeFault}
    (read : Operation.decode r.activation.bytes r.activation.pc = .error f) :
    step r = .error (.verify (unreadable r.activation.pc f)) r := by
  have got : (get : RunM Run) r = .ok r r := rfl
  simp only [step, Bind.bind, EStateM.bind, got, read]
  rfl

/-- Whatever the code is, an exception is no error of the step that throws it. -/
theorem step_not_thrown {e : MachineError} (failed : step r = .error e r') (v : Value) :
    e ≠ .thrown v := by
  intro thrown
  -- Jumps of unknown distance are faults of the code, and all else fails with ordinary errors.
  have apart : e.ordinary = false := by
    rw [thrown]
    rfl
  cases read : Operation.decode r.activation.bytes r.activation.pc with
  | error f =>
    rw [step_of_fault read] at failed
    cases failed
    cases thrown
  | ok found =>
    obtain ⟨o, next⟩ := found
    cases target : o.target? with
    | none =>
      rw [step_straight_error read target failed] at apart
      cases apart
    | some t =>
      rw [step_of_decode read] at failed
      cases o with
      | branch c d =>
        rcases bind_error (going_error failed) with failed | ⟨taken, r₁, _, failed⟩
        · rw [((operates_test c).keeps kept_samePlace.toKept).error _ _ _ failed] at apart
          cases apart
        · obtain ⟨u, rfl⟩ := jump_fault failed
          cases thrown
      | goto d =>
        obtain ⟨u, rfl⟩ := jump_fault (going_error failed)
        cases thrown
      | _ => cases target

theorem step_raise {v : Value} (done : step r = .ok (.raise v) r') : v.slots = 1 := by
  cases read : Operation.decode r.activation.bytes r.activation.pc with
  | error f =>
    rw [step_of_fault read] at done
    cases done
  | ok found =>
    obtain ⟨o, next⟩ := found
    cases target : o.target? with
    | none => exact (step_straight read target done).2.2
    | some t =>
      rw [step_of_decode read] at done
      cases o with
      | branch c d | goto d => cases (going_ok done).1
      | _ => cases target

end

end Run

end ClassForge
