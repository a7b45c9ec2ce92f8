import ClassForge.Machine.Step
import ClassForge.Proofs.Machine.Faults

namespace ClassForge

/-- A relation between what a method is before and after, which holds of all that instructions
do to its operands. -/
structure Kept (R : Activation → Activation → Prop) : Prop where
  refl : ∀ a, R a a
  trans : ∀ a b c, R a b → R b c → R a c
  push : ∀ a v b, a.push v = .ok b → R a b
  pop : ∀ a v b, a.pop = .ok (v, b) → R a b

structure KeptLocals (R : Activation → Activation → Prop) : Prop extends Kept R where
  store : ∀ a slot v b, a.store slot v = .ok b → R a b
  increment : ∀ a slot delta b, a.increment slot delta = .ok b → R a b

namespace Activation

/-- There is an operand that cannot be counted when it is put on or taken off. -/
def Overflows (a : Activation) : Prop :=
  (∃ v, a.push v = .error .slotOverflow) ∨ a.pop = .error .slotOverflow

theorem push_error {a : Activation} {v : Value} {e : MachineError} (refused : a.push v = .error e) :
    e.ordinary = true ∧ (e.overflows = true → a.Overflows) := by
  have whole := refused
  simp only [push] at refused
  split at refused
  · cases refused
    exact ⟨rfl, fun _ => .inl ⟨v, whole⟩⟩
  · split at refused
    · cases refused
      exact ⟨rfl, nofun⟩
    · cases refused

theorem pop_error {a : Activation} {e : MachineError} (refused : a.pop = .error e) :
    e.ordinary = true ∧ (e.overflows = true → a.Overflows) := by
  have whole := refused
  rw [pop] at refused
  split at refused
  · split at refused
    · cases refused
      exact ⟨rfl, fun _ => .inr whole⟩
    · cases refused
  · cases refused
    exact ⟨rfl, nofun⟩

end Activation

namespace Run

open Machine (Orderly)

variable {R : Activation → Activation → Prop} {α β : Type}

section

variable {r r' : Run} {e : MachineError}

theorem onMachine_eq_ok {act : MachineM α} {a : α} (done : onMachine act r = .ok a r') :
    act r.machine = .ok a r'.machine ∧ r'.activation = r.activation := by
  rw [onMachine] at done
  split at done
  · rename_i ran
    cases done
    exact ⟨ran, rfl⟩
  · cases done

theorem onMachine_eq_error {act : MachineM α} (failed : onMachine act r = .error e r') :
    act r.machine = .error e r'.machine := by
  rw [onMachine] at failed
  split at failed
  · cases failed
  · rename_i ran
    cases failed
    exact ran

theorem onActivation_eq_ok {f : Activation → Except MachineError Activation} {u : Unit}
    (done : onActivation f r = .ok u r') : f r.activation = .ok r'.activation := by
  rw [onActivation] at done
  split at done
  · rename_i changed
    cases done
    exact changed
  · cases done

theorem onActivation_eq_error {f : Activation → Except MachineError Activation}
    (failed : onActivation f r = .error e r') : f r.activation = .error e := by
  rw [onActivation] at failed
  split at failed
  · cases failed
  · rename_i refused
    cases failed
    exact refused

theorem pop_ok {v : Value} (done : pop r = .ok v r') :
    r.activation.pop = .ok (v, r'.activation) ∧ r'.machine = r.machine := by
  rw [pop] at done
  split at done
  · rename_i popped
    cases done
    exact ⟨popped, rfl⟩
  · cases done

theorem pop_failed (failed : pop r = .error e r') : r.activation.pop = .error e := by
  rw [pop] at failed
  split at failed
  · cases failed
  · rename_i refused
    cases failed
    exact refused

end

/-- The step relates the method before it to the method behind it, and fails with ordinary errors
only. When slots cannot be counted, then those of an operand of a method it has got to. -/
structure Keeps (R : Activation → Activation → Prop) (act : RunM α) : Prop where
  ok : ∀ r a r', act r = .ok a r' → R r.activation r'.activation
  error : ∀ r e r', act r = .error e r' → e.ordinary = true
  overflow : ∀ r e r', act r = .error e r' → e.overflows = true →
    ∃ a, R r.activation a ∧ a.Overflows

theorem keeps_pure (kept : Kept R) (a : α) : Keeps R (pure a) := by
  constructor
  · intro r a' r' done
    cases done
    exact kept.refl _
  · intro r e r' done
    cases done
  · intro r e r' done
    cases done

theorem keeps_throw {e : MachineError} (orderly : e.orderly = true) :
    Keeps R (throw e : RunM α) := by
  obtain ⟨ordinary, counted⟩ := MachineError.orderly_iff.1 orderly
  constructor
  · intro r a r' done
    cases done
  · intro r e' r' done
    cases done
    exact ordinary
  · intro r e' r' done lost
    cases done
    rw [counted] at lost
    cases lost

theorem keeps_get (kept : Kept R) : Keeps R get := by
  constructor
  · intro r a r' done
    cases done
    exact kept.refl _
  · intro r e r' done
    cases done
  · intro r e r' done
    cases done

theorem Keeps.bind (kept : Kept R) {act : RunM α} {k : α → RunM β} (first : Keeps R act)
    (rest : ∀ a, Keeps R (k a)) : Keeps R (act >>= k) := by
  constructor
  · intro r b r' done
    cases h : act r with
    | ok a r₁ =>
      simp only [Bind.bind, EStateM.bind, h] at done
      exact kept.trans _ _ _ (first.ok r a r₁ h) ((rest a).ok r₁ b r' done)
    | error e₁ r₁ =>
      simp only [Bind.bind, EStateM.bind, h] at done
      cases done
  · intro r e r' done
    cases h : act r with
    | ok a r₁ =>
      simp only [Bind.bind, EStateM.bind, h] at done
      exact (rest a).error r₁ e r' done
    | error e₁ r₁ =>
      simp only [Bind.bind, EStateM.bind, h] at done
      cases done
      exact first.error r e r' h
  · intro r e r' done lost
    cases h : act r with
    | ok a r₁ =>
      simp only [Bind.bind, EStateM.bind, h] at done
      obtain ⟨b, there, overflows⟩ := (rest a).overflow r₁ e r' done lost
      exact ⟨b, kept.trans _ _ _ (first.ok r a r₁ h) there, overflows⟩
    | error e₁ r₁ =>
      simp only [Bind.bind, EStateM.bind, h] at done
      cases done
      exact first.overflow r e r' h lost

theorem keeps_onMachine (kept : Kept R) {act : MachineM α} (orderly : Orderly act) :
    Keeps R (onMachine act) := by
  constructor
  · intro r a r' done
    rw [(onMachine_eq_ok done).2]
    exact kept.refl _
  · intro r e r' failed
    exact (MachineError.orderly_iff.1 (orderly _ _ _ (onMachine_eq_error failed))).1
  · intro r e r' failed lost
    rw [(MachineError.orderly_iff.1 (orderly _ _ _ (onMachine_eq_error failed))).2] at lost
    cases lost

theorem keeps_onActivation (kept : Kept R) {f : Activation → Except MachineError Activation}
    (ok : ∀ a b, f a = .ok b → R a b)
    (error : ∀ a e, f a = .error e → e.ordinary = true ∧ (e.overflows = true → a.Overflows)) :
    Keeps R (onActivation f) := by
  constructor
  · intro r a r' done
    exact ok _ _ (onActivation_eq_ok done)
  · intro r e r' failed
    exact (error _ _ (onActivation_eq_error failed)).1
  · intro r e r' failed lost
    exact ⟨_, kept.refl _, (error _ _ (onActivation_eq_error failed)).2 lost⟩

theorem keeps_push (kept : Kept R) (v : Value) : Keeps R (push v) := by
  apply keeps_onActivation kept
  · exact fun a b pushed => kept.push a v b pushed
  · exact fun a e refused => Activation.push_error refused

theorem keeps_pop (kept : Kept R) : Keeps R pop := by
  constructor
  · intro r v r' done
    exact kept.pop _ _ _ (pop_ok done).1
  · intro r e r' failed
    exact (Activation.pop_error (pop_failed failed)).1
  · intro r e r' failed lost
    exact ⟨_, kept.refl _, (Activation.pop_error (pop_failed failed)).2 lost⟩

theorem keeps_store (kept : KeptLocals R) (slot : Nat) (v : Value) :
    Keeps R (onActivation (·.store slot v)) := by
  apply keeps_onActivation kept.toKept
  · exact fun a b stored => kept.store a slot v b stored
  · intro a e refused
    rw [Activation.store] at refused
    split at refused
    · cases refused
      exact ⟨rfl, nofun⟩
    · cases refused

theorem keeps_increment (kept : KeptLocals R) (slot : Nat) (delta : Int32) :
    Keeps R (onActivation (·.increment slot delta)) := by
  apply keeps_onActivation kept.toKept
  · exact fun a b added => kept.increment a slot delta b added
  · intro a e refused
    rw [Activation.increment] at refused
    split at refused
    · cases refused
    · cases refused
      exact ⟨rfl, nofun⟩

def forgetting (r : Run) : Run := { r with machine := r.machine.forgetting }

structure Effects where
  locals : Bool := false
  fields : Bool := false

/-- Steps on operands and on the machine, and on what else is said. -/
inductive Operates (writes : Effects) : {α : Type} → RunM α → Prop where
  | pure {α : Type} (a : α) : Operates writes (pure a : RunM α)
  | throw {α : Type} {e : MachineError} (orderly : e.orderly = true) :
    Operates writes (throw e : RunM α)
  | look {α : Type} {k : Run → RunM α} (same : ∀ r, k r = k r.forgetting)
    (next : ∀ r, Operates writes (k r)) : Operates writes (get >>= k)
  | onMachine {α : Type} {act : MachineM α} (operates : Machine.Operates (·.orderly) act) :
    Operates writes (onMachine act)
  | change (allowed : writes.fields = true) (a : Address) (f : Object → Object) :
    Operates writes (onMachine (Machine.change a f))
  | push (v : Value) : Operates writes (push v)
  | pop : Operates writes pop
  | store (allowed : writes.locals = true) (slot : Nat) (v : Value) :
    Operates writes (onActivation (·.store slot v))
  | increment (allowed : writes.locals = true) (slot : Nat) (delta : Int32) :
    Operates writes (onActivation (·.increment slot delta))
  | bind {α β : Type} {act : RunM α} {k : α → RunM β} (first : Operates writes act)
    (rest : ∀ a, Operates writes (k a)) : Operates writes (act >>= k)

variable {writes : Effects}

theorem Operates.keepsLocals (kept : Kept R) (locals : writes.locals = true → KeptLocals R)
    {act : RunM α} (operates : Operates writes act) : Keeps R act := by
  induction operates with
  | pure a => exact keeps_pure kept a
  | throw orderly => exact keeps_throw orderly
  | look _ _ ih => exact (keeps_get kept).bind kept ih
  | onMachine operates => exact keeps_onMachine kept operates.orderly
  | change _ a f => exact keeps_onMachine kept fun _ _ _ failed => by cases failed
  | push v => exact keeps_push kept v
  | pop => exact keeps_pop kept
  | store allowed slot v => exact keeps_store (locals allowed) slot v
  | increment allowed slot delta => exact keeps_increment (locals allowed) slot delta
  | bind _ _ ih ihrest => exact ih.bind kept ihrest

theorem Operates.keeps (kept : Kept R) {act : RunM α} (operates : Operates {} act) :
    Keeps R act := by
  have locals : false = true → KeptLocals R := nofun
  exact operates.keepsLocals kept locals

def behind (result : EStateM.Result MachineError Run α) : Run :=
  match result with
  | .ok _ r | .error _ r => r

theorem behind_onMachine (act : MachineM α) (r : Run) :
    (behind (onMachine act r)).machine = Machine.behind (act r.machine) := by
  unfold onMachine
  cases act r.machine <;> rfl

theorem machine_onActivation (f : Activation → Except MachineError Activation) (r : Run) :
    (behind (onActivation f r)).machine = r.machine := by
  unfold onActivation
  cases f r.activation <;> rfl

theorem machine_pop (r : Run) : (behind (pop r)).machine = r.machine := by
  unfold pop
  cases r.activation.pop <;> rfl

def SparesPlain (act : RunM α) : Prop :=
  ∀ r : Run, r.machine.heap.KeepsPlain (behind (act r)).machine.heap

theorem SparesPlain.bind {act : RunM α} {k : α → RunM β} (first : SparesPlain act)
    (rest : ∀ a, SparesPlain (k a)) : SparesPlain (act >>= k) := by
  intro r
  change r.machine.heap.KeepsPlain (behind (EStateM.bind act k r)).machine.heap
  have kept := first r
  unfold EStateM.bind
  cases done : act r with
  | ok a r₁ =>
    rw [done] at kept
    exact kept.trans (rest a r₁)
  | error e r₁ =>
    rw [done] at kept
    exact kept

theorem sparesPlain_of_machine {act : RunM α} (same : ∀ r, (behind (act r)).machine = r.machine) :
    SparesPlain act := by
  intro r
  rw [same]
  exact .refl _

theorem Operates.sparesPlain {act : RunM α} (operates : Operates writes act)
    (spares : writes.fields = false) : SparesPlain act := by
  induction operates with
  | pure a | throw orderly => exact fun _ => .refl _
  | look _ _ ih => exact fun r => ih r r
  | onMachine operates =>
    intro r
    rw [behind_onMachine]
    exact operates.keepsPlain r.machine
  | change allowed a f =>
    rw [spares] at allowed
    cases allowed
  | push | store | increment => exact sparesPlain_of_machine (machine_onActivation _)
  | pop => exact sparesPlain_of_machine machine_pop
  | bind _ _ ih ihrest => exact ih.bind ihrest

theorem operates_violation {v : Violation} (ordinary : v.misread = false) :
    Operates writes (violation v : RunM α) :=
  .throw (MachineError.orderly_verify ordinary)

theorem operates_lift {x : Except MachineError α} (orderly : ∀ e, x = .error e → e.orderly = true) :
    Operates writes (lift x) := by
  cases x with
  | ok a => exact .pure a
  | error e => exact .throw (orderly e rfl)

theorem operates_popMany (n : Nat) : Operates writes (popMany n) := by
  have go : ∀ args, Operates writes (popMany.go n args) := by
    induction n with
    | zero =>
      intro args
      exact .pure _
    | succ n ih =>
      intro args
      apply Operates.pop.bind
      intro v
      exact ih (v :: args)
  exact go []

theorem operates_popInt : Operates writes popInt := by
  apply Operates.pop.bind
  intro v
  cases v with
  | int n => exact .pure n
  | _ => exact operates_violation rfl

theorem operates_popLong : Operates writes popLong := by
  apply Operates.pop.bind
  intro v
  cases v with
  | long n => exact .pure n
  | _ => exact operates_violation rfl

theorem operates_popFloat : Operates writes popFloat := by
  apply Operates.pop.bind
  intro v
  cases v with
  | float b => exact .pure _
  | _ => exact operates_violation rfl

theorem operates_popDouble : Operates writes popDouble := by
  apply Operates.pop.bind
  intro v
  cases v with
  | double b => exact .pure _
  | _ => exact operates_violation rfl

theorem operates_popReference : Operates writes popReference := by
  apply Operates.pop.bind
  intro v
  cases v with
  | reference a => exact .pure _
  | null => exact .pure _
  | _ => exact operates_violation rfl

theorem operates_pushInt (v : Int32) : Operates writes (pushInt v) := .push _

theorem operates_pushLong (v : Int64) : Operates writes (pushLong v) := .push _

theorem operates_pushFloat (bits : Nat) : Operates writes (pushFloat bits) := .push _

theorem operates_pushDouble (bits : Nat) : Operates writes (pushDouble bits) := .push _

theorem operates_load (slot : UInt16) : Operates writes (load slot) := by
  refine .look (fun _ => rfl) fun r => ?_
  split
  · exact .push _
  · rename_i refused
    apply Operates.throw
    rw [Activation.load] at refused
    split at refused
    · cases refused
    · cases refused
      rfl
    · cases refused
      rfl

theorem operates_store (allowed : writes.locals = true) (slot : UInt16) :
    Operates writes (store slot) := by
  apply Operates.pop.bind
  intro v
  exact .store allowed _ v

theorem operates_heap : Operates writes heap := .look (fun _ => rfl) fun _ => .pure _

theorem operates_pool : Operates writes pool := .look (fun _ => rfl) fun _ => .pure _

theorem operates_member (i : Index) : Operates writes (member i) := by
  apply operates_pool.bind
  intro p
  split
  · exact .pure _
  · exact operates_violation rfl

theorem operates_className (i : Index) : Operates writes (className i) := by
  apply operates_pool.bind
  intro p
  split
  · exact .pure _
  · exact operates_violation rfl

theorem operates_loadConstant (i : Index) : Operates writes (loadConstant i) := by
  apply operates_pool.bind
  intro p
  split
  · apply (Operates.onMachine (Machine.operates_ofLiteral _)).bind
    intro v
    exact .push v
  · exact operates_violation rfl

end Run
end ClassForge
