import ClassForge.Machine.Exec
import ClassForge.Proofs.Machine.Stepping
import ClassForge.Proofs.Outcome
import Mathlib.Logic.Relation

namespace ClassForge

namespace Activation

variable {f : Activation} {m m' : Machine} {start : Nat} {v : Value}

theorem catching_eq (f : Activation) (start : Nat) (v : Value) (m : Machine) :
    f.catching start v m = match f.handlerAmong? m.heap start v f.handlers with
      | .error e => .error e m
      | .ok none => .error (.thrown v) m
      | .ok (some e) =>
        let m := { m with journal := m.journal.push (.caught (m.heap.className v) e.handler.toNat) }
        match { f with stack := [], depth := 0 }.push v with
        | .error e => .error e m
        | .ok f => .ok { f with pc := e.handler.toNat } m := by
  have opened : f.catching start v m = (match f.handlerAmong? m.heap start v f.handlers with
      | .error e => throw e
      | .ok none => throw (.thrown v)
      | .ok (some e) => do
        Machine.note (.caught (m.heap.className v) e.handler.toNat)
        match { f with stack := [], depth := 0 }.push v with
        | .error e => throw e
        | .ok f => return { f with pc := e.handler.toNat } : MachineM Activation) m := rfl
  rw [opened]
  cases f.handlerAmong? m.heap start v f.handlers with
  | error e => rfl
  | ok found =>
    cases found with
    | none => rfl
    | some e =>
      show (match { f with stack := [], depth := 0 }.push v with
        | .error e => throw e
        | .ok f => return { f with pc := e.handler.toNat } : MachineM Activation) _ = _
      dsimp only
      cases { f with stack := [], depth := 0 }.push v with
      | error e => rfl
      | ok f => rfl

theorem handlerAmong_error {h : Heap} {handlers : List Handler} {e : MachineError}
    (failed : f.handlerAmong? h start v handlers = .error e) : ∃ i, e = .verify (.notClass i) := by
  induction handlers with
  | nil => cases failed
  | cons first rest ih =>
    rw [handlerAmong?] at failed
    split at failed
    · exact ih failed
    · split at failed
      · cases failed
      · split at failed
        · cases failed
          exact ⟨_, rfl⟩
        · split at failed
          · cases failed
          · exact ih failed

theorem catching_ok {g : Activation} (done : f.catching start v m = .ok g m') :
    ∃ e, f.handlerAmong? m.heap start v f.handlers = .ok (some e) ∧ SameCode f g ∧
      g.pc = e.handler.toNat ∧ g.depth = v.slots := by
  rw [catching_eq] at done
  split at done
  · cases done
  · cases done
  · rename_i e found
    split at done
    · cases done
    · rename_i pushed
      cases done
      simp only [push] at pushed
      split at pushed
      · cases pushed
      · split at pushed
        · cases pushed
        · cases pushed
          exact ⟨e, found, ⟨rfl, rfl, rfl, rfl⟩, rfl, Nat.zero_add _⟩

theorem catching_error {e : MachineError} (failed : f.catching start v m = .error e m') :
    e = .thrown v ∧ f.handlerAmong? m.heap start v f.handlers = .ok none ∨ e.ordinary = true := by
  rw [catching_eq] at failed
  split at failed
  · rename_i refused
    cases failed
    obtain ⟨i, rfl⟩ := handlerAmong_error refused
    exact .inr rfl
  · rename_i found
    cases failed
    exact .inl ⟨rfl, found⟩
  · split at failed
    · rename_i refused
      cases failed
      exact .inr (push_error refused).1
    · cases failed

end Activation

namespace Run

/-- The instruction at hand comes to its end, a call with what it gives. What is called may take as
much fuel as said. -/
inductive Proceeds (fuel : Nat) (r : Run) : Run → Prop where
  | next {r' : Run} (stepped : step r = .ok .next r') : Proceeds fuel r r'
  | called {r₁ r' : Run} {callee : Activation} {v : Option Value} {m : Machine} {f : Flow}
    (stepped : step r = .ok (.call callee) r₁) (ran : callee.exec fuel r₁.machine = .ok v m)
    (answer : answered v { r₁ with machine := m } = .ok f r') : Proceeds fuel r r'

inductive Throws (fuel : Nat) (r : Run) : Value → Run → Prop where
  | raised {v : Value} {r' : Run} (stepped : step r = .ok (.raise v) r') : Throws fuel r v r'
  | passed {r₁ : Run} {callee : Activation} {v : Value} {m : Machine}
    (stepped : step r = .ok (.call callee) r₁)
    (ran : callee.exec fuel r₁.machine = .error (.thrown v) m) :
    Throws fuel r v { r₁ with machine := m }

/-- It goes on at a handler for what it has thrown. -/
def Catches (fuel : Nat) (r : Run) (v : Value) (r' : Run) : Prop :=
  ∃ r₁, Throws fuel r v r₁ ∧
    r₁.activation.catching r.activation.pc v r₁.machine = .ok r'.activation r'.machine

def Turn (fuel : Nat) (r r' : Run) : Prop := Proceeds fuel r r' ∨ ∃ v, Catches fuel r v r'

def Turns : Run → Run → Prop := Relation.ReflTransGen fun r r' => ∃ fuel, Turn fuel r r'

/-- How a running method ends, with what its code gives then. -/
inductive Ends (fuel : Nat) (r : Run) : EStateM.Result MachineError Machine (Option Value) → Prop
    where
  | left {v : Option Value} {r' : Run} (stepped : step r = .ok (.leave v) r') :
    Ends fuel r (.ok v r'.machine)
  | failed {e : MachineError} {r' : Run} (stepped : step r = .error e r') :
    Ends fuel r (.error e r'.machine)
  | uncaught {v : Value} {r₁ : Run} {e : MachineError} {m : Machine} (threw : Throws fuel r v r₁)
    (escaped : r₁.activation.catching r.activation.pc v r₁.machine = .error e m) :
    Ends fuel r (.error e m)
  | calleeFailed {r₁ : Run} {callee : Activation} {e : MachineError} {m : Machine}
    (stepped : step r = .ok (.call callee) r₁) (ran : callee.exec fuel r₁.machine = .error e m)
    (fatal : ∀ v, e ≠ .thrown v) : Ends fuel r (.error e m)
  | unanswered {r₁ r' : Run} {callee : Activation} {v : Option Value} {m : Machine}
    {e : MachineError} (stepped : step r = .ok (.call callee) r₁)
    (ran : callee.exec fuel r₁.machine = .ok v m)
    (answer : answered v { r₁ with machine := m } = .error e r') : Ends fuel r (.error e r'.machine)
  | outOfFuel : Ends fuel r (.error .outOfFuel r.machine)

theorem exec_succ (fuel : Nat) (a : Activation) (m : Machine) :
    (∃ r, Turn fuel ⟨a, m⟩ r ∧ a.exec (fuel + 1) m = r.activation.exec fuel r.machine) ∨
      Ends fuel ⟨a, m⟩ (a.exec (fuel + 1) m) := by
  rw [Activation.exec]
  dsimp only
  cases stepped : step ⟨a, m⟩ with
  | error e r => exact .inr (.failed stepped)
  | ok flow r =>
    cases flow with
    | next => exact .inl ⟨r, .inl (.next stepped), rfl⟩
    | leave v => exact .inr (.left stepped)
    | raise v =>
      dsimp only
      cases caught : r.activation.catching a.pc v r.machine with
      | ok a' m' => exact .inl ⟨⟨a', m'⟩, .inr ⟨v, r, .raised stepped, caught⟩, rfl⟩
      | error e m' => exact .inr (.uncaught (.raised stepped) caught)
    | call callee =>
      dsimp only
      cases ran : callee.exec fuel r.machine with
      | ok v m' =>
        dsimp only
        cases answer : answered v ⟨r.activation, m'⟩ with
        | ok f r' => exact .inl ⟨r', .inl (.called stepped ran answer), rfl⟩
        | error e r' => exact .inr (.unanswered stepped ran answer)
      | error e m' =>
        cases e with
        | thrown v =>
          dsimp only
          cases caught : r.activation.catching a.pc v m' with
          | ok a' m'' => exact .inl ⟨⟨a', m''⟩, .inr ⟨v, _, .passed stepped ran, caught⟩, rfl⟩
          | error e m'' => exact .inr (.uncaught (.passed stepped ran) caught)
        | _ =>
          apply Or.inr
          apply Ends.calleeFailed stepped ran
          intro v same
          cases same

/-- However much fuel there is, running a method is taking turns until it ends. -/
theorem exec_turns (fuel : Nat) (a : Activation) (m : Machine) :
    ∃ r fuel', Turns ⟨a, m⟩ r ∧ Ends fuel' r (a.exec fuel m) := by
  induction fuel generalizing a m with
  | zero => exact ⟨_, 0, .refl, .outOfFuel⟩
  | succ fuel ih =>
    rcases exec_succ fuel a m with ⟨r, turn, same⟩ | ends
    · obtain ⟨r', fuel', turns, ends⟩ := ih r.activation r.machine
      rw [same]
      exact ⟨r', fuel', .head ⟨fuel, turn⟩ turns, ends⟩
    · exact ⟨_, fuel, .refl, ends⟩

theorem exec_thrown {fuel : Nat} {a : Activation} {m m' : Machine} {v : Value}
    (thrown : a.exec fuel m = .error (.thrown v) m') : v.slots = 1 := by
  -- Methods that are called have less fuel, so what they throw is covered as well.
  induction fuel generalizing a m m' v with
  | zero => cases thrown
  | succ fuel ih =>
    rcases exec_succ fuel a m with ⟨r, turn, same⟩ | ends
    · rw [same] at thrown
      exact ih thrown
    · rw [thrown] at ends
      cases ends with
      | failed stepped => exact absurd rfl (step_not_thrown stepped v)
      | uncaught threw escaped =>
        rcases Activation.catching_error escaped with ⟨same, -⟩ | ordinary
        · cases same
          cases threw with
          | raised stepped => exact step_raise stepped
          | passed stepped ran => exact ih ran
        · cases ordinary
      | calleeFailed stepped ran fatal => exact absurd rfl (fatal v)
      | unanswered stepped ran answer =>
        have ordinary := ((operates_answered _).keeps Activation.kept_samePlace.toKept).error _ _ _ answer
        cases ordinary

theorem Throws.slots {fuel : Nat} {r r' : Run} {v : Value} (threw : Throws fuel r v r') :
    v.slots = 1 := by
  cases threw with
  | raised stepped => exact step_raise stepped
  | passed stepped ran => exact exec_thrown ran

end Run
namespace Activation

/-- A method that has ended ends the same way when there is more fuel. -/
theorem exec_of_le {fuel fuel' : Nat} {a : Activation} {m : Machine}
    {result : EStateM.Result MachineError Machine (Option Value)} (done : a.exec fuel m = result)
    (enough : ∀ m', result ≠ .error .outOfFuel m') (le : fuel ≤ fuel') :
    a.exec fuel' m = result := by
  -- A call has less fuel than its caller, so that it is covered as well.
  induction fuel generalizing a m fuel' result with
  | zero => exact absurd done.symm (enough m)
  | succ fuel ih =>
    obtain ⟨fuel', rfl⟩ : ∃ n, fuel' = n + 1 := ⟨fuel' - 1, by omega⟩
    have le := Nat.le_of_succ_le_succ le
    rw [exec] at done ⊢
    dsimp only at done ⊢
    cases stepped : Run.step ⟨a, m⟩ with
    | error e r => rwa [stepped] at done
    | ok flow r =>
      rw [stepped] at done
      cases flow with
      | next => exact ih done enough le
      | leave v => exact done
      | raise v =>
        dsimp only at done ⊢
        cases caught : r.activation.catching a.pc v r.machine with
        | error e m => rwa [caught] at done
        | ok b m =>
          rw [caught] at done
          exact ih done enough le
      | call callee =>
        dsimp only at done ⊢
        cases ran : callee.exec fuel r.machine with
        | ok v m =>
          rw [ran] at done
          rw [ih ran nofun le]
          dsimp only at done ⊢
          cases answer : Run.answered v ⟨r.activation, m⟩ with
          | error e r => rwa [answer] at done
          | ok f r =>
            rw [answer] at done
            exact ih done enough le
        | error e m =>
          rw [ran] at done
          have same : callee.exec fuel' r.machine = .error e m := by
            refine ih ran (fun m' out => ?_) le
            cases out
            exact enough m done.symm
          rw [same]
          cases e with
          | thrown v =>
            dsimp only at done ⊢
            cases caught : r.activation.catching a.pc v m with
            | error e m => rwa [caught] at done
            | ok b m =>
              rw [caught] at done
              exact ih done enough le
          | _ => exact done

end Activation

namespace Machine

open Outcome

theorem finish_of_le {fuel fuel' : Nat} {d : Dispatch} {m : Machine}
    {result : EStateM.Result MachineError Machine (Option Value)} (done : finish fuel d m = result)
    (enough : ∀ m', result ≠ .error .outOfFuel m') (le : fuel ≤ fuel') :
    finish fuel' d m = result := by
  cases d with
  | answered v => exact done
  | entered callee => exact Activation.exec_of_le done enough le

theorem newInstance_of_le {fuel fuel' : Nat} {name descriptor : String} {args : List Value}
    {m : Machine} {result : EStateM.Result MachineError Machine Value}
    (done : newInstance fuel name descriptor args m = result)
    (enough : ∀ m', result ≠ .error .outOfFuel m') (le : fuel ≤ fuel') :
    newInstance fuel' name descriptor args m = result := by
  rw [newInstance] at done ⊢
  cases found : resolve name m with
  | error e m₁ => rwa [bind_of_error found] at done ⊢
  | ok c m₁ =>
    rw [bind_of_ok found] at done ⊢
    cases declared : c.declaredMethod? constructorName descriptor with
    | none => rwa [declared] at done
    | some method =>
      rw [declared] at done
      dsimp only at done ⊢
      cases made : alloc (.ofClass c) m₁ with
      | error e m₂ => rwa [bind_of_error made] at done ⊢
      | ok v m₂ =>
      rw [bind_of_ok made] at done ⊢
      cases entered : Dispatch.enter c method (v :: args) m₂ with
      | error e m₃ => rwa [bind_of_error entered] at done ⊢
      | ok d m₃ =>
        rw [bind_of_ok entered] at done ⊢
        cases ended : finish fuel d m₃ with
        | ok w m₄ =>
          rw [bind_of_ok ended] at done
          rw [bind_of_ok (finish_of_le ended nofun le)]
          exact done
        | error e m₄ =>
          rw [bind_of_error ended] at done
          have same : finish fuel' d m₃ = .error e m₄ := by
            refine finish_of_le ended (fun m' out => ?_) le
            cases out
            exact enough _ done.symm
          rwa [bind_of_error same]

theorem newInstance_ne_ok {fuel fuel' : Nat} {name descriptor : String} {args : List Value}
    {m m₁ : Machine} {e : MachineError}
    (failed : newInstance fuel name descriptor args m = .error e m₁) (fatal : e ≠ .outOfFuel)
    (v : Value) (m' : Machine) : newInstance fuel' name descriptor args m ≠ .ok v m' := by
  intro made
  rcases Nat.le_total fuel fuel' with le | le
  · rw [newInstance_of_le failed (fun _ out => fatal (EStateM.Result.error.inj out).1) le] at made
    cases made
  · rw [newInstance_of_le made nofun le] at failed
    cases failed

end Machine

end ClassForge
