import ClassForge.Proofs.Machine.Entering
import ClassForge.Proofs.Machine.Operands

namespace ClassForge

theorem Value.slots_le_two (v : Value) : v.slots ≤ 2 := by
  cases v with
  | long _ | double _ => exact Nat.le_refl 2
  | _ => exact Nat.le_succ 1

namespace Activation

variable {a b : Activation} {v : Value}

/-- The depth is what the operands take, for which there is room. -/
structure Counted (a : Activation) : Prop where
  exact : a.depth = Value.totalSlots a.stack
  room : a.depth ≤ a.maxStack.toNat

/-- What is done to a running method at a time. -/
inductive Moves (a : Activation) : Activation → Prop where
  | push {v : Value} {b : Activation} (pushed : a.push v = .ok b) : Moves a b
  | pop {v : Value} {b : Activation} (popped : a.pop = .ok (v, b)) : Moves a b
  | store {slot : Nat} {v : Value} {b : Activation} (stored : a.store slot v = .ok b) : Moves a b
  | increment {slot : Nat} {delta : Int32} {b : Activation}
    (added : a.increment slot delta = .ok b) : Moves a b
  | go (pc : Nat) : Moves a { a with pc := pc }
  | clear : Moves a { a with stack := [], depth := 0 }

def Works : Activation → Activation → Prop := Relation.ReflTransGen Moves

theorem kept_works : KeptLocals Works where
  refl _ := .refl
  trans _ _ _ first second := first.trans second
  push _ _ _ pushed := .single (.push pushed)
  pop _ _ _ popped := .single (.pop popped)
  store _ _ _ _ stored := .single (.store stored)
  increment _ _ _ _ added := .single (.increment added)

theorem Moves.maxStack (moves : a.Moves b) : b.maxStack = a.maxStack := by
  cases moves with
  | push pushed => exact (kept_samePlace.push _ _ _ pushed).1.maxStack
  | pop popped => exact (kept_samePlace.pop _ _ _ popped).1.maxStack
  | store stored => exact (kept_samePlace.store _ _ _ _ stored).1.maxStack
  | increment added => exact (kept_samePlace.increment _ _ _ _ added).1.maxStack
  | go | clear => rfl

theorem Works.maxStack (works : a.Works b) : b.maxStack = a.maxStack := by
  induction works with
  | refl => rfl
  | tail _ moves ih => exact moves.maxStack.trans ih

theorem push_eq_ok (pushed : a.push v = .ok b) :
    a.depth + v.slots ≤ a.maxStack.toNat ∧
      b = { a with stack := v :: a.stack, depth := a.depth + v.slots } := by
  simp only [push] at pushed
  split at pushed
  · cases pushed
  · split at pushed
    · cases pushed
    · rename_i room
      cases pushed
      exact ⟨Nat.not_lt.1 room, rfl⟩

theorem pop_eq_ok (popped : a.pop = .ok (v, b)) : ∃ rest, a.stack = v :: rest ∧
    v.slots ≤ a.depth ∧ b = { a with stack := rest, depth := a.depth - v.slots } := by
  rw [pop] at popped
  split at popped
  · rename_i w rest holds
    split at popped
    · cases popped
    · rename_i counted
      cases popped
      exact ⟨rest, holds, Nat.not_lt.1 counted, rfl⟩
  · cases popped

namespace Counted

theorem of_entered (entered : a.Entered) : a.Counted := by
  obtain ⟨owner, name, code, args, entered⟩ := entered
  obtain ⟨-, -, -, start, -, -⟩ := ofCode_eq_ok entered
  rw [← start]
  exact ⟨rfl, Nat.zero_le _⟩

theorem moves (counted : a.Counted) (moves : a.Moves b) : b.Counted := by
  obtain ⟨exact, room⟩ := counted
  cases moves with
  | push pushed =>
    obtain ⟨fits, rfl⟩ := push_eq_ok pushed
    refine ⟨?_, fits⟩
    rw [Value.totalSlots_cons, ← exact, Nat.add_comm]
  | pop popped =>
    obtain ⟨rest, holds, -, rfl⟩ := pop_eq_ok popped
    refine ⟨?_, Nat.le_trans (Nat.sub_le _ _) room⟩
    rw [exact, holds, Value.totalSlots_cons, Nat.add_sub_cancel_left]
  | store stored =>
    rw [store] at stored
    split at stored
    · cases stored
    · cases stored
      exact ⟨exact, room⟩
  | increment added =>
    rw [increment] at added
    split at added
    · cases added
      exact ⟨exact, room⟩
    · cases added
  | go => exact ⟨exact, room⟩
  | clear => exact ⟨rfl, Nat.zero_le _⟩

theorem works (counted : a.Counted) (works : a.Works b) : b.Counted := by
  induction works with
  | refl => exact counted
  | tail _ last ih => exact ih.moves last

theorem slots_le (counted : a.Counted) {rest : List Value} (holds : a.stack = v :: rest) :
    v.slots ≤ a.depth := by
  rw [counted.exact, holds, Value.totalSlots_cons]
  exact Nat.le_add_right _ _

theorem pop_ne (counted : a.Counted) : a.pop ≠ .error .slotOverflow := by
  intro refused
  rw [pop] at refused
  split at refused
  · rename_i w rest holds
    rw [if_neg (Nat.not_lt.2 (counted.slots_le holds))] at refused
    cases refused
  · cases refused

/-- The depth is advanced before it is compared, so that an operand of two slots may not be counted
any more where there is room for nearly all that sixteen bits count. -/
theorem large_of_works (counted : a.Counted) (works : a.Works b) (overflows : b.Overflows) :
    65534 ≤ a.maxStack.toNat := by
  have counted := counted.works works
  rw [← Works.maxStack works]
  obtain ⟨v, refused⟩ | refused := overflows
  · have room := counted.room
    have two := v.slots_le_two
    simp only [push] at refused
    split at refused
    · omega
    · split at refused <;> cases refused
  · exact absurd refused counted.pop_ne

end Counted

structure Counts (a : Activation) : Prop where
  /-- Counting does not get out of sixteen bits while these hold what is reserved and the operand. -/
  adds {v : Value} (small : a.maxStack.toNat + v.slots ≤ 65535) : a.depth + v.slots ≤ 65535
  subtracts {v : Value} {rest : List Value} (holds : a.stack = v :: rest) : v.slots ≤ a.depth
  pops : a.pop ≠ .error .slotOverflow
  pushes {v : Value} (room : a.depth + v.slots ≤ a.maxStack.toNat) :
    a.push v = .ok { a with stack := v :: a.stack, depth := a.depth + v.slots }
  refuses {v : Value} (small : a.maxStack.toNat + v.slots ≤ 65535)
    (past : a.maxStack.toNat < a.depth + v.slots) :
    a.push v = .error (.verify (.stackOverflow a.maxStack.toNat a.pc))

theorem Counted.counts (counted : a.Counted) : a.Counts := by
  have room := counted.room
  have adds {v : Value} (small : a.maxStack.toNat + v.slots ≤ 65535) :
      a.depth + v.slots ≤ 65535 := Nat.le_trans (Nat.add_le_add_right room _) small
  refine ⟨adds, counted.slots_le, counted.pop_ne, fun {v} fits => ?_, fun {v} small past => ?_⟩
  · have bound := a.maxStack.toNat_lt
    rw [push, if_neg (by omega), if_neg (Nat.not_lt.2 fits)]
  · rw [push, if_neg (Nat.not_lt.2 (adds small)), if_pos past]

end Activation

namespace Run

open Activation

variable {r r' : Run} {e : MachineError}

theorem jump_eq_ok {start next : Nat} {distance : Option Int16} {taken : Bool} {u : Unit}
    (done : jump start next distance taken r = .ok u r') :
    ∃ pc, r' = { r with activation := { r.activation with pc := pc } } := by
  obtain ⟨_, _, got, done⟩ := bind_ok done
  cases got
  cases distance with
  | none => cases done
  | some d =>
    cases taken with
    | false =>
      cases done
      exact ⟨next, rfl⟩
    | true =>
      dsimp only at done
      rw [if_pos rfl] at done
      split at done
      · cases done
      · cases done
        exact ⟨_, rfl⟩

theorem step_works {f : Flow} (done : step r = .ok f r') :
    r.activation.Works r'.activation := by
  cases read : Operation.decode r.activation.bytes r.activation.pc with
  | error fault =>
    rw [step_of_fault read] at done
    cases done
  | ok found =>
    obtain ⟨o, next⟩ := found
    rw [step_of_decode read] at done
    cases target : o.target? with
    | none =>
      obtain ⟨work, same, operates, -⟩ := straight_perform r.activation.pc next target
      rw [same, setPc_bind] at done
      exact .head (.go next) ((operates.keepsLocals kept_works.toKept fun _ => kept_works).ok _ _ _ done)
    | some t =>
      have place : r.activation.Moves { r.activation with pc := r.activation.pc + 1 } := .go _
      cases o with
      | branch c d =>
        obtain ⟨taken, r₁, tested, jumped⟩ := bind_ok (going_ok done).2
        obtain ⟨pc, rfl⟩ := jump_eq_ok jumped
        have test := ((operates_test c).keeps kept_works.toKept).ok _ _ _ tested
        exact .head place (.tail test (.go pc))
      | goto d =>
        obtain ⟨pc, rfl⟩ := jump_eq_ok (going_ok done).2
        exact .head place (.single (.go pc))
      | _ => cases target

theorem step_overflow (failed : step r = .error e r') (lost : e.overflows = true) :
    ∃ b, r.activation.Works b ∧ b.Overflows := by
  cases read : Operation.decode r.activation.bytes r.activation.pc with
  | error fault =>
    rw [step_of_fault read] at failed
    cases failed
    cases lost
  | ok found =>
    obtain ⟨o, next⟩ := found
    rw [step_of_decode read] at failed
    cases target : o.target? with
    | none =>
      obtain ⟨work, same, operates, -⟩ := straight_perform r.activation.pc next target
      rw [same, setPc_bind] at failed
      have kept := operates.keepsLocals kept_works.toKept fun _ => kept_works
      obtain ⟨b, works, overflows⟩ := kept.overflow _ _ _ failed lost
      exact ⟨b, .head (.go next) works, overflows⟩
    | some t =>
      cases o with
      | branch c d =>
        rcases bind_error (going_error failed) with failed | ⟨taken, r₁, _, failed⟩
        · have kept := (operates_test c).keeps kept_works.toKept
          obtain ⟨b, works, overflows⟩ := kept.overflow _ _ _ failed lost
          exact ⟨b, .head (.go _) works, overflows⟩
        · obtain ⟨v, rfl⟩ := jump_fault failed
          cases lost
      | goto d =>
        obtain ⟨v, rfl⟩ := jump_fault (going_error failed)
        cases lost
      | _ => cases target

theorem catching_works {a b : Activation} {start : Nat} {v : Value} {m m' : Machine}
    (done : a.catching start v m = .ok b m') : a.Works b := by
  rw [catching_eq] at done
  split at done
  · cases done
  · cases done
  · split at done
    · cases done
    · rename_i pushed
      cases done
      exact .head .clear (.head (.push pushed) (.single (.go _)))

theorem catching_overflows {a : Activation} {start : Nat} {v : Value} {m m' : Machine}
    (failed : a.catching start v m = .error e m') : e.overflows = false := by
  rw [catching_eq] at failed
  split at failed
  · rename_i refused
    obtain ⟨i, rfl⟩ := handlerAmong_error refused
    cases failed
    rfl
  · cases failed
    rfl
  · split at failed
    · rename_i refused
      cases failed
      have two := v.slots_le_two
      simp only [Activation.push] at refused
      split at refused
      · omega
      · split at refused
        · cases refused
          rfl
        · cases refused
    · cases failed

theorem turn_works {fuel : Nat} (turn : Turn fuel r r') : r.activation.Works r'.activation := by
  rcases turn with proceeds | ⟨v, r₁, threw, caught⟩
  · cases proceeds with
    | next stepped => exact step_works stepped
    | called stepped ran answer =>
      have pushed := ((operates_answered _).keeps kept_works.toKept).ok _ _ _ answer
      exact (step_works stepped).trans pushed
  · cases threw with
    | raised stepped => exact (step_works stepped).trans (catching_works caught)
    | passed stepped ran => exact (step_works stepped).trans (catching_works caught)

/-- Where a run gets to, at instructions of the method itself and of those that it calls. -/
inductive Visits (r : Run) : Run → Prop where
  | start : Visits r r
  | turn {r₁ r₂ : Run} {fuel : Nat} (visited : Visits r r₁) (turn : Turn fuel r₁ r₂) : Visits r r₂
  | call {r₁ r₂ : Run} {callee : Activation} (visited : Visits r r₁)
    (stepped : step r₁ = .ok (.call callee) r₂) : Visits r ⟨callee, r₂.machine⟩

theorem Visits.trans {r₁ r₂ : Run} (first : Visits r r₁) (second : Visits r₁ r₂) :
    Visits r r₂ := by
  induction second with
  | start => exact first
  | turn _ turn ih => exact ih.turn turn
  | call _ stepped ih => exact ih.call stepped

theorem Visits.counted (visits : Visits r r') (counted : r.activation.Counted) :
    r'.activation.Counted := by
  induction visits with
  | start => exact counted
  | turn _ turn ih => exact ih.works (turn_works turn)
  | call _ stepped _ => exact .of_entered (step_call stepped)

theorem Turn.goesOn {fuel : Nat} (turn : Turn fuel r r') :
    r.activation.GoesOn r.machine r'.activation r'.machine := by
  refine ⟨1, fuel, fun enough le => ?_⟩
  rw [Activation.exec]
  dsimp only
  rcases turn with proceeds | ⟨v, r₁, threw, caught⟩
  · cases proceeds with
    | next stepped => simp only [stepped]
    | called stepped ran answer =>
      have again := exec_of_le ran (fun _ out => by cases out) le
      simp only [stepped, again, answer]
  · cases threw with
    | raised stepped => simp only [stepped, caught]
    | passed stepped ran =>
      have again := exec_of_le ran (fun _ out => by cases out) le
      simp only [stepped, again, caught]

theorem settles_of_call {callee : Activation} {m : Machine}
    (stepped : step r = .ok (.call callee) r') (fatal : ∀ v, e ≠ .thrown v)
    (settles : callee.Settles r'.machine (.error e m)) :
    r.activation.Settles r.machine (.error e m) := by
  obtain ⟨enough, settles⟩ := settles
  refine ⟨enough + 1, fun fuel le => ?_⟩
  obtain ⟨fuel, rfl⟩ : ∃ n, fuel = n + 1 := ⟨fuel - 1, by omega⟩
  rw [Activation.exec]
  -- Only exceptions are looked at on the way, and this is none.
  simp only [stepped, settles fuel (by omega)]

/-- An error that is no exception goes on to where the run was started. -/
theorem Visits.settles {m : Machine} (visits : Visits r r') (fatal : ∀ v, e ≠ .thrown v)
    (settles : r'.activation.Settles r'.machine (.error e m)) :
    r.activation.Settles r.machine (.error e m) := by
  induction visits with
  | start => exact settles
  | turn _ turn ih => exact ih (turn.goesOn.settles settles)
  | call _ stepped ih => exact ih (settles_of_call stepped fatal settles)

theorem exec_overflow {fuel : Nat} {a : Activation} {m m' : Machine} (counted : a.Counted)
    (failed : a.exec fuel m = .error e m') (lost : e.overflows = true) :
    ∃ r, Visits ⟨a, m⟩ r ∧ 65534 ≤ r.activation.maxStack.toNat := by
  -- Methods that are called have less fuel, and their runs are part of this one.
  induction fuel generalizing a m m' with
  | zero =>
    cases failed
    cases lost
  | succ fuel ih =>
    rcases exec_succ fuel a m with ⟨r, turn, same⟩ | ends
    · have visited : Visits ⟨a, m⟩ r := .turn .start turn
      rw [same] at failed
      obtain ⟨r', visits, large⟩ := ih (visited.counted counted) failed
      exact ⟨r', visited.trans visits, large⟩
    · rw [failed] at ends
      cases ends with
      | failed stepped =>
        obtain ⟨b, works, overflows⟩ := step_overflow stepped lost
        exact ⟨_, .start, counted.large_of_works works overflows⟩
      | uncaught threw escaped =>
        rw [catching_overflows escaped] at lost
        cases lost
      | calleeFailed stepped ran fatal =>
        obtain ⟨r', visits, large⟩ := ih (.of_entered (step_call stepped)) ran
        exact ⟨r', (Visits.start.call stepped).trans visits, large⟩
      | unanswered stepped ran answer =>
        obtain ⟨b, works, overflows⟩ :=
          ((operates_answered _).keeps kept_works.toKept).overflow _ _ _ answer lost
        have whole := (step_works stepped).trans works
        exact ⟨_, .start, counted.large_of_works whole overflows⟩
      | outOfFuel => cases lost

end Run

namespace Activation

open Outcome

/-- The code pushes a constant and starts again. -/
def Spins (a : Activation) : Prop := a.bytes = #[0x03, 0xa7, 0xff, 0xff]

def constants (n : Nat) : List Value := List.replicate n (.int 0)

theorem totalSlots_constants (n : Nat) : Value.totalSlots (constants n) = n := by
  induction n with
  | zero => rfl
  | succ n ih =>
    rw [constants, List.replicate_succ, Value.totalSlots_cons]
    exact (congrArg (1 + ·) ih).trans (Nat.add_comm 1 n)

variable {a : Activation} {n : Nat}

theorem Spins.read (spins : a.Spins) (stack : List Value) :
    Operation.decode (a.holding 0 stack).bytes 0 = .ok (.pushInt 0, 1) := by
  rw [holding, spins]
  rfl

theorem Spins.step_push (spins : a.Spins) (room : n < a.maxStack.toNat) (m : Machine) :
    Run.step ⟨a.holding 0 (constants n), m⟩ =
      .ok .next ⟨a.holding 1 (constants (n + 1)), m⟩ := by
  have fits : Value.totalSlots (.int 0 :: constants n) ≤ a.maxStack.toNat := by
    rw [Value.totalSlots_cons, totalSlots_constants, Value.slots_int]
    omega
  rw [Run.step_of_decode (spins.read _)]
  exact Run.going_of_ok (Run.push_holding fits)

theorem Spins.step_goto (spins : a.Spins) (stack : List Value) (m : Machine) :
    Run.step ⟨a.holding 1 stack, m⟩ = .ok .next ⟨a.holding 0 stack, m⟩ := by
  have read : Operation.decode (a.holding 1 stack).bytes 1 = .ok (.goto (some (-1)), 4) := by
    rw [holding, spins]
    rfl
  have size : (a.holding 2 stack).bytes.size = 4 := by
    rw [holding, spins]
    rfl
  have got : (get : RunM Run) ⟨a.holding 2 stack, m⟩ =
      .ok ⟨a.holding 2 stack, m⟩ ⟨a.holding 2 stack, m⟩ := rfl
  have jumped : Run.jump 1 4 (some (-1)) true ⟨a.holding 2 stack, m⟩ =
      .ok () ⟨a.holding 0 stack, m⟩ := by
    rw [Run.jump, bind_of_ok got]
    dsimp only
    rw [if_pos rfl, size, if_neg (by decide)]
    rfl
  rw [Run.step_of_decode read]
  exact Run.going_of_ok jumped

theorem Spins.goesOn (spins : a.Spins) (room : n < a.maxStack.toNat) (m : Machine) :
    (a.holding 0 (constants n)).GoesOn m (a.holding 0 (constants (n + 1))) m :=
  (goesOn_of_step (spins.step_push room m)).trans (goesOn_of_step (spins.step_goto _ m))

theorem Spins.step_refused (spins : a.Spins) {stack : List Value} {e : MachineError}
    (refused : (a.holding 1 stack).push (.int 0) = .error e) (m : Machine) :
    Run.step ⟨a.holding 0 stack, m⟩ = .error e ⟨a.holding 1 stack, m⟩ := by
  have failed : Run.push (.int 0) ⟨a.holding 1 stack, m⟩ = .error e ⟨a.holding 1 stack, m⟩ := by
    rw [Run.push, Run.onActivation, refused]
  have going : Run.going (Run.push (.int 0)) ⟨a.holding 1 stack, m⟩ =
      .error e ⟨a.holding 1 stack, m⟩ := bind_of_error failed
  rw [Run.step_of_decode (spins.read _)]
  exact going

theorem Spins.settles (spins : a.Spins) (full : a.maxStack = 65535) (m : Machine) :
    (a.holding 0 []).Settles m (.error .slotOverflow m) := by
  have left : ∀ k n, n + k = 65535 →
      (a.holding 0 (constants n)).Settles m (.error .slotOverflow m) := by
    intro k
    induction k with
    | zero =>
      intro n all
      have past : 65535 < (a.holding 1 (constants n)).depth + (Value.int 0).slots := by
        rw [holding_depth, totalSlots_constants, Value.slots_int]
        omega
      exact settles_of_step (spins.step_refused (by rw [push, if_pos past]) m)
    | succ k ih =>
      intro n rest
      have room : n < a.maxStack.toNat := by
        rw [full]
        show n < 65535
        omega
      exact (spins.goesOn room m).settles (ih (n + 1) (by omega))
  exact left 65535 0 rfl

def spinning : Activation where
  owner := .root
  bytes := #[0x03, 0xa7, 0xff, 0xff]
  handlers := []
  maxStack := 1
  locals := #[]

end Activation

namespace Run

open Activation

/-- Wherever a run of a method gets to, operands are counted exactly and within what the code
reserves, also in the middle of an instruction, and an instruction that fails ends the whole run. A
run only ends since operands could not be counted where the code reserves nearly as many slots as
sixteen bits count. -/
theorem counts_of_visits {a : Activation} (entered : a.Entered) (m : Machine) :
    (∀ r, Visits ⟨a, m⟩ r → r.activation.Counted ∧
      (∀ f r', step r = .ok f r' → r.activation.Works r'.activation) ∧
      (∀ e r', step r = .error e r' → a.Settles m (.error e r'.machine)) ∧
      ∀ b, r.activation.Works b → b.Counted ∧ b.Counts) ∧
    ∀ fuel e m', a.exec fuel m = .error e m' → e.overflows = true →
      ∃ r, Visits ⟨a, m⟩ r ∧ 65534 ≤ r.activation.maxStack.toNat := by
  have start : a.Counted := .of_entered entered
  constructor
  · intro r visits
    have counted := visits.counted start
    refine ⟨counted, fun f r' done => step_works done, fun e r' failed => ?_, fun b works => ?_⟩
    · exact visits.settles (step_not_thrown failed) (settles_of_step failed)
    · have later := counted.works works
      exact ⟨later, later.counts⟩
  · intro fuel e m' failed lost
    exact exec_overflow start failed lost

theorem counts_of_visits_spinning : spinning.Entered ∧ ∃ r, Visits ⟨spinning, {}⟩ r ∧
    r.activation.depth = 1 ∧ { r.activation with pc := 1 }.push (.int 0) =
      .error (.verify (.stackOverflow 1 1)) ∧
    spinning.Settles {} (.error (.verify (.stackOverflow 1 1)) {}) := by
  have entered : spinning.Entered :=
    ⟨.root, "spin", ⟨1, 0, [0x03, 0xa7, 0xff, 0xff], [], []⟩, [], rfl⟩
  have spins : spinning.Spins := rfl
  have pushes : step ⟨spinning, {}⟩ = .ok .next ⟨spinning.holding 1 (constants 1), {}⟩ :=
    spins.step_push (n := 0) (by decide) {}
  have visits : Visits ⟨spinning, {}⟩ ⟨spinning.holding 0 (constants 1), {}⟩ :=
    @Visits.turn _ _ _ 0 (@Visits.turn _ _ _ 0 .start (.inl (.next pushes)))
      (.inl (.next (spins.step_goto _ {})))
  obtain ⟨counted, -, fails, working⟩ := (counts_of_visits entered {}).1 _ visits
  obtain ⟨-, counts⟩ := working _ (.single (.go 1))
  have refused := counts.refuses (v := .int 0) (by decide) (by decide)
  exact ⟨entered, _, visits, counted.exact, refused, fails _ _ (spins.step_refused refused {})⟩

end Run

def Dispatch.spins : Dispatch → Bool
  | .entered a => a.bytes == #[0x03, 0xa7, 0xff, 0xff] && a.maxStack == 65535
  | .answered _ => false

namespace Machine

open Outcome

def spinningClass : List UInt8 :=
  [0xca, 0xfe, 0xba, 0xbe, 0, 0, 0, 49, 0, 8,
    1, 0, 1, 0x43, 7, 0, 1,
    1, 0, 16, 0x6a, 0x61, 0x76, 0x61, 0x2f, 0x6c, 0x61, 0x6e, 0x67, 0x2f, 0x4f, 0x62, 0x6a, 0x65, 0x63,
    0x74, 7, 0, 3,
    1, 0, 1, 0x66, 1, 0, 3, 0x28, 0x29, 0x56, 1, 0, 4, 0x43, 0x6f, 0x64, 0x65,
    0, 0x21, 0, 2, 0, 4, 0, 0, 0, 0, 0, 1,
    0, 9, 0, 5, 0, 6, 0, 1,
    0, 7, 0, 0, 0, 16, 0xff, 0xff, 0, 0, 0, 0, 0, 4, 0x03, 0xa7, 0xff, 0xff, 0, 0, 0, 0,
    0, 0]

/-- With enough fuel the depth gets out of sixteen bits, and no violation is reported. -/
theorem overflow_of_spinningClass : ∃ name m₁, define spinningClass {} = .ok name m₁ ∧
    ∃ m₂ enough, ∀ fuel, enough ≤ fuel →
      invokeStatic fuel name "f" "()V" [] m₁ = .error .slotOverflow m₂ := by
  have ran : (((do Dispatch.static (← define spinningClass) "f" "()V" []) : MachineM Dispatch).run'
      {}).any Dispatch.spins = true := by decide +kernel
  obtain ⟨d, m₂, done, spins⟩ := exists_of_any_run ran
  obtain ⟨name, m₁, defined, called⟩ := run_bind_eq_ok.1 done
  cases d with
  | answered v => cases spins
  | entered a =>
    obtain ⟨code, full⟩ := Bool.and_eq_true_iff.1 spins
    obtain ⟨owner, method, body, args, entered⟩ := Dispatch.enters_static _ _ _ _ _ _ _ called
    obtain ⟨-, -, -, start, -, -⟩ := Activation.ofCode_eq_ok entered
    have spinning : a.Spins := eq_of_beq code
    obtain ⟨enough, settles⟩ := spinning.settles (eq_of_beq full) m₂
    rw [start] at settles
    refine ⟨name, m₁, defined, m₂, enough, fun fuel le => ?_⟩
    rw [invokeStatic, bind_of_ok called]
    exact settles fuel le

end Machine
end ClassForge
