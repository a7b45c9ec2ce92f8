import ClassForge.Proofs.Machine.StackRoom

namespace ClassForge

theorem Value.one_le_slots (v : Value) : 1 ≤ v.slots := by
  cases v with
  | long _ | double _ => exact Nat.le_succ 1
  | _ => exact Nat.le_refl 1

namespace Locals

variable {l : Array (Option Value)} {v : Value} {slot i : Nat}

def Wide (l : Array (Option Value)) (i : Nat) : Prop :=
  ∃ v, l[i]? = some (some v) ∧ v.slots = 2

def Roomy (l : Array (Option Value)) : Prop := ∀ i, Wide l i → i + 1 < l.size

/-- The slots behind values of two slots are empty. -/
def Paired (l : Array (Option Value)) : Prop := ∀ i, Wide l i → l[i + 1]? = some none

def Second (l : Array (Option Value)) (slot : Nat) : Prop := ∃ i, slot = i + 1 ∧ Wide l i

theorem Paired.roomy (paired : Paired l) : Roomy l := by
  intro i wide
  exact (Array.getElem?_eq_some_iff.1 (paired i wide)).1

theorem Paired.not_second (paired : Paired l) (held : l[slot]? = some (some v)) :
    ¬Second l slot := by
  intro second
  obtain ⟨i, rfl, wide⟩ := second
  rw [paired i wide] at held
  cases held

def put (l : Array (Option Value)) (slot : Nat) (v : Value) : Array (Option Value) :=
  (if v.slots = 2 then l.setIfInBounds (slot + 1) none else l).setIfInBounds slot (some v)

theorem size_put (l : Array (Option Value)) (slot : Nat) (v : Value) :
    (put l slot v).size = l.size := by
  unfold put
  split <;> simp

theorem getElem?_put_self (inside : slot + v.slots ≤ l.size) :
    (put l slot v)[slot]? = some (some v) := by
  have one := v.one_le_slots
  have here : slot < (put l slot v).size := by
    rw [size_put]
    omega
  unfold put at here ⊢
  rw [Array.size_setIfInBounds] at here
  exact Array.getElem?_setIfInBounds_self_of_lt here

theorem getElem?_put_second (inside : slot + v.slots ≤ l.size) (wide : v.slots = 2) :
    (put l slot v)[slot + 1]? = some none := by
  unfold put
  rw [if_pos wide, Array.getElem?_setIfInBounds_ne (by omega),
    Array.getElem?_setIfInBounds_self_of_lt (by omega)]

theorem getElem?_put_of_ne (other : i ≠ slot) (behind : v.slots = 2 → i ≠ slot + 1) :
    (put l slot v)[i]? = l[i]? := by
  unfold put
  rw [Array.getElem?_setIfInBounds_ne (Ne.symm other)]
  split
  · rename_i wide
    exact Array.getElem?_setIfInBounds_ne (Ne.symm (behind wide))
  · rfl

theorem wide_put (inside : slot + v.slots ≤ l.size) (wide : Wide (put l slot v) i) :
    (i = slot ∧ v.slots = 2) ∨ (i ≠ slot ∧ (v.slots = 2 → i ≠ slot + 1) ∧ Wide l i) := by
  obtain ⟨w, held, two⟩ := wide
  by_cases here : i = slot
  · subst here
    rw [getElem?_put_self inside] at held
    cases held
    exact .inl ⟨rfl, two⟩
  · have behind : v.slots = 2 → i ≠ slot + 1 := by
      rintro wide rfl
      rw [getElem?_put_second inside wide] at held
      cases held
    rw [getElem?_put_of_ne here behind] at held
    exact .inr ⟨here, behind, w, held, two⟩

theorem Roomy.put (roomy : Roomy l) (inside : slot + v.slots ≤ l.size) :
    Roomy (put l slot v) := by
  intro i wide
  rw [size_put]
  rcases wide_put inside wide with ⟨rfl, two⟩ | ⟨-, -, before⟩
  · omega
  · exact roomy i before

/-- A store breaks a pair exactly where it goes to the second slot of one. -/
theorem paired_put (paired : Paired l) (inside : slot + v.slots ≤ l.size) :
    Paired (put l slot v) ↔ ¬Second l slot := by
  constructor
  · intro after second
    obtain ⟨i, rfl, w, held, two⟩ := second
    have stays : Wide (put l (i + 1) v) i := by
      refine ⟨w, ?_, two⟩
      rw [getElem?_put_of_ne (by omega) (by omega), held]
    have empty := after i stays
    rw [getElem?_put_self inside] at empty
    cases empty
  · intro free i wide
    rcases wide_put inside wide with ⟨rfl, two⟩ | ⟨other, -, before⟩
    · exact getElem?_put_second inside two
    · have next : i + 1 ≠ slot := fun same => free ⟨i, same.symm, before⟩
      rw [getElem?_put_of_ne next (by omega), paired i before]

theorem wide_setIfInBounds {n k : Int32} (held : l[slot]? = some (some (.int n)))
    (wide : Wide (l.setIfInBounds slot (some (.int k))) i) : i ≠ slot ∧ Wide l i := by
  obtain ⟨w, found, two⟩ := wide
  have inside := (Array.getElem?_eq_some_iff.1 held).1
  by_cases here : i = slot
  · subst here
    rw [Array.getElem?_setIfInBounds_self_of_lt inside] at found
    cases found
    cases two
  · rw [Array.getElem?_setIfInBounds_ne (Ne.symm here)] at found
    exact ⟨here, w, found, two⟩

theorem Roomy.setIfInBounds {n k : Int32} (roomy : Roomy l)
    (held : l[slot]? = some (some (.int n))) : Roomy (l.setIfInBounds slot (some (.int k))) := by
  intro i wide
  rw [Array.size_setIfInBounds]
  exact roomy i (wide_setIfInBounds held wide).2

theorem Paired.setIfInBounds {n k : Int32} (paired : Paired l)
    (held : l[slot]? = some (some (.int n))) : Paired (l.setIfInBounds slot (some (.int k))) := by
  intro i wide
  have before := (wide_setIfInBounds held wide).2
  have next : i + 1 ≠ slot := fun same => paired.not_second held ⟨i, same.symm, before⟩
  rw [Array.getElem?_setIfInBounds_ne (Ne.symm next), paired i before]

end Locals

namespace Activation

open Locals

theorem paired_slotsOf (args : List Value) (n i : Nat) {v : Value}
    (held : (slotsOf args ++ List.replicate n none)[i]? = some (some v)) (wide : v.slots = 2) :
    (slotsOf args ++ List.replicate n none)[i + 1]? = some none := by
  induction args generalizing i with
  | nil =>
    rw [show slotsOf [] = [] from rfl, List.nil_append, List.getElem?_replicate] at held
    split at held <;> cases held
  | cons w rest ih =>
    rw [slotsOf_cons, List.append_assoc] at held ⊢
    split at held <;> rename_i two
    · rw [if_pos two]
      match i with
      | 0 => rfl
      | 1 => cases held
      | i + 2 => exact ih i held
    · rw [if_neg two]
      match i with
      | 0 =>
        cases held
        exact absurd wide two
      | i + 1 => exact ih i held

theorem Entered.paired {a : Activation} (entered : a.Entered) : Paired a.locals := by
  obtain ⟨owner, name, code, args, entered⟩ := entered
  obtain ⟨-, -, -, -, -, locals⟩ := ofCode_eq_ok entered
  rw [locals]
  intro i wide
  obtain ⟨v, held, two⟩ := wide
  rw [List.getElem?_toArray] at held ⊢
  exact paired_slotsOf args _ i held two

def SameLocals (a b : Activation) : Prop := b.locals = a.locals

theorem kept_sameLocals : Kept SameLocals where
  refl _ := rfl
  trans _ _ _ first second := second.trans first
  push a v b pushed := by
    obtain ⟨-, rfl⟩ := push_eq_ok pushed
    rfl
  pop a v b popped := by
    obtain ⟨rest, -, -, rfl⟩ := pop_eq_ok popped
    rfl

theorem store_locals {a b : Activation} {slot : Nat} {v : Value} (stored : a.store slot v = .ok b) :
    slot + v.slots ≤ a.locals.size ∧ b.locals = put a.locals slot v := by
  rw [store] at stored
  split at stored
  · cases stored
  · rename_i inside
    cases stored
    exact ⟨Nat.not_lt.1 inside, rfl⟩

theorem increment_locals {a b : Activation} {slot : Nat} {delta : Int32}
    (added : a.increment slot delta = .ok b) : ∃ n k, a.locals[slot]? = some (some (.int n)) ∧
      b.locals = a.locals.setIfInBounds slot (some (.int k)) := by
  rw [increment] at added
  split at added
  · rename_i n held
    cases added
    exact ⟨n, _, held, rfl⟩
  · cases added

end Activation

namespace Run

open Activation Locals

variable {r r' : Run} {f : Flow} {next : Nat}

theorem step_sameLocals {o : Operation (Option Int16)}
    (read : Operation.decode r.activation.bytes r.activation.pc = .ok (o, next))
    (spares : o.writesLocal = false) (done : step r = .ok f r') :
    SameLocals r.activation r'.activation := by
  rw [step_of_decode read] at done
  cases target : o.target? with
  | none =>
    obtain ⟨work, same, operates, -⟩ := straight_perform r.activation.pc next target
    rw [same, setPc_bind] at done
    have kept := operates.keepsLocals kept_sameLocals fun writes =>
      absurd writes (Bool.eq_false_iff.1 spares)
    have locals := kept.ok _ _ _ done
    exact locals
  | some t =>
    cases o with
    | branch c d =>
      obtain ⟨taken, r₁, tested, jumped⟩ := bind_ok (going_ok done).2
      obtain ⟨pc, rfl⟩ := jump_eq_ok jumped
      have locals := ((operates_test c).keeps kept_sameLocals).ok _ _ _ tested
      exact locals
    | goto d =>
      obtain ⟨pc, rfl⟩ := jump_eq_ok (going_ok done).2
      rfl
    | _ => cases target

theorem step_store {kind : ValueKind} {slot : UInt16}
    (read : Operation.decode r.activation.bytes r.activation.pc = .ok (.store kind slot, next))
    (done : step r = .ok f r') : ∃ v, slot.toNat + v.slots ≤ r.activation.locals.size ∧
      r'.activation.locals = put r.activation.locals slot.toNat v := by
  rw [step_of_decode read] at done
  obtain ⟨v, r₁, popped, stored⟩ := bind_ok (going_ok done).2
  have same := (Operates.pop.keeps kept_sameLocals).ok _ _ _ popped
  have stored := store_locals (onActivation_eq_ok stored)
  rw [same] at stored
  exact ⟨v, stored⟩

theorem step_increment {slot : UInt16} {delta : Int16}
    (read : Operation.decode r.activation.bytes r.activation.pc = .ok (.increment slot delta, next))
    (done : step r = .ok f r') : ∃ n k, r.activation.locals[slot.toNat]? = some (some (.int n)) ∧
      r'.activation.locals = r.activation.locals.setIfInBounds slot.toNat (some (.int k)) := by
  rw [step_of_decode read] at done
  have added := increment_locals (onActivation_eq_ok (going_ok done).2)
  exact added

/-- The instruction at hand stores into the second slot of a value of two. -/
def Splits (r : Run) : Prop :=
  ∃ kind slot next, Operation.decode r.activation.bytes r.activation.pc =
    .ok (.store kind slot, next) ∧ Second r.activation.locals slot.toNat

theorem not_splits {o : Operation (Option Int16)}
    (read : Operation.decode r.activation.bytes r.activation.pc = .ok (o, next))
    (other : ∀ kind slot, o ≠ .store kind slot) : ¬r.Splits := by
  intro splits
  obtain ⟨kind, slot, next', same, -⟩ := splits
  rw [read] at same
  cases same
  exact other kind slot rfl

/-- A step leaves the locals, stores a value or adds to a number. -/
theorem step_locals (done : step r = .ok f r') :
    (SameLocals r.activation r'.activation ∧ ¬r.Splits) ∨
    (∃ slot v, slot + v.slots ≤ r.activation.locals.size ∧
      r'.activation.locals = put r.activation.locals slot v ∧
      (r.Splits ↔ Second r.activation.locals slot)) ∨
    ∃ slot n k, r.activation.locals[slot]? = some (some (.int n)) ∧
      r'.activation.locals = r.activation.locals.setIfInBounds slot (some (.int k)) ∧ ¬r.Splits := by
  cases read : Operation.decode r.activation.bytes r.activation.pc with
  | error fault =>
    rw [step_of_fault read] at done
    cases done
  | ok found =>
    obtain ⟨o, next⟩ := found
    cases writes : o.writesLocal with
    | false =>
      have other (kind : ValueKind) (slot : UInt16) : o ≠ .store kind slot := by
        rintro rfl
        cases writes
      exact .inl ⟨step_sameLocals read writes done, not_splits read other⟩
    | true =>
      cases o with
      | store kind slot =>
        obtain ⟨v, inside, locals⟩ := step_store read done
        refine .inr (.inl ⟨slot.toNat, v, inside, locals, fun splits => ?_, fun second => ?_⟩)
        · obtain ⟨kind', slot', next', same, second⟩ := splits
          rw [read] at same
          cases same
          exact second
        · exact ⟨kind, slot, next, read, second⟩
      | increment slot delta =>
        obtain ⟨n, k, held, locals⟩ := step_increment read done
        exact .inr (.inr ⟨slot.toNat, n, k, held, locals, not_splits read fun _ _ => nofun⟩)
      | _ => cases writes

theorem step_paired (paired : Paired r.activation.locals) (done : step r = .ok f r') :
    Paired r'.activation.locals ↔ ¬r.Splits := by
  rcases step_locals done with ⟨same, whole⟩ | ⟨slot, v, inside, locals, splits⟩ |
    ⟨slot, n, k, held, locals, whole⟩
  · rw [same]
    exact iff_of_true paired whole
  · rw [locals, splits]
    exact paired_put paired inside
  · rw [locals]
    exact iff_of_true (paired.setIfInBounds held) whole

theorem step_roomy (roomy : Roomy r.activation.locals) (done : step r = .ok f r') :
    Roomy r'.activation.locals := by
  rcases step_locals done with ⟨same, -⟩ | ⟨slot, v, inside, locals, -⟩ |
    ⟨slot, n, k, held, locals, -⟩
  · rwa [same]
  · rw [locals]
    exact roomy.put inside
  · rw [locals]
    exact roomy.setIfInBounds held

theorem catching_locals {a b : Activation} {start : Nat} {v : Value} {m m' : Machine}
    (done : a.catching start v m = .ok b m') : SameLocals a b := by
  rw [catching_eq] at done
  split at done
  · cases done
  · cases done
  · split at done
    · cases done
    · rename_i pushed
      cases done
      obtain ⟨-, rfl⟩ := push_eq_ok pushed
      rfl

theorem turn_locals {fuel : Nat} (turn : Turn fuel r r') :
    ∃ f r₁, step r = .ok f r₁ ∧ SameLocals r₁.activation r'.activation := by
  rcases turn with proceeds | ⟨v, r₁, threw, caught⟩
  · cases proceeds with
    | next stepped => exact ⟨_, _, stepped, rfl⟩
    | called stepped ran answer =>
      have locals := ((operates_answered _).keeps kept_sameLocals).ok _ _ _ answer
      exact ⟨_, _, stepped, locals⟩
  · cases threw with
    | raised stepped => exact ⟨_, _, stepped, catching_locals caught⟩
    | passed stepped ran => exact ⟨_, _, stepped, catching_locals caught⟩

theorem turn_paired {fuel : Nat} (paired : Paired r.activation.locals) (turn : Turn fuel r r') :
    Paired r'.activation.locals ↔ ¬r.Splits := by
  obtain ⟨f, r₁, stepped, same⟩ := turn_locals turn
  rw [same]
  exact step_paired paired stepped

theorem turn_roomy {fuel : Nat} (roomy : Roomy r.activation.locals) (turn : Turn fuel r r') :
    Roomy r'.activation.locals := by
  obtain ⟨f, r₁, stepped, same⟩ := turn_locals turn
  rw [same]
  exact step_roomy roomy stepped

theorem Visits.roomy (visits : Visits r r') (roomy : Roomy r.activation.locals) :
    Roomy r'.activation.locals := by
  induction visits with
  | start => exact roomy
  | turn _ turn ih => exact turn_roomy ih turn
  | call _ stepped _ => exact (step_call stepped).paired.roomy

/-- Where a run gets to, it gets by turns of a method from when that was called. -/
theorem Visits.exists_call (visits : Visits r r') (entered : r.activation.Entered) :
    ∃ r₁, Visits r r₁ ∧ r₁.activation.Entered ∧ Turns r₁ r' := by
  induction visits with
  | start => exact ⟨r, .start, entered, .refl⟩
  | turn _ turn ih =>
    obtain ⟨r₁, visited, entered, turns⟩ := ih
    exact ⟨r₁, visited, entered, turns.tail ⟨_, turn⟩⟩
  | call visited stepped _ => exact ⟨_, visited.call stepped, step_call stepped, .refl⟩

theorem Turns.paired (turns : Turns r r') (paired : Paired r.activation.locals) :
    Paired r'.activation.locals ∨
      ∃ r₁, Turns r r₁ ∧ Paired r₁.activation.locals ∧ r₁.Splits ∧ Turns r₁ r' := by
  induction turns with
  | refl => exact .inl paired
  | @tail r₁ r₂ before last ih =>
    obtain ⟨fuel, turn⟩ := last
    rcases ih with paired | ⟨r₀, first, whole, splits, after⟩
    · rw [turn_paired paired turn]
      by_cases splits : r₁.Splits
      · exact .inr ⟨r₁, before, paired, splits, .single ⟨fuel, turn⟩⟩
      · exact .inl splits
    · exact .inr ⟨r₀, first, whole, splits, after.tail ⟨fuel, turn⟩⟩

/-- Wherever a run gets to, values of two slots in locals have room for both. Arguments are passed
in whole pairs, and of all instructions only stores break one, those into the second slot of a value
of two. So pairs are whole unless the method at hand has made such a store since it was called. -/
theorem paired_of_visits {a : Activation} (entered : a.Entered) (m : Machine) :
    Paired a.locals ∧ ∀ r, Visits ⟨a, m⟩ r → Roomy r.activation.locals ∧
      (∃ start, Visits ⟨a, m⟩ start ∧ start.activation.Entered ∧ Turns start r ∧
        (Paired r.activation.locals ∨
          ∃ r₁, Turns start r₁ ∧ Paired r₁.activation.locals ∧ r₁.Splits ∧ Turns r₁ r)) ∧
      ∀ f r', Paired r.activation.locals → step r = .ok f r' →
        (Paired r'.activation.locals ↔ ¬r.Splits) := by
  refine ⟨entered.paired, fun r visits => ⟨visits.roomy entered.paired.roomy, ?_, ?_⟩⟩
  · obtain ⟨start, visited, called, turns⟩ := visits.exists_call entered
    exact ⟨start, visited, called, turns, turns.paired called.paired⟩
  · intro f r' paired done
    exact step_paired paired done

def keeping : Activation where
  owner := .root
  bytes := #[0x0a, 0x3f]
  handlers := []
  maxStack := 2
  locals := #[none, none]

theorem paired_of_visits_long : keeping.Entered ∧ ∃ r r', Visits ⟨keeping, {}⟩ r ∧
    step r = .ok .next r' ∧ Wide r'.activation.locals 0 ∧ Paired r'.activation.locals := by
  have entered : keeping.Entered := ⟨.root, "keep", ⟨2, 2, [0x0a, 0x3f], [], []⟩, [], rfl⟩
  have pushes : step ⟨keeping, {}⟩ = .ok .next ⟨keeping.holding 1 [.long 1], {}⟩ := rfl
  have stores : step ⟨keeping.holding 1 [.long 1], {}⟩ =
    .ok .next ⟨{ keeping.holding 2 [] with locals := #[some (.long 1), none] }, {}⟩ := rfl
  have visits : Visits ⟨keeping, {}⟩ ⟨keeping.holding 1 [.long 1], {}⟩ :=
    @Visits.turn _ _ _ 0 .start (.inl (.next pushes))
  obtain ⟨paired, all⟩ := paired_of_visits entered {}
  obtain ⟨-, -, steps⟩ := all _ visits
  have whole : ¬Run.Splits ⟨keeping.holding 1 [.long 1], {}⟩ := by
    intro splits
    obtain ⟨kind, slot, next, -, i, -, wide⟩ := splits
    obtain ⟨v, held, -⟩ := wide
    match i with
    | 0 | 1 => cases held
    | i + 2 => cases held
  exact ⟨entered, _, _, visits, stores, ⟨.long 1, rfl, rfl⟩, (steps _ _ paired stores).2 whole⟩

def onward? : Nat → Run → Option Run
  | 0, r => some r
  | n + 1, r =>
    match step r with
    | .ok .next r' => onward? n r'
    | _ => none

theorem visits_of_onward {n : Nat} (onward : onward? n r = some r') : Visits r r' := by
  induction n generalizing r with
  | zero =>
    cases onward
    exact .start
  | succ n ih =>
    rw [onward?] at onward
    split at onward
    · rename_i stepped
      exact (@Visits.turn _ _ _ 0 .start (.inl (.next stepped))).trans (ih onward)
    · cases onward

end Run

namespace Machine

open Outcome

/-- A class with a method that keeps a long, stores into its second slot and returns the long. -/
def splittingClass : List UInt8 :=
  [0xca, 0xfe, 0xba, 0xbe, 0, 0, 0, 49, 0, 8,
    1, 0, 1, 0x43, 7, 0, 1,
    1, 0, 16, 0x6a, 0x61, 0x76, 0x61, 0x2f, 0x6c, 0x61, 0x6e, 0x67, 0x2f, 0x4f, 0x62, 0x6a, 0x65, 0x63,
    0x74, 7, 0, 3,
    1, 0, 1, 0x66, 1, 0, 3, 0x28, 0x29, 0x4a, 1, 0, 4, 0x43, 0x6f, 0x64, 0x65,
    0, 0x21, 0, 2, 0, 4, 0, 0, 0, 0, 0, 1,
    0, 9, 0, 5, 0, 6, 0, 1,
    0, 7, 0, 0, 0, 18, 0, 2, 0, 2, 0, 0, 0, 6, 0x0a, 0x3f, 0x03, 0x3c, 0x1e, 0xad, 0, 0, 0, 0,
    0, 0]

def reached (n : Nat) : Dispatch → MachineM (Activation × Run)
  | .entered a => fun m =>
    match Run.onward? n ⟨a, m⟩ with
    | some r => .ok (a, r) m
    | none => .error .outOfFuel m
  | .answered _ => throw .outOfFuel

theorem reached_eq_ok {n : Nat} {d : Dispatch} {a : Activation} {r : Run} {m m' : Machine}
    (done : reached n d m = .ok (a, r) m') : d = .entered a ∧ Run.Visits ⟨a, m⟩ r := by
  cases d with
  | answered v => cases done
  | entered a =>
    rw [reached] at done
    dsimp only at done
    split at done
    · rename_i onward
      cases done
      exact ⟨rfl, Run.visits_of_onward onward⟩
    · cases done

/-- A long is loaded though something was stored into its second slot. -/
theorem split_of_splittingClass : ∃ name m₁, define splittingClass {} = .ok name m₁ ∧
    ∃ a m₂, Dispatch.static name "f" "()J" [] m₁ = .ok (.entered a) m₂ ∧ a.Entered ∧
      ∃ r, Run.Visits ⟨a, m₂⟩ r ∧ ¬Locals.Paired r.activation.locals ∧
        r.activation.stack = [.long 1] := by
  have ran : (((do reached 5 (← Dispatch.static (← define splittingClass) "f" "()J" []) :
      MachineM (Activation × Run)).run' {}).any fun x =>
        x.2.activation.locals == #[some (.long 1), some (.int 0)] &&
          x.2.activation.stack == [.long 1]) = true := by decide +kernel
  obtain ⟨⟨a, r⟩, m₃, done, shape⟩ := exists_of_any_run ran
  obtain ⟨name, m₁, defined, done⟩ := run_bind_eq_ok.1 done
  obtain ⟨d, m₂, called, done⟩ := run_bind_eq_ok.1 done
  obtain ⟨rfl, visits⟩ := reached_eq_ok done
  have entered := Dispatch.enters_static _ _ _ _ _ _ _ called
  obtain ⟨locals, stack⟩ := Bool.and_eq_true_iff.1 shape
  refine ⟨name, m₁, defined, a, m₂, called, entered, r, visits, fun paired => ?_, eq_of_beq stack⟩
  rw [eq_of_beq locals] at paired
  have empty := paired 0 ⟨.long 1, rfl, rfl⟩
  cases empty

end Machine
end ClassForge
