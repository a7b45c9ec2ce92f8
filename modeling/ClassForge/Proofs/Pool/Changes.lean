import ClassForge.Proofs.Pool.Alike

namespace ClassForge.Pool

inductive Change where
  | intern (e : Entry)
  | request (r : Request)
  | truncate (n : Nat)

namespace Change

def perform : Change → PoolM (Option Index)
  | intern e => do return some (← Pool.intern e)
  | request r => do return some (← r.answer)
  | truncate n => do
    modify fun p => p.truncate n
    return none

/-- The pool after the change, which may have failed. -/
def apply (change : Change) (p : Pool) : Pool := left change.perform p

def answer (change : Change) (p : Pool) : Except Error (Option Index) :=
  match change.perform p with
  | .ok i _ => .ok i
  | .error e _ => .error e

theorem blind (change : Change) : View.ofPool.Blind change.perform := by
  cases change with
  | intern e => exact ((Interns.intern e).bind fun _ => .pure _).keeps.blind
  | request r => exact ((Interns.answer r).bind fun _ => .pure _).keeps.blind
  | truncate n =>
    intro p q alike
    exact .ok none ⟨alike.pool.truncate n, rfl⟩

end Change

/-- The pool after changes, of which those that fail are passed over. -/
def after (p : Pool) (changes : List Change) : Pool :=
  changes.foldl (fun p change => change.apply p) p

def answers (p : Pool) : List Change → List (Except Error (Option Index))
  | [] => []
  | change :: rest => change.answer p :: (change.apply p).answers rest

/-- Pools that start empty, or with some slots that may hold an entry twice, and then change. The
number is that of the slots they start with. -/
inductive Reached : Nat → Pool → Prop where
  | new : Reached 0 {}
  | ofSlots (slots : List (Option Entry)) : Reached slots.length (ofSlots slots)
  | change {given : Nat} {p : Pool} (reached : Reached given p) (change : Change) :
    Reached given (change.apply p)

variable {p q : Pool} {given : Nat}

namespace Alike

theorem answer (alike : p.Alike q) (change : Change) : change.answer p = change.answer q := by
  have ends := change.blind p q ⟨alike, rfl⟩
  unfold Change.answer
  generalize change.perform p = x at ends
  generalize change.perform q = y at ends
  cases ends <;> rfl

theorem apply (alike : p.Alike q) (change : Change) : (change.apply p).Alike (change.apply q) := by
  have ends := change.blind p q ⟨alike, rfl⟩
  unfold Change.apply left
  generalize change.perform p = x at ends
  generalize change.perform q = y at ends
  cases ends with
  | ok i alike | error e alike => exact alike.pool

theorem after (alike : p.Alike q) (changes : List Change) :
    p.answers changes = q.answers changes ∧ (p.after changes).Alike (q.after changes) := by
  induction changes generalizing p q with
  | nil => exact ⟨rfl, alike⟩
  | cons change rest ih =>
    obtain ⟨answers, stays⟩ := ih (alike.apply change)
    exact ⟨by rw [Pool.answers, Pool.answers, alike.answer, answers], stays⟩

end Alike

theorem same_iff : p.same q = true ↔ p.slots = q.slots := by
  rw [same, beq_iff_eq]
  constructor
  · intro equal
    exact congrArg OneIndexed.mk (Array.toList_inj.1 equal)
  · intro equal
    rw [equal]

/-- What each entry that is added preserves, and each cut, is preserved by a change. -/
theorem Change.preserves {P : Pool → Prop} (change : Change) (holds : P p)
    (added : ∀ q e, q.find? e = none → q.size + e.width ≤ maxSlots → P q → P (q.append e))
    (cut : ∀ q n, change = .truncate n → P q → P (q.truncate n)) : P (change.apply p) := by
  have interned : ∀ q e, P q → P (left (Pool.intern e) q) := by
    intro q e before
    rcases left_intern e q with same | ⟨new, absent, room⟩
    · rwa [same]
    · rw [new]
      exact added q e absent room before
  cases change with
  | intern e => exact ((Interns.intern e).bind fun _ => .pure _).preserves interned holds
  | request r => exact ((Interns.answer r).bind fun _ => .pure _).preserves interned holds
  | truncate n => exact cut p n rfl holds

theorem preserves_after {P : Pool → Prop} (changes : List Change) (holds : P p)
    (added : ∀ q e, q.find? e = none → q.size + e.width ≤ maxSlots → P q → P (q.append e))
    (cut : ∀ q n, Change.truncate n ∈ changes → P q → P (q.truncate n)) : P (p.after changes) := by
  induction changes generalizing p with
  | nil => exact holds
  | cons change rest ih =>
    refine ih (change.preserves holds added fun q n same => cut q n ?_) fun q n later => cut q n ?_
    · rw [same]
      exact List.mem_cons_self
    · exact List.mem_cons_of_mem change later

theorem bounded_ofSlots (slots : List (Option Entry)) : (ofSlots slots).Bounded := by
  intro e i found
  rw [size_ofSlots]
  induction slots using List.reverseRecOn with
  | nil =>
    have missing : (ofSlots []).find? e = none := rfl
    rw [missing] at found
    cases found
  | append_singleton slots slot ih =>
    rw [find?_ofSlots_concat] at found
    rw [List.length_append, List.length_singleton]
    rcases Option.or_eq_some_iff.1 found with before | ⟨-, last⟩
    · exact Nat.le_succ_of_le (ih before)
    · -- An index that wraps around is all the less.
      obtain ⟨-, last⟩ := Option.ite_none_right_eq_some.1 last
      rw [← Option.some.inj last, UInt16.toNat_ofNat']
      exact Nat.mod_le _ _

theorem Bounded.append (bounded : p.Bounded) (e : Entry) : (p.append e).Bounded := by
  intro x i found
  have wide := e.one_le_width
  rw [find?_append] at found
  rw [size_append]
  split at found
  · rw [← Option.some.inj found, UInt16.toNat_ofNat']
    have wrapped := Nat.mod_le (p.size + 1) (2 ^ 16)
    omega
  · have bound := bounded x i found
    omega

theorem Bounded.truncate (bounded : p.Bounded) (n : Nat) : (p.truncate n).Bounded := by
  intro e i found
  obtain ⟨found, inside⟩ := (find?_truncate ..).1 found
  have bound := bounded e i found
  rw [size_truncate]
  omega

theorem Reached.bounded (reached : Reached given p) : p.Bounded := by
  induction reached with
  | new => exact bounded_ofSlots []
  | ofSlots slots => exact bounded_ofSlots slots
  | change _ change ih =>
    exact change.preserves ih (fun _ e _ _ before => before.append e)
      fun _ n _ before => before.truncate n

/-- Lookups that are right, in a pool whose slots all have an index. -/
structure Agreeing (p : Pool) : Prop where
  indexed : p.Indexed
  small : p.size ≤ 65535

namespace Agreeing

theorem ofSlots {slots : List (Option Entry)} (few : slots.length ≤ 65535) :
    (ofSlots slots).Agreeing :=
  ⟨indexed_ofSlots few, size_ofSlots slots ▸ few⟩

theorem append (agreeing : p.Agreeing) {e : Entry} (absent : p.find? e = none)
    (room : p.size + e.width ≤ maxSlots) : (p.append e).Agreeing := by
  have fits : p.size + e.width ≤ 65535 := Nat.le_trans room (by decide)
  exact ⟨agreeing.indexed.append absent fits, size_append p e ▸ fits⟩

theorem intern (agreeing : p.Agreeing) (e : Entry) : (left (Pool.intern e) p).Agreeing := by
  rcases left_intern e p with same | ⟨added, absent, room⟩
  · rw [same]
    exact agreeing
  · rw [added]
    exact agreeing.append absent room

theorem truncate (agreeing : p.Agreeing) (n : Nat) : (p.truncate n).Agreeing := by
  refine ⟨agreeing.indexed.truncate n, ?_⟩
  rw [size_truncate]
  exact Nat.le_trans (Nat.min_le_right n p.size) agreeing.small

theorem apply (agreeing : p.Agreeing) (change : Change) : (change.apply p).Agreeing :=
  change.preserves agreeing (fun _ _ absent room before => before.append absent room)
    fun _ n _ before => before.truncate n

theorem after (agreeing : p.Agreeing) (changes : List Change) : (p.after changes).Agreeing :=
  preserves_after changes agreeing (fun _ _ absent room before => before.append absent room)
    fun _ n _ before => before.truncate n

end Agreeing

theorem Agreeing.empty : ({} : Pool).Agreeing :=
  have few : ([] : List (Option Entry)).length ≤ 65535 := Nat.zero_le _
  .ofSlots few

theorem Reached.agreeing (reached : Reached given p) (few : given ≤ 65535) : p.Agreeing := by
  induction reached with
  | new => exact .empty
  | ofSlots slots => exact .ofSlots few
  | change _ change ih => exact (ih few).apply change

theorem Agreeing.mem_iff (agreeing : p.Agreeing) {e : Entry} :
    some e ∈ p.slots.toList ↔ ∃ i, p.get? i = some e := by
  constructor
  · intro inside
    obtain ⟨n, hn⟩ := List.getElem?_of_mem inside
    have bound := (List.getElem?_eq_some_iff.1 hn).1
    rw [← size_eq_length] at bound
    have small := agreeing.small
    have whole : (UInt16.ofNat (n + 1)).toNat = n + 1 := by
      rw [UInt16.toNat_ofNat']
      omega
    refine ⟨UInt16.ofNat (n + 1), ?_⟩
    rw [get?, whole, slots_get?_succ, hn, Option.join_some]
  · intro holds
    obtain ⟨i, holds⟩ := holds
    have pos := (toNat_le_size holds).1
    rw [get?_of_pos pos, Option.join_eq_some_iff, ← Array.getElem?_toList] at holds
    exact List.mem_of_getElem? holds

theorem Agreeing.find?_eq_none (agreeing : p.Agreeing) {e : Entry} :
    p.find? e = none ↔ some e ∉ p.slots.toList := by
  rw [agreeing.indexed.find?_eq_none, agreeing.mem_iff, not_exists]

theorem intern_of_present {e : Entry} {i : Index} (found : p.find? e = some i) :
    intern e p = .ok i p := by
  rw [intern, found]

theorem intern_of_absent {e : Entry} (absent : p.find? e = none) :
    if p.size + e.width ≤ maxSlots then
      ∃ i q, intern e p = .ok i q ∧ i.toNat = p.size + 1 ∧ q.size = p.size + e.width ∧
        q.slots.toList = p.slots.toList ++ e.slots ∧ q.find? e = some i ∧
        ∀ x, x ≠ e → q.find? x = p.find? x
    else intern e p = .error (.poolOverflow (p.size + e.width)) p := by
  have wide := e.one_le_width
  have bound : maxSlots = 65534 := rfl
  unfold intern
  rw [absent]
  dsimp only
  split
  · rename_i room
    refine ⟨UInt16.ofNat (p.size + 1), p.append e, if_neg (Nat.not_lt.2 room), ?_, size_append p e,
      toList_append p e, ?_, fun x other => ?_⟩
    · rw [UInt16.toNat_ofNat']
      omega
    · rw [find?_append, if_pos rfl]
    · rw [find?_append, if_neg other]
  · rename_i full
    exact if_pos (Nat.not_le.1 full)

/-- Lookups find the first of the slots that hold an entry, so an entry is put in once and gets the
next index. Pools of the same slots give the same, whatever is done to them. -/
theorem lookups_agree (reached : Reached given p) (few : given ≤ 65535) :
    (∀ e, (∀ i, p.find? e = some i ↔ p.First e i) ∧
      (p.find? e = none ↔ some e ∉ p.slots.toList)) ∧
    (∀ e i, p.find? e = some i → intern e p = .ok i p) ∧
    (∀ e, p.find? e = none →
      if p.size + e.width ≤ maxSlots then
        ∃ i q, intern e p = .ok i q ∧ i.toNat = p.size + 1 ∧ q.size = p.size + e.width ∧
          q.slots.toList = p.slots.toList ++ e.slots ∧ q.find? e = some i ∧
          ∀ x, x ≠ e → q.find? x = p.find? x
      else intern e p = .error (.poolOverflow (p.size + e.width)) p) ∧
    ∀ given' q, Reached given' q → given' ≤ 65535 → p.same q = true → ∀ changes,
      p.answers changes = q.answers changes ∧
        (p.after changes).same (q.after changes) = true ∧
        ∀ e, (p.after changes).find? e = (q.after changes).find? e := by
  have agreeing := reached.agreeing few
  refine ⟨fun e => ⟨agreeing.indexed e, agreeing.find?_eq_none⟩, fun e i => intern_of_present,
    fun e => intern_of_absent, fun given' q reached' few' same changes => ?_⟩
  have agreeing' := reached'.agreeing few'
  have alike := Alike.of_indexed agreeing.indexed agreeing'.indexed (same_iff.1 same)
  obtain ⟨answers, stays⟩ := alike.after changes
  exact ⟨answers, same_iff.2 stays.slots, stays.find⟩

theorem lookups_agree_twice : let e := Entry.utf8 [0x41]
    let twice := ofSlots [some e, some e]
    let cut := Change.apply (.truncate 1) twice
    let new := Change.apply (.intern e) {}
    twice.find? e = some 1 ∧ intern e twice = .ok 1 twice ∧
      (∃ i q, intern (.long 0 5) twice = .ok i q ∧ i.toNat = 3 ∧ q.size = 4) ∧
      cut.answers [.truncate 0, .intern e] = new.answers [.truncate 0, .intern e] := by
  intro e twice cut new
  have reached : Reached 2 twice := .ofSlots [some e, some e]
  have same : cut.same new = true := by decide +kernel
  obtain ⟨finds, present, absent, -⟩ := lookups_agree reached (by decide)
  obtain ⟨-, -, -, alike⟩ := lookups_agree (reached.change (.truncate 1)) (by decide)
  have first : twice.First e 1 := ⟨rfl, fun j holds => by
    rw [UInt16.le_iff_toNat_le]
    exact (toNat_le_size holds).1⟩
  have found := ((finds e).1 1).2 first
  have missing : twice.find? (.long 0 5) = none := (finds _).2.2 (by decide)
  have room : twice.size + (Entry.long 0 5).width ≤ maxSlots := by decide
  have grows := absent (.long 0 5) missing
  rw [if_pos room] at grows
  obtain ⟨i, q, added, index, size, -⟩ := grows
  exact ⟨found, present e 1 found, ⟨i, q, added, index, size⟩,
    (alike 0 new (.change .new (.intern e)) (by decide) same _).1⟩

end ClassForge.Pool
