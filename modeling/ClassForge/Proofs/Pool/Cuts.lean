import ClassForge.Proofs.Format.Writing
import ClassForge.Proofs.Pool.Lasting

namespace ClassForge.Pool

variable {p q : Pool} {i n : Nat}

/-- Slot `i` holds a wide entry. -/
def WideAt (p : Pool) (i : Nat) : Prop := ∃ e, p.slots.get? i = some (some e) ∧ e.isWide = true

/-- A cut to this length splits a wide entry. -/
def Splits (p : Pool) (n : Nat) : Prop := p.WideAt n ∧ p.slots.get? (n + 1) = some none

/-- Slot `i` holds a wide entry without a second slot. -/
def Halved (p : Pool) (i : Nat) : Prop := p.WideAt i ∧ p.slots.get? (i + 1) ≠ some none

def Backed (p : Pool) : Prop := ∀ i, p.slots.get? (i + 1) = some none → p.WideAt i

theorem Backed.laidOut_iff (backed : p.Backed) : p.LaidOut ↔ ∀ i, ¬p.Halved i := by
  constructor
  · intro laidOut i halved
    exact halved.2 ((laidOut i).2 halved.1)
  · intro whole i
    exact ⟨backed i, fun wide => Classical.not_not.1 fun missing => whole i ⟨wide, missing⟩⟩

theorem slot_append (p : Pool) (e : Entry) (i : Nat) : (p.append e).slots.get? i =
    if i ≤ p.size then p.slots.get? i else e.slots[i - p.size - 1]? := by
  cases i with
  | zero => rfl
  | succ i =>
    rw [slots_get?_succ, slots_get?_succ, toList_append, List.getElem?_append, ← size_eq_length]
    by_cases inside : i < p.size
    · rw [if_pos inside, if_pos (by omega)]
    · rw [if_neg inside, if_neg (by omega)]
      congr 1
      omega

theorem slot_past (past : p.size < i) : p.slots.get? i = none := by
  obtain ⟨n, rfl⟩ := Nat.exists_eq_succ_of_ne_zero (Nat.ne_of_gt (Nat.zero_lt_of_lt past))
  rw [slots_get?_succ]
  apply List.getElem?_eq_none
  rw [← size_eq_length]
  omega

theorem slot_truncate (p : Pool) (n i : Nat) :
    (p.truncate n).slots.get? i = if i ≤ n then p.slots.get? i else none := by
  rw [Pool.truncate]
  split
  · rename_i short
    split
    · rfl
    · exact slot_past (by omega)
  · cases i with
    | zero => simp
    | succ i =>
      simp only [OneIndexed.get?, OneIndexed.truncate, Array.take_eq_extract,
        Array.getElem?_extract]
      grind

theorem WideAt.le_size (wide : p.WideAt i) : i ≤ p.size := by
  obtain ⟨e, holds, -⟩ := wide
  rcases Nat.lt_or_ge p.size i with past | inside
  · rw [slot_past past] at holds
    cases holds
  · exact inside

theorem slots_eq_some (e x : Entry) (n : Nat) :
    e.slots[n]? = some (some x) ↔ n = 0 ∧ e = x := by
  unfold Entry.slots
  split
  · match n with
    | 0 | 1 | n + 2 => simp
  · match n with
    | 0 | n + 1 => simp

theorem slots_eq_none (e : Entry) (n : Nat) :
    e.slots[n]? = some none ↔ n = 1 ∧ e.isWide = true := by
  unfold Entry.slots
  split
  · rename_i wide
    match n with
    | 0 | 1 | n + 2 => simp [wide]
  · rename_i narrow
    match n with
    | 0 | n + 1 => simp [narrow]

theorem wideAt_append (p : Pool) (e : Entry) (i : Nat) :
    (p.append e).WideAt i ↔ p.WideAt i ∨ i = p.size + 1 ∧ e.isWide = true := by
  rw [WideAt, slot_append]
  split
  · rename_i inside
    exact (or_iff_left fun new => absurd new.1 (by omega)).symm
  · rename_i past
    rw [or_iff_right fun wide : p.WideAt i => past wide.le_size]
    have place : i - p.size - 1 = 0 ↔ i = p.size + 1 := by omega
    simp only [slots_eq_some, place, and_assoc, exists_and_left, exists_eq_left']

theorem empty_append (p : Pool) (e : Entry) (i : Nat) :
    (p.append e).slots.get? (i + 1) = some none ↔
      p.slots.get? (i + 1) = some none ∨ i = p.size + 1 ∧ e.isWide = true := by
  rw [slot_append]
  split
  · rename_i inside
    exact (or_iff_left fun new => absurd new.1 (by omega)).symm
  · rename_i past
    rw [slot_past (Nat.lt_of_not_le past), or_iff_right (by simp), slots_eq_none]
    have place : i + 1 - p.size - 1 = 1 ↔ i = p.size + 1 := by omega
    rw [place]

theorem wideAt_truncate (p : Pool) (n i : Nat) :
    (p.truncate n).WideAt i ↔ i ≤ n ∧ p.WideAt i := by
  rw [WideAt, slot_truncate]
  split
  · rename_i kept
    exact (and_iff_right kept).symm
  · rename_i cut
    simp [cut]

theorem empty_truncate (p : Pool) (n i : Nat) : (p.truncate n).slots.get? (i + 1) = some none ↔
    i < n ∧ p.slots.get? (i + 1) = some none := by
  rw [slot_truncate, Option.ite_none_right_eq_some, Nat.succ_le_iff]

namespace Backed

theorem empty : ({} : Pool).Backed := by
  intro i empty
  cases empty

theorem append (backed : p.Backed) (e : Entry) : (p.append e).Backed := by
  intro i empty
  rw [wideAt_append]
  exact ((empty_append p e i).1 empty).imp_left (backed i)

theorem truncate (backed : p.Backed) (n : Nat) : (p.truncate n).Backed := by
  intro i empty
  obtain ⟨kept, empty⟩ := (empty_truncate p n i).1 empty
  exact (wideAt_truncate p n i).2 ⟨Nat.le_of_lt kept, backed i empty⟩

end Backed

theorem halved_append (p : Pool) (e : Entry) (i : Nat) : (p.append e).Halved i ↔ p.Halved i := by
  rw [Halved, Halved, wideAt_append, Ne, empty_append, not_or]
  constructor
  · intro halved
    obtain ⟨wide | new, before, other⟩ := halved
    · exact ⟨wide, before⟩
    · exact absurd new other
  · intro halved
    refine ⟨.inl halved.1, halved.2, fun new => ?_⟩
    have inside := halved.1.le_size
    omega

theorem halved_truncate (p : Pool) (n i : Nat) :
    (p.truncate n).Halved i ↔ i ≤ n ∧ (p.Halved i ∨ i = n ∧ p.Splits i) := by
  rw [Halved, wideAt_truncate, Ne, empty_truncate, and_assoc]
  refine and_congr_right fun kept => ?_
  rw [Halved, Splits]
  constructor
  · intro halved
    obtain ⟨wide, missing⟩ := halved
    by_cases empty : p.slots.get? (i + 1) = some none
    · have last : n ≤ i := Nat.not_lt.1 fun less => missing ⟨less, empty⟩
      exact .inr ⟨Nat.le_antisymm kept last, wide, empty⟩
    · exact .inl ⟨wide, empty⟩
  · intro halved
    rcases halved with ⟨wide, missing⟩ | ⟨rfl, wide, -⟩
    · exact ⟨wide, fun inside => missing inside.2⟩
    · exact ⟨wide, fun inside => absurd inside.1 (Nat.lt_irrefl i)⟩

theorem splits_append (inside : n ≤ p.size) (e : Entry) :
    (p.append e).Splits n ↔ p.Splits n := by
  have old : ¬(n = p.size + 1 ∧ e.isWide = true) := fun new => by omega
  rw [Splits, Splits, wideAt_append, empty_append, or_iff_left old, or_iff_left old]

theorem Splits.of_truncate {m : Nat} (splits : (p.truncate m).Splits n) : p.Splits n :=
  ⟨((wideAt_truncate p m n).1 splits.1).2, ((empty_truncate p m n).1 splits.2).2⟩

theorem not_splits_size (p : Pool) : ¬p.Splits p.size := by
  intro splits
  have past := splits.2
  rw [slot_past (Nat.lt_succ_self p.size)] at past
  cases past

theorem Backed.after (backed : p.Backed) (changes : List Change) : (p.after changes).Backed :=
  preserves_after changes backed (fun _ e _ _ before => before.append e)
    fun _ n _ before => before.truncate n

theorem halved_apply (p : Pool) (change : Change) (i : Nat) : (change.apply p).Halved i ↔
    (∀ n, change = .truncate n → i ≤ n) ∧ (p.Halved i ∨ change = .truncate i ∧ p.Splits i) := by
  cases change with
  | truncate n =>
    have cut : (Change.truncate n).apply p = p.truncate n := rfl
    rw [cut, halved_truncate]
    simp [eq_comm]
  | intern e | request r =>
    simp only [reduceCtorEq, false_implies, implies_true, true_and, false_and, or_false]
    exact Change.preserves (P := fun q => q.Halved i ↔ p.Halved i) _ Iff.rfl
      (fun q e _ _ before => (halved_append q e i).trans before) (by simp)

/-- A cut to `i` split a wide entry, and nothing in front of that was cut off since. -/
def LastSplit (p : Pool) (changes : List Change) (i : Nat) : Prop :=
  ∃ before later, changes = before ++ .truncate i :: later ∧ (p.after before).Splits i ∧
    ∀ n, Change.truncate n ∈ later → i ≤ n

theorem lastSplit_cons (p : Pool) (change : Change) (rest : List Change) (i : Nat) :
    p.LastSplit (change :: rest) i ↔
      (change = .truncate i ∧ p.Splits i ∧ ∀ n, Change.truncate n ∈ rest → i ≤ n) ∨
        (change.apply p).LastSplit rest i := by
  constructor
  · intro last
    obtain ⟨before, later, shape, splits, kept⟩ := last
    cases before with
    | nil =>
      obtain ⟨rfl, rfl⟩ := List.cons.inj shape
      exact .inl ⟨rfl, splits, kept⟩
    | cons first before =>
      obtain ⟨rfl, rfl⟩ := List.cons.inj shape
      exact .inr ⟨before, later, rfl, splits, kept⟩
  · intro last
    rcases last with ⟨rfl, splits, kept⟩ | ⟨before, later, rfl, splits, kept⟩
    · exact ⟨[], rest, rfl, splits, kept⟩
    · exact ⟨change :: before, later, rfl, splits, kept⟩

theorem halved_after (p : Pool) (changes : List Change) (i : Nat) : (p.after changes).Halved i ↔
    (p.Halved i ∧ ∀ n, Change.truncate n ∈ changes → i ≤ n) ∨ p.LastSplit changes i := by
  induction changes generalizing p with
  | nil => simp [after, LastSplit]
  | cons change rest ih =>
    have step : (p.after (change :: rest)).Halved i ↔ ((change.apply p).after rest).Halved i :=
      Iff.rfl
    -- Halves that the first change leaves are those that the others start from.
    rw [step, ih, halved_apply, lastSplit_cons]
    have cuts : (∀ n, Change.truncate n ∈ change :: rest → i ≤ n) ↔
        (∀ n, change = .truncate n → i ≤ n) ∧ ∀ n, Change.truncate n ∈ rest → i ≤ n := by
      simp only [List.mem_cons, or_imp, forall_and, eq_comm]
    rw [cuts]
    constructor
    · intro halved
      rcases halved with ⟨⟨near, half | ⟨cut, splits⟩⟩, far⟩ | last
      · exact .inl ⟨half, near, far⟩
      · exact .inr (.inl ⟨cut, splits, far⟩)
      · exact .inr (.inr last)
    · intro halved
      rcases halved with ⟨half, near, far⟩ | ⟨rfl, splits, far⟩ | last
      · exact .inl ⟨⟨near, .inl half⟩, far⟩
      · exact .inl ⟨⟨fun n same => by cases same; exact Nat.le_refl i, .inr ⟨rfl, splits⟩⟩, far⟩
      · exact .inr last

theorem exists_place {changes before later : List Change} {change : Change}
    (shape : changes = before ++ change :: later) :
    ∃ k, changes[k]? = some change ∧ before = changes.take k :=
  ⟨before.length, by simp [shape], by simp [shape]⟩

/-- The pool had this length, and nothing below it was cut off since. -/
def Kept (changes : List Change) (n : Nat) : Prop :=
  ∃ earlier since, changes = earlier ++ since ∧ (({} : Pool).after earlier).size = n ∧
    ∀ m, Change.truncate m ∈ since → n ≤ m

theorem not_splits_after (inside : n ≤ p.size) (whole : ¬p.Splits n) (changes : List Change)
    (above : ∀ m, Change.truncate m ∈ changes → n ≤ m) : ¬(p.after changes).Splits n := by
  -- What is added comes behind slot `n`, and no entry begins with an empty slot.
  have stays : n ≤ (p.after changes).size ∧ ¬(p.after changes).Splits n := by
    refine preserves_after (P := fun q => n ≤ q.size ∧ ¬q.Splits n) changes ⟨inside, whole⟩
      (fun q e _ _ before => ?_) fun q m cut before => ?_
    · rw [splits_append before.1, size_append]
      exact ⟨Nat.le_trans before.1 (Nat.le_add_right q.size e.width), before.2⟩
    · rw [size_truncate]
      exact ⟨Nat.le_min.2 ⟨above m cut, before.1⟩, fun splits => before.2 splits.of_truncate⟩
  exact stays.2

theorem Kept.not_splits {changes : List Change} (kept : Kept changes n) :
    ¬(({} : Pool).after changes).Splits n := by
  obtain ⟨earlier, since, rfl, rfl, above⟩ := kept
  have through : ({} : Pool).after (earlier ++ since) = (({} : Pool).after earlier).after since :=
    List.foldl_append
  rw [through]
  exact not_splits_after (Nat.le_refl _) (not_splits_size _) since above

/-- The count that is written makes a reader find the slots of the pool, and stop behind its last
entry, just if wide entries have both their slots. -/
theorem laidOut_iff_reads {us : List UInt8} (written : Writer.pool p = .ok us)
    (readable : ∀ e, some e ∈ p.slots.toList → e.Readable) :
    ∃ count v, us = Bytes.ofU16 count ++ v ∧ count.toNat = p.count ∧
      (p.LaidOut ↔ ∀ offset rest, ∃ placed,
        Reader.entries (count.toNat - 1) ⟨offset, v ++ rest⟩ =
          .ok (placed, ⟨offset + v.length, rest⟩) ∧
        placed.map (·.2) = p.slots.toList) := by
  obtain ⟨small, v, hv, rfl⟩ := (Writer.pool_eq_ok p).1 written
  have bound : maxSlots = 65534 := rfl
  have whole : (UInt16.ofNat (p.size + 1)).toNat = p.size + 1 := by
    rw [UInt16.toNat_ofNat']
    omega
  refine ⟨UInt16.ofNat (p.size + 1), v, rfl, whole, ?_⟩
  rw [whole, Nat.add_sub_cancel]
  constructor
  · intro laidOut offset rest
    -- The entries that were written are the ones that fill the slots, one behind the other.
    have spelled : Spelling.all Spelling.entry (p.slots.toList.filterMap id) v := by
      refine Spelling.all_mono (fun e inside u hu => ⟨readable e ?_, hu.2⟩) hv
      simpa using inside
    obtain ⟨es, hes⟩ := laidOut.exists_entries
    rw [hes, filterMap_slots] at spelled
    have read := (Reader.Follows.entries p.size ⟨offset, v ++ rest⟩ p.slots.toList
      ⟨offset + v.length, rest⟩).2 ⟨v, ⟨(size_eq_length p).symm, es, hes, spelled⟩, rfl, rfl⟩
    exact Reader.map_eq_ok.1 read
  · intro reads
    obtain ⟨placed, read, same⟩ := reads 0 []
    obtain ⟨_, ⟨-, es, hes, -⟩, -⟩ :=
      (Reader.Follows.entries p.size _ _ _).1 (Reader.map_eq_ok.2 ⟨placed, read, same⟩)
    exact laidOut_iff.2 ⟨es, hes⟩

/-- Cuts to lengths that pools had, and kept since, leave no half of a wide entry: slots are empty
exactly behind such entries, and what is written has the count by which it is read back. Other cuts
leave halves just if they split an entry and nothing in front of it is cut off later. -/
theorem wide_entries_whole (changes : List Change) :
    let p := ({} : Pool).after changes
    ((∀ before n later, changes = before ++ .truncate n :: later → Kept before n) → p.LaidOut) ∧
    (p.LaidOut ↔ ∀ i, ¬LastSplit {} changes i) ∧
    ∀ us, Writer.pool p = .ok us → (∀ e, some e ∈ p.slots.toList → e.Readable) →
      ∃ count v, us = Bytes.ofU16 count ++ v ∧ count.toNat = p.count ∧
        (p.LaidOut ↔ ∀ offset rest, ∃ placed,
          Reader.entries (count.toNat - 1) ⟨offset, v ++ rest⟩ =
            .ok (placed, ⟨offset + v.length, rest⟩) ∧
          placed.map (·.2) = p.slots.toList) := by
  intro p
  have start : ({} : Pool).LaidOut := Pool.laidOut_iff.2 ⟨[], rfl⟩
  have whole : p.LaidOut ↔ ∀ i, ¬LastSplit {} changes i := by
    rw [(Backed.empty.after changes).laidOut_iff]
    refine forall_congr' fun i => not_congr ?_
    rw [halved_after, or_iff_right fun half => Backed.empty.laidOut_iff.1 start i half.1]
  refine ⟨fun cuts => whole.2 fun i last => ?_, whole, fun us => laidOut_iff_reads⟩
  obtain ⟨before, later, shape, splits, -⟩ := last
  exact (cuts before i later shape).not_splits splits

theorem wide_entries_whole_undone :
    let changes : List Change := [.request (.literal (.long 5)), .request (.utf8 "x"),
      .intern (.double 0 1), .truncate 3, .truncate 2, .request (.literal (.double 7))]
    let p := ({} : Pool).after changes
    p.LaidOut ∧ p.get? 3 = some (.double 0 7) ∧ ∃ us, Writer.pool p = .ok us ∧
      ∃ count v, us = Bytes.ofU16 count ++ v ∧ count.toNat = 5 ∧
        ∃ placed, Reader.entries 4 ⟨2, v⟩ = .ok (placed, ⟨2 + v.length, []⟩) ∧
          placed.map (·.2) = [some (.long 0 5), none, some (.double 0 7), none] := by
  intro changes p
  have slots : p.slots.toList = [some (.long 0 5), none, some (.double 0 7), none] := by
    decide +kernel
  have size : p.size = 4 := by rw [size_eq_length, slots]; rfl
  have kept : ∀ before n later, changes = before ++ .truncate n :: later → Kept before n := by
    intro before n later shape
    obtain ⟨k, cut, rfl⟩ := exists_place shape
    match k with
    | 3 =>
      cases cut
      exact ⟨changes.take 2, (changes.take 3).drop 2, rfl, by decide +kernel, by simp [changes]⟩
    | 4 =>
      cases cut
      exact ⟨changes.take 1, (changes.take 4).drop 1, rfl, by decide +kernel, by simp [changes]⟩
    | 0 | 1 | 2 | 5 | k + 6 => simp [changes] at cut
  obtain ⟨whole, -, counted⟩ := wide_entries_whole changes
  obtain ⟨us, written, -⟩ := Outcome.exists_of_any (x := Writer.pool p) (p := fun _ => true)
    (by decide +kernel)
  have readable : ∀ e, some e ∈ p.slots.toList → e.Readable := by
    intro e inside
    simp only [slots, List.mem_cons, Option.some.injEq, reduceCtorEq, List.not_mem_nil, or_false,
      false_or] at inside
    rcases inside with rfl | rfl <;> exact True.intro
  obtain ⟨count, v, parts, total, reads⟩ := counted us written readable
  obtain ⟨placed, read, same⟩ := reads.1 (whole kept) 2 []
  rw [total, Pool.count, size, List.append_nil] at read
  exact ⟨whole kept, by decide +kernel, us, written, count, v, parts,
    by rw [total, Pool.count, size], placed, read, same.trans slots⟩

/-- All cuts are to lengths that the pool had, but the last one was not kept. -/
theorem halved_of_earlier_lengths :
    let changes : List Change := [.request (.utf8 "a"), .request (.utf8 "b"), .truncate 1,
      .request (.literal (.long 5)), .truncate 2, .request (.utf8 "b")]
    (∀ before n later, changes = before ++ .truncate n :: later →
      ∃ earlier since, before = earlier ++ since ∧ (({} : Pool).after earlier).size = n) ∧
    let p := ({} : Pool).after changes
    p.get? 2 = some (.long 0 5) ∧ p.get? 3 = some (.utf8 [0x62]) ∧ ¬p.LaidOut := by
  intro changes
  refine ⟨fun before n later shape => ?_, by decide +kernel, by decide +kernel, fun laidOut => ?_⟩
  · obtain ⟨k, cut, rfl⟩ := exists_place shape
    match k with
    | 2 =>
      cases cut
      exact ⟨changes.take 1, (changes.take 2).drop 1, rfl, by decide +kernel⟩
    | 4 =>
      cases cut
      exact ⟨changes.take 2, (changes.take 4).drop 2, rfl, by decide +kernel⟩
    | 0 | 1 | 3 | 5 | k + 6 => simp [changes] at cut
  · have empty := (laidOut 2).2 ⟨.long 0 5, by decide +kernel, rfl⟩
    exact absurd empty (by decide +kernel)

end ClassForge.Pool
