import ClassForge.Format.Write
import ClassForge.Proofs.Format.ClassSpelling
import ClassForge.Proofs.Outcome

namespace ClassForge.Writer

open Outcome

variable {α : Type}

/-- A writer gives the bytes by which a value is spelled. -/
def Spells (write : α → Written) (F : Spelling α) : Prop := ∀ a us, write a = .ok us ↔ F a us

theorem parts_spelled {write : α → Written} {F : Spelling α} (spells : Spells write F)
    (xs : List α) (us : List UInt8) :
    (∃ parts, xs.mapM write = .ok parts ∧ us = parts.flatten) ↔ Spelling.all F xs us := by
  induction xs generalizing us with
  | nil => simp [Spelling.all, pure_eq_ok]
  | cons a rest ih =>
    simp only [mapM_cons_eq_ok, Spelling.all, ← spells a, ← ih]
    constructor
    · intro written
      obtain ⟨_, ⟨u, parts, hu, hparts, rfl⟩, rfl⟩ := written
      exact ⟨u, _, hu, ⟨parts, hparts, rfl⟩, by simp⟩
    · intro spelled
      obtain ⟨u, _, hu, ⟨parts, hparts, rfl⟩, rfl⟩ := spelled
      exact ⟨u :: parts, ⟨u, parts, hu, hparts, rfl⟩, by simp⟩

theorem table_spells {write : α → Written} {F : Spelling α} (name : Table)
    (spells : Spells write F) : Spells (table name write) (Spelling.table F) := by
  intro xs us
  simp only [table, guard_eq_ok, bind_eq_ok, pure_eq_ok, Nat.not_lt, Spelling.table]
  refine and_congr_right fun _ => ?_
  constructor
  · intro written
    obtain ⟨parts, hparts, rfl⟩ := written
    exact ⟨_, (parts_spelled spells xs _).1 ⟨parts, hparts, rfl⟩, rfl⟩
  · intro spelled
    obtain ⟨v, hv, rfl⟩ := spelled
    obtain ⟨parts, hparts, rfl⟩ := (parts_spelled spells xs v).2 hv
    exact ⟨parts, hparts, rfl⟩

section Pool

variable (p : Pool)

theorem index_spells (accepted : List Tag) :
    Spells (index p accepted) (Spelling.index p.get? accepted) := by
  intro i us
  have leads : (p.tagAt? i).any (accepted.contains ·) = true ↔ Spelling.Leads p.get? accepted i := by
    simp only [Pool.tagAt?, Spelling.Leads]
    cases p.get? i <;> simp
  simp only [index, Spelling.index, ← leads]
  split
  · rename_i found
    rw [Except.ok.injEq, eq_comm, and_iff_right found]
  · rename_i missing
    constructor
    · intro written
      cases written
    · intro spelled
      exact absurd spelled.1 missing

theorem indexOrZero_spells (accepted : List Tag) :
    Spells (indexOrZero p accepted) (Spelling.indexOrZero p.get? accepted) := by
  intro i us
  rw [indexOrZero, Spelling.indexOrZero]
  by_cases zero : i = 0
  · simp [zero, eq_comm]
  · rw [if_neg zero, index_spells p accepted i us, Spelling.index]
    simp [zero]

theorem verificationType_spells :
    Spells (verificationType p) (Spelling.verificationType p.get?) := by
  intro t us
  cases t with
  | object c =>
    simp only [verificationType, bind_eq_ok, pure_eq_ok, Spelling.verificationType,
      index_spells p _ c, VerificationType.byte]
  | _ => simp [verificationType, pure_eq_ok, Spelling.verificationType, VerificationType.byte]

theorem frame_spells : Spells (frame p) (Spelling.frame p.get?) := by
  intro f us
  rw [frame, Spelling.frame]
  cases f.type? with
  | none => simp [throw, throwThe, MonadExceptOf.throw]
  | some type =>
    cases f with
    | same d | chop d n | sameExtended d => simp [pure_eq_ok, Spelling.frameRest]
    | sameLocalsOneItem d t =>
      simp only [bind_eq_ok, pure_eq_ok, verificationType_spells p t]
      simp [Spelling.frameRest]
    | sameLocalsOneItemExtended d t =>
      simp only [bind_eq_ok, pure_eq_ok, verificationType_spells p t]
      simp [Spelling.frameRest]
    | append d locals =>
      simp only [bind_eq_ok, pure_eq_ok, Spelling.frameRest,
        ← parts_spelled (verificationType_spells p)]
      simp
    | full d locals stack =>
      have tables := table_spells Table.frameLocals (verificationType_spells p) locals
      have tables' := table_spells Table.frameStack (verificationType_spells p) stack
      simp only [bind_eq_ok, pure_eq_ok, Spelling.frameRest, tables, tables']
      simp [and_assoc]

theorem handler_spells : Spells (handler p) (Spelling.handler p.get?) := by
  intro h us
  simp only [handler, bind_eq_ok, pure_eq_ok, Spelling.handler, indexOrZero_spells p _ h.catchType]

theorem lineNumber_spells : Spells lineNumber Spelling.lineNumber := by
  intro l us
  simp only [lineNumber, Spelling.lineNumber, Except.ok.injEq, eq_comm]

theorem localVariable_spells : Spells (localVariable p) (Spelling.localVariable p.get?) := by
  intro v us
  simp only [localVariable, bind_eq_ok, pure_eq_ok, Spelling.localVariable,
    index_spells p _ v.name, index_spells p _ v.descriptor]
  constructor
  · intro written
    obtain ⟨n, hn, d, hd, rfl⟩ := written
    exact ⟨n, d, hn, hd, rfl⟩
  · intro spelled
    obtain ⟨n, d, hn, hd, rfl⟩ := spelled
    exact ⟨n, hn, d, hd, rfl⟩

theorem entry_spells : Spells entry (fun e us =>
    (∀ bytes, e = .utf8 bytes → bytes.length ≤ 65535) ∧ us = e.bytes) := by
  intro e us
  cases e with
  | utf8 bytes =>
    simp only [entry, Entry.utf8.injEq, forall_eq']
    by_cases long : 65535 < bytes.length
    · rw [if_pos long]
      simp [Nat.not_le.2 long]
    · rw [if_neg long]
      simp [Nat.not_lt.1 long, eq_comm]
  | _ => simp [entry, eq_comm]

theorem pool_eq_ok {us : List UInt8} : pool p = .ok us ↔ p.size ≤ Pool.maxSlots ∧ ∃ v,
    Spelling.all (fun e us => (∀ bytes, e = .utf8 bytes → bytes.length ≤ 65535) ∧ us = e.bytes)
      (p.slots.toList.filterMap id) v ∧
    us = Bytes.ofU16 (UInt16.ofNat (p.size + 1)) ++ v := by
  have flat : p.entries.mapM (fun x => entry x.2) = (p.slots.toList.filterMap id).mapM entry := by
    rw [← Pool.entries_map_snd, List.mapM_map]
    rfl
  simp only [pool, guard_eq_ok, bind_eq_ok, pure_eq_ok, Nat.not_lt, ← parts_spelled entry_spells]
  refine and_congr_right fun _ => ?_
  constructor
  · intro written
    obtain ⟨parts, hparts, rfl⟩ := written
    exact ⟨parts.flatten, ⟨parts, flat ▸ hparts, rfl⟩, rfl⟩
  · intro spelled
    obtain ⟨_, ⟨parts, hparts, rfl⟩, rfl⟩ := spelled
    exact ⟨parts, flat.trans hparts, rfl⟩

end Pool
end ClassForge.Writer
