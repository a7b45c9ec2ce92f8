import ClassForge.Pool.Basic

namespace ClassForge

def Entry.slots (e : Entry) : List (Option Entry) := if e.isWide then [some e, none] else [some e]

/-- Slots are empty exactly behind wide entries. -/
def Pool.LaidOut (p : Pool) : Prop := ∀ i, p.slots.get? (i + 1) = some none ↔
  ∃ e, p.slots.get? i = some (some e) ∧ e.isWide = true

namespace Pool

theorem slots_get?_succ (p : Pool) (i : Nat) : p.slots.get? (i + 1) = p.slots.toList[i]? := by
  simp [OneIndexed.get?, OneIndexed.toList]

theorem filterMap_slots (es : List Entry) : (es.flatMap Entry.slots).filterMap id = es := by
  induction es with
  | nil => rfl
  | cons e rest ih =>
    rw [List.flatMap_cons, List.filterMap_append, ih, Entry.slots]
    split <;> rfl

theorem exists_entries {slots : List (Option Entry)}
    (first : slots[0]? ≠ some none)
    (others : ∀ i, slots[i + 1]? = some none ↔ ∃ e, slots[i]? = some (some e) ∧ e.isWide = true) :
    ∃ es : List Entry, slots = es.flatMap Entry.slots := by
  induction h : slots.length using Nat.strongRecOn generalizing slots with
  | ind n ih =>
    match slots with
    | [] => exact ⟨[], rfl⟩
    | none :: _ => exact absurd rfl first
    | some e :: rest =>
      have behind := others 0
      simp only [List.getElem?_cons_succ, List.getElem?_cons_zero, Option.some.injEq,
        exists_eq_left'] at behind
      by_cases wide : e.isWide = true
      · match rest with
        | [] => simp [wide] at behind
        | some x :: _ => simp [wide] at behind
        | none :: rest =>
          simp only [List.length_cons] at h
          have start : rest[0]? ≠ some none := by
            intro empty
            obtain ⟨x, hx, -⟩ := (others 1).1 empty
            cases hx
          obtain ⟨es, rfl⟩ := ih rest.length (by omega) start (fun i => others (i + 2)) rfl
          exact ⟨e :: es, by simp [Entry.slots, wide]⟩
      · simp only [List.length_cons] at h
        have start : rest[0]? ≠ some none := fun empty => wide (behind.1 empty)
        obtain ⟨es, rfl⟩ := ih rest.length (by omega) start (fun i => others (i + 1)) rfl
        exact ⟨e :: es, by simp [Entry.slots, wide]⟩

theorem LaidOut.exists_entries {p : Pool} (laidOut : p.LaidOut) :
    ∃ es : List Entry, p.slots.toList = es.flatMap Entry.slots := by
  apply Pool.exists_entries
  · intro empty
    have behind := (laidOut 0).1 (by rw [slots_get?_succ, empty])
    obtain ⟨e, he, -⟩ := behind
    cases he
  · intro i
    rw [← slots_get?_succ, ← slots_get?_succ, laidOut (i + 1)]

theorem first_slot (es : List Entry) : (es.flatMap Entry.slots)[0]? ≠ some none := by
  cases es with
  | nil => simp
  | cons e _ =>
    rw [List.flatMap_cons, Entry.slots]
    split <;> simp

theorem slot_behind (es : List Entry) (i : Nat) : (es.flatMap Entry.slots)[i + 1]? = some none ↔
    ∃ e, (es.flatMap Entry.slots)[i]? = some (some e) ∧ e.isWide = true := by
  induction es generalizing i with
  | nil => simp
  | cons e rest ih =>
    have start := first_slot rest
    rw [List.flatMap_cons, Entry.slots]
    by_cases wide : e.isWide = true
    · rw [if_pos wide]
      match i with
      | 0 => simp [wide]
      | 1 => simpa using start
      | i + 2 => exact ih i
    · rw [if_neg wide]
      match i with
      | 0 => simpa [wide] using start
      | i + 1 => exact ih i

theorem laidOut_ofSlots (es : List Entry) : (ofSlots (es.flatMap Entry.slots)).LaidOut := by
  have slots : (ofSlots (es.flatMap Entry.slots)).slots.toList = es.flatMap Entry.slots := rfl
  intro i
  rw [slots_get?_succ, slots]
  cases i with
  | zero => simp [first_slot]
  | succ i => rw [slots_get?_succ, slots, slot_behind]

theorem entries_map_snd (p : Pool) : p.entries.map (·.2) = p.slots.toList.filterMap id := by
  have unplaced : p.slots.toList.filterMap id = p.slots.toList.zipIdx.filterMap (·.1) := by
    have composed := List.filterMap_map (f := fun x : Option Entry × Nat => x.1) (g := id)
      (l := p.slots.toList.zipIdx)
    rwa [List.zipIdx_map_fst] at composed
  rw [unplaced, entries, OneIndexed.indexed, List.filterMap_map, List.map_filterMap]
  congr 1
  funext x
  cases h : x.1 <;> simp [h]

end Pool
end ClassForge
