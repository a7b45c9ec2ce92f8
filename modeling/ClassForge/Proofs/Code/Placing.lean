import ClassForge.Code.Finish
import ClassForge.Proofs.Code.Reading
import ClassForge.Proofs.Outcome
import Mathlib.Tactic.ByContra

namespace ClassForge

namespace Item

def instruction? : Item → Option Instruction
  | .instruction i => some i
  | _ => none

def emitted (items : List Item) : List Instruction := items.filterMap instruction?

/-- The label stands in front of the instruction at position `i`, or behind the last one. -/
def Marks (items : List Item) (label : Label) (i : Nat) : Prop :=
  ∃ before, before ++ [.place label] <+: items ∧ (emitted before).length = i

theorem emitted_append (first second : List Item) :
    emitted (first ++ second) = emitted first ++ emitted second := List.filterMap_append ..

theorem marks_nil {label : Label} {i : Nat} : ¬Marks [] label i := by
  intro marks
  obtain ⟨before, first, -⟩ := marks
  have none := List.prefix_nil.1 first
  simp at none

theorem marks_concat {items : List Item} {item : Item} {label : Label} {i : Nat} :
    Marks (items ++ [item]) label i ↔
      Marks items label i ∨ item = .place label ∧ i = (emitted items).length := by
  constructor
  · intro marks
    obtain ⟨before, first, count⟩ := marks
    rcases List.prefix_concat_iff.1 first with all | first
    · obtain ⟨rfl, last⟩ := List.append_inj' all rfl
      cases last
      exact .inr ⟨rfl, count.symm⟩
    · exact .inl ⟨before, first, count⟩
  · intro either
    rcases either with ⟨before, first, count⟩ | ⟨rfl, rfl⟩
    · exact ⟨before, first.trans (List.prefix_append ..), count⟩
    · exact ⟨items, List.prefix_refl _, rfl⟩

theorem Marks.le {items : List Item} {label : Label} {i : Nat} (marks : Marks items label i) :
    i ≤ (emitted items).length := by
  obtain ⟨before, ⟨after, rfl⟩, rfl⟩ := marks
  rw [List.append_assoc, emitted_append, List.length_append]
  exact Nat.le_add_right ..

end Item

namespace Instruction

/-- The number of bytes in front of the instruction at position `i`. -/
def offset : List Instruction → Nat → Nat
  | _, 0 => 0
  | [], _ + 1 => 0
  | first :: rest, i + 1 => first.operation.size + offset rest i

theorem offset_zero (instructions : List Instruction) : offset instructions 0 = 0 := by
  cases instructions <;> rfl

theorem offset_cons_succ (first : Instruction) (rest : List Instruction) (i : Nat) :
    offset (first :: rest) (i + 1) = first.operation.size + offset rest i := rfl

theorem offset_succ {instructions : List Instruction} {i : Nat} {instruction : Instruction}
    (here : instructions[i]? = some instruction) :
    offset instructions (i + 1) = offset instructions i + instruction.operation.size := by
  induction instructions generalizing i with
  | nil => cases here
  | cons first rest ih =>
    cases i with
    | zero =>
      cases here
      rw [offset_cons_succ, offset_zero, offset_zero, Nat.add_comm]
    | succ i =>
      have step := ih here
      rw [offset_cons_succ, offset_cons_succ, step, Nat.add_assoc]

theorem offset_concat_of_le {instructions : List Instruction} {last : Instruction} {i : Nat}
    (inside : i ≤ instructions.length) :
    offset (instructions ++ [last]) i = offset instructions i := by
  induction instructions generalizing i with
  | nil =>
    cases Nat.le_zero.1 inside
    rfl
  | cons first rest ih =>
    cases i with
    | zero => rw [offset_zero, offset_zero]
    | succ i =>
      have same := ih (Nat.le_of_succ_le_succ inside)
      rw [List.cons_append, offset_cons_succ, offset_cons_succ, same]

theorem offset_lt {instructions : List Instruction} {i j : Nat} (before : i < j)
    (inside : j ≤ instructions.length) : offset instructions i < offset instructions j := by
  induction j with
  | zero => exact absurd before (Nat.not_lt_zero i)
  | succ j ih =>
    have step := offset_succ (List.getElem?_eq_getElem (Nat.lt_of_succ_le inside))
    have grows := Operation.size_pos instructions[j].operation
    rcases Nat.lt_succ_iff_lt_or_eq.1 before with less | rfl
    · have earlier := ih less (Nat.le_of_succ_le inside)
      omega
    · omega

theorem offset_lt_iff {instructions : List Instruction} {i j : Nat}
    (left : i ≤ instructions.length) (right : j ≤ instructions.length) :
    offset instructions i < offset instructions j ↔ i < j := by
  constructor
  · intro less
    by_contra behind
    rcases Nat.lt_or_eq_of_le (Nat.not_lt.1 behind) with after | rfl
    · have more := offset_lt after left
      omega
    · exact absurd less (Nat.lt_irrefl _)
  · intro less
    exact offset_lt less right

theorem offset_le {instructions : List Instruction} {i : Nat} (inside : i ≤ instructions.length) :
    offset instructions i ≤ offset instructions instructions.length := by
  rcases Nat.lt_or_eq_of_le inside with less | rfl
  · exact Nat.le_of_lt (offset_lt less (Nat.le_refl _))
  · exact Nat.le_refl _

end Instruction

namespace Layout

open Item (emitted Marks)
open Outcome

variable {l l' : Layout} {items : List Item}

/-- Items are laid out: every instruction has its offset, and labels point at what follows them. -/
structure Places (l : Layout) (items : List Item) : Prop where
  instructions : l.instructions.toList = emitted items
  offset : ∀ i, i ≤ l.size → l.offset i = Instruction.offset (emitted items) i
  labels : ∀ label i, l.labels[label.id]? = some i ↔ Marks items label i

structure Begins (l : Layout) (length : Nat) (items : List Item) : Prop where
  instructions : l.instructions.toList = emitted items
  offsets : l.offsets.toList = (List.range l.size).map (Instruction.offset (emitted items))
  length : length = Instruction.offset (emitted items) l.size
  labels : ∀ label i, l.labels[label.id]? = some i ↔ Marks items label i

theorem begins_nil : Begins {} 0 [] where
  instructions := rfl
  offsets := rfl
  length := rfl
  labels label i := by
    have none : ¬Marks [] label i := Item.marks_nil
    simp [none]

theorem Begins.size_eq {length : Nat} (begins : Begins l length items) :
    l.size = (emitted items).length := by
  rw [size, ← Array.length_toList, begins.instructions]

theorem Begins.instruction {length : Nat} {instruction : Instruction}
    (begins : Begins l length items) :
    Begins { l with
      instructions := l.instructions.push instruction, offsets := l.offsets.push length }
      (length + instruction.operation.size) (items ++ [.instruction instruction]) := by
  have all : emitted (items ++ [.instruction instruction]) = emitted items ++ [instruction] :=
    Item.emitted_append ..
  have size := begins.size_eq
  have last : (emitted items ++ [instruction])[l.size]? = some instruction := by
    rw [size]
    exact List.getElem?_concat_length
  have pushed : Layout.size { l with
      instructions := l.instructions.push instruction, offsets := l.offsets.push length } =
      l.size + 1 := Array.size_push ..
  constructor
  · rw [all, Array.toList_push, begins.instructions]
  · rw [all, Array.toList_push, begins.offsets, pushed, List.range_succ, List.map_append,
      begins.length]
    congr 1
    · apply List.map_congr_left
      intro i member
      have inside : i < l.size := List.mem_range.1 member
      exact (Instruction.offset_concat_of_le (by omega)).symm
    · rw [List.map_singleton, Instruction.offset_concat_of_le (by omega)]
  · rw [all, pushed, Instruction.offset_succ last,
      Instruction.offset_concat_of_le (by omega), begins.length]
  · intro label i
    rw [Item.marks_concat, begins.labels]
    simp

theorem Begins.place {length : Nat} {label : Label} (begins : Begins l length items)
    (fresh : l.labels.contains label.id = false) :
    Begins { l with labels := l.labels.insert label.id l.instructions.size } length
      (items ++ [.place label]) := by
  have same : emitted (items ++ [.place label]) = emitted items := by
    rw [Item.emitted_append]
    exact List.append_nil _
  constructor
  · rw [same, begins.instructions]
  · rw [same]
    exact begins.offsets
  · rw [same]
    exact begins.length
  · intro other i
    rw [Item.marks_concat, ← begins.labels, Std.TreeMap.getElem?_insert, ← begins.size_eq]
    have unknown : l.labels[label.id]? = none := by
      exact Std.TreeMap.getElem?_eq_none_of_contains_eq_false fresh
    by_cases h : label = other
    · subst h
      rw [unknown]
      simp [Layout.size, eq_comm]
    · have apart : label.id ≠ other.id := by
        intro id
        cases label
        cases other
        exact h (congrArg Label.mk id)
      simp [h, apart]

theorem Begins.line {length : Nat} {n : UInt16} {lines : Array (Nat × UInt16)}
    (begins : Begins l length items) :
    Begins { l with lines := lines } length (items ++ [.line n]) := by
  have same : emitted (items ++ [.line n]) = emitted items := by
    rw [Item.emitted_append]
    exact List.append_nil _
  constructor
  · rw [same]
    exact begins.instructions
  · rw [same]
    exact begins.offsets
  · rw [same]
    exact begins.length
  · intro label i
    rw [Item.marks_concat, begins.labels]
    simp

theorem Begins.places {length : Nat} (begins : Begins l length items) :
    Places { l with offsets := l.offsets.push length } items where
  instructions := begins.instructions
  labels := begins.labels
  offset := by
    intro i inside
    have all : (l.offsets.push length).toList =
        (List.range (l.size + 1)).map (Instruction.offset (emitted items)) := by
      rw [Array.toList_push, begins.offsets, List.range_succ, List.map_append, begins.length]
      rfl
    have there : i < l.size + 1 := Nat.lt_succ_of_le inside
    rw [Layout.offset, Array.getD_eq_getD_getElem?, ← Array.getElem?_toList, all, List.getElem?_map,
      List.getElem?_range there]
    rfl

/-- Induction on the items that are left, with those laid out growing from the front. -/
theorem Begins.addItems {length : Nat} {rest : List Item} (begins : Begins l length items)
    (done : l.addItems length rest = .ok l') : l'.Places (items ++ rest) := by
  induction rest generalizing l length items with
  | nil =>
    rw [Layout.addItems] at done
    cases done
    rw [List.append_nil]
    exact begins.places
  | cons item rest ih =>
    rw [← List.singleton_append, ← List.append_assoc]
    cases item with
    | instruction instruction => exact ih begins.instruction done
    | place label =>
      rw [Layout.addItems] at done
      split at done
      · cases done
      · rename_i fresh
        exact ih (begins.place (Bool.not_eq_true _ ▸ fresh)) done
    | line n => exact ih begins.line done

theorem places_ofItems (done : ofItems items = .ok l) :
    l.Places items ∧ 0 < l.size ∧ l.length ≤ 65535 := by
  rw [ofItems, bind_eq_ok] at done
  obtain ⟨l', added, checked⟩ := done
  rw [guard_eq_ok, guard_eq_ok] at checked
  obtain ⟨some, short, same⟩ := checked
  cases same
  exact ⟨begins_nil.addItems added, Nat.pos_of_ne_zero some, Nat.not_lt.1 short⟩

end Layout
end ClassForge
