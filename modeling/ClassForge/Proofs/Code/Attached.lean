import ClassForge.Proofs.Code.Assembling
import ClassForge.Proofs.Code.Emission
import Mathlib.Data.List.Nodup

namespace ClassForge

namespace Layout

open Item (emitted)
open Outcome

variable {l l' : Layout} {items : List Item}

structure InOrder (l : Layout) : Prop where
  ordered : l.lines.toList.Pairwise (·.1 ≤ ·.1)
  reached : ∀ line ∈ l.lines.toList, line.1 ≤ l.size

theorem InOrder.addItems {length : Nat} (inOrder : l.InOrder)
    (done : l.addItems length items = .ok l') : l'.InOrder := by
  induction items generalizing l length with
  | nil =>
    rw [Layout.addItems] at done
    cases done
    exact ⟨inOrder.ordered, inOrder.reached⟩
  | cons item rest ih =>
    cases item with
    | instruction instruction =>
      have next : InOrder { l with
          instructions := l.instructions.push instruction, offsets := l.offsets.push length } := by
        refine ⟨inOrder.ordered, ?_⟩
        intro line inside
        have reached := inOrder.reached line inside
        simp only [size, Array.size_push] at reached ⊢
        omega
      exact ih next done
    | place label =>
      rw [Layout.addItems] at done
      split at done
      · cases done
      · have next : InOrder { l with
            labels := l.labels.insert label.id l.instructions.size } :=
          ⟨inOrder.ordered, inOrder.reached⟩
        exact ih next done
    | line n =>
      refine ih (l := { l with lines := l.lines.push (l.instructions.size, n) }) ⟨?_, ?_⟩ done
      · simp only [Array.toList_push, List.pairwise_append, List.pairwise_singleton,
          List.mem_singleton, forall_eq, true_and]
        exact ⟨inOrder.ordered, inOrder.reached⟩
      · simp only [Array.toList_push, List.mem_append, List.mem_singleton]
        rintro line (before | rfl)
        · exact inOrder.reached line before
        · exact Nat.le_refl _

theorem inOrder_ofItems (done : ofItems items = .ok l) : l.InOrder := by
  rw [ofItems, bind_eq_ok] at done
  obtain ⟨l', added, checked⟩ := done
  rw [guard_eq_ok, guard_eq_ok] at checked
  cases checked.2.2
  have none : InOrder {} := ⟨.nil, by simp⟩
  exact none.addItems added

structure Lined (l : Layout) (i : Nat) (table : List LineNumber) : Prop where
  falling : table.Pairwise (·.start.toNat > ·.start.toNat)
  offsets : ∀ line ∈ table, ∃ j, j ≤ i ∧ j < l.size ∧ line.start.toNat = l.offset j

theorem Lined.mono {i j : Nat} {table : List LineNumber} (lined : l.Lined i table) (le : i ≤ j) :
    l.Lined j table := by
  refine ⟨lined.falling, ?_⟩
  intro line inside
  obtain ⟨k, before, within, start⟩ := lined.offsets line inside
  exact ⟨k, Nat.le_trans before le, within, start⟩

theorem Lined.addLine (places : l.Places items) (short : l.length ≤ 65535) {i : Nat} {n : UInt16}
    {table : List LineNumber} (lined : l.Lined i table) :
    l.Lined i (lineTable.addLine l table (i, n)) := by
  unfold lineTable.addLine
  dsimp only
  split
  · exact lined
  rename_i inside
  have inside : i < l.size := Nat.not_le.1 inside
  have below := places.offset_lt inside (Nat.le_refl _)
  have start : (UInt16.ofNat (l.offset i)).toNat = l.offset i := by
    rw [Layout.length] at short
    rw [UInt16.toNat_ofNat']
    omega
  have here : ∃ j, j ≤ i ∧ j < l.size ∧ (UInt16.ofNat (l.offset i)).toNat = l.offset j :=
    ⟨i, Nat.le_refl i, inside, start⟩
  cases table with
  | nil =>
    refine ⟨List.pairwise_singleton _ _, ?_⟩
    simp only [List.mem_singleton, forall_eq]
    exact here
  | cons last rest =>
    obtain ⟨above, falling⟩ := List.pairwise_cons.1 lined.falling
    have lasts := lined.offsets
    simp only [List.mem_cons, forall_eq_or_imp] at lasts
    obtain ⟨⟨j, before, within, lastStart⟩, others⟩ := lasts
    dsimp only
    split
    · rename_i same
      rw [same] at above
      refine ⟨List.pairwise_cons.2 ⟨above, falling⟩, ?_⟩
      simp only [List.mem_cons, forall_eq_or_imp]
      exact ⟨here, others⟩
    · rename_i other
      -- The line before is for an earlier instruction, or it would have the same offset.
      have less : last.start.toNat < (UInt16.ofNat (l.offset i)).toNat := by
        rw [start, lastStart]
        refine places.offset_lt (Nat.lt_of_le_of_ne before ?_) (Nat.le_of_lt inside)
        intro same
        subst same
        exact other (UInt16.toNat_inj.1 (lastStart.trans start.symm))
      refine ⟨List.pairwise_cons.2 ⟨?_, lined.falling⟩, ?_⟩
      · simp only [List.mem_cons, forall_eq_or_imp]
        exact ⟨less, fun line inside => Nat.lt_trans (above line inside) less⟩
      · simp only [List.mem_cons, forall_eq_or_imp]
        exact ⟨here, ⟨j, before, within, lastStart⟩, others⟩

theorem Lined.foldl (places : l.Places items) (short : l.length ≤ 65535)
    {lines : List (Nat × UInt16)} (ordered : lines.Pairwise (·.1 ≤ ·.1)) {i j : Nat}
    {table : List LineNumber} (lined : l.Lined i table) (behind : ∀ line ∈ lines, i ≤ line.1)
    (le : i ≤ j) (reached : ∀ line ∈ lines, line.1 ≤ j) :
    l.Lined j (lines.foldl (lineTable.addLine l) table) := by
  induction lines generalizing i table with
  | nil => exact lined.mono le
  | cons line rest ih =>
    obtain ⟨after, ordered⟩ := List.pairwise_cons.1 ordered
    obtain ⟨here, reached⟩ := List.forall_mem_cons.1 reached
    have next := (lined.mono (behind line List.mem_cons_self)).addLine places short (n := line.2)
    exact ih ordered next after here reached

theorem Places.lined (places : l.Places items) (inOrder : l.InOrder) (short : l.length ≤ 65535) :
    l.Lined l.size (l.lines.toList.foldl (lineTable.addLine l) []) := by
  have none : l.Lined 0 [] := ⟨.nil, by simp⟩
  exact none.foldl places short inOrder.ordered (fun _ _ => Nat.zero_le _) (Nat.zero_le _)
    inOrder.reached

theorem Places.length_lineTable (places : l.Places items) (inOrder : l.InOrder)
    (short : l.length ≤ 65535) : l.lineTable.length ≤ 65535 := by
  obtain ⟨falling, offsets⟩ := places.lined inOrder short
  have distinct : ((l.lines.toList.foldl (lineTable.addLine l) []).map (·.start.toNat)).Nodup :=
    List.Pairwise.map _ (fun _ _ more => Nat.ne_of_gt more) falling
  have within : (l.lines.toList.foldl (lineTable.addLine l) []).map (·.start.toNat) ⊆
      List.range 65535 := by
    intro start inside
    obtain ⟨line, member, rfl⟩ := List.mem_map.1 inside
    obtain ⟨j, -, within, start⟩ := offsets line member
    have below := places.offset_lt within (Nat.le_refl _)
    rw [Layout.length] at short
    rw [List.mem_range]
    omega
  have few := (distinct.subperm within).length_le
  rw [List.length_map, List.length_range] at few
  rw [lineTable, List.length_reverse, ← Array.foldl_toList]
  exact few

theorem Places.within (places : l.Places items) (short : l.length ≤ 65535) {p : Protection}
    {h : Handler} {position : Nat} (done : l.handler p = .ok (h, position)) :
    h.Within l.length := by
  rw [Layout.handler, bind_eq_ok] at done
  obtain ⟨start, found, done⟩ := done
  rw [bind_eq_ok] at done
  obtain ⟨stop, found', done⟩ := done
  rw [bind_eq_ok] at done
  obtain ⟨first, found'', done⟩ := done
  rw [guard_eq_ok] at done
  obtain ⟨some, same⟩ := done
  cases same
  obtain ⟨i, marks, rfl⟩ := places.offsetOf.1 found
  obtain ⟨j, marks', rfl⟩ := places.offsetOf.1 found'
  obtain ⟨-, inside⟩ := places.instructionAt.1 found''
  have size := places.size_eq
  have below := places.offset_lt (size ▸ inside) (Nat.le_refl _)
  have whole := places.offset l.size (Nat.le_refl _)
  have le := Instruction.offset_le marks'.le
  rw [size] at whole
  rw [Layout.length, size] at short ⊢
  refine ⟨?_, ?_, ?_⟩
  · rw [UInt16.lt_iff_toNat_lt, UInt16.toNat_ofNat', UInt16.toNat_ofNat']
    omega
  · dsimp only
    rw [UInt16.toNat_ofNat']
    omega
  · dsimp only
    rw [UInt16.toNat_ofNat', ← size]
    rw [← size] at short
    omega

theorem handler_links {p : Protection} {h : Handler} {position : Nat}
    (done : l.handler p = .ok (h, position)) : h.links = p.links := by
  rw [Layout.handler, bind_eq_ok] at done
  obtain ⟨_, -, done⟩ := done
  rw [bind_eq_ok] at done
  obtain ⟨_, -, done⟩ := done
  rw [bind_eq_ok] at done
  obtain ⟨_, -, done⟩ := done
  rw [guard_eq_ok] at done
  cases done.2
  rfl

theorem localVariable_links {s : Scope} {v : LocalVariable}
    (done : l.localVariable s = .ok v) : v.links = s.links := by
  rw [Layout.localVariable, bind_eq_ok] at done
  obtain ⟨_, -, done⟩ := done
  rw [bind_eq_ok] at done
  obtain ⟨_, -, done⟩ := done
  rw [guard_eq_ok] at done
  cases done.2
  rfl

end Layout

namespace Body

open Outcome

structure Attached (p : Pool) (code : Code) : Prop where
  fits : code.Fits
  handlers : ∀ h ∈ code.handlers, ∀ link ∈ h.links, p.Resolves link
  few : code.attributes.length ≤ 2
  attributes : ∀ a ∈ code.attributes,
    (∃ lines, a = .lineNumbers lines ∧ lines.length ≤ 65535) ∨
      ∃ scopes, a = .localVariables scopes ∧ ∀ v ∈ scopes, ∀ link ∈ v.links, p.Resolves link

theorem Sound.attached {b : Body} {code : Code} (sound : b.Sound) (done : b.finish = .ok code) :
    Attached b.pool code := by
  obtain ⟨s, -, finished⟩ := finished_of_eq_ok done
  rw [finish, bind_eq_ok] at done
  obtain ⟨l, laid, done⟩ := done
  rw [bind_eq_ok] at done
  obtain ⟨handlers, handled, done⟩ := done
  rw [bind_eq_ok] at done
  obtain ⟨_, -, done⟩ := done
  rw [bind_eq_ok] at done
  obtain ⟨_, -, done⟩ := done
  rw [bind_eq_ok] at done
  obtain ⟨_, -, done⟩ := done
  rw [bind_eq_ok] at done
  obtain ⟨scopes, located, same⟩ := done
  cases same
  obtain ⟨places, some, short⟩ := Layout.places_ofItems laid
  have length := finished.length
  have whole := places.offset l.size (Nat.le_refl _)
  have positive := places.offset_lt some (Nat.le_refl _)
  have total : l.length = b.offset b.emitted.length := by
    rw [Layout.length, whole, places.size_eq]
  dsimp only at length
  refine ⟨⟨?_, ?_, ?_⟩, ?_, ?_, ?_⟩
  · dsimp only
    rw [length, ← total, Layout.length]
    omega
  · dsimp only
    omega
  · intro h inside
    obtain ⟨⟨_, position⟩, member, rfl⟩ := List.mem_map.1 inside
    obtain ⟨p, -, made⟩ := exists_of_mapM_eq_ok handled _ member
    dsimp only
    rw [length, ← total]
    exact places.within short made
  · intro h inside
    obtain ⟨⟨_, position⟩, member, rfl⟩ := List.mem_map.1 inside
    obtain ⟨p, guarded, made⟩ := exists_of_mapM_eq_ok handled _ member
    rw [Layout.handler_links made]
    exact sound.protections p guarded
  · dsimp only
    split <;> split <;> simp
  · have ofLines := places.length_lineTable (Layout.inOrder_ofItems laid) short
    have ofScopes : ∀ v ∈ scopes, ∀ link ∈ v.links, b.pool.Resolves link := by
      intro v inside
      obtain ⟨s, member, made⟩ := exists_of_mapM_eq_ok located v inside
      rw [Layout.localVariable_links made]
      exact sound.scopes s member
    intro a inside
    dsimp only at inside
    rw [List.mem_append] at inside
    rcases inside with inside | inside
    · split at inside
      · cases inside
      · exact .inl ⟨_, List.mem_singleton.1 inside, ofLines⟩
    · split at inside
      · cases inside
      · exact .inr ⟨_, List.mem_singleton.1 inside, ofScopes⟩

end Body
end ClassForge
