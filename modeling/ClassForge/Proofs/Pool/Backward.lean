import ClassForge.Proofs.Pool.Changes

namespace ClassForge.Pool

variable {p : Pool}

/-- References lead to entries of accepted kinds, all in front of the entry that refers to them. -/
def Backward (p : Pool) : Prop :=
  ∀ i e, p.get? i = some e → ∀ link ∈ e.references, link.1 < i ∧ p.Resolves link

namespace Backward

theorem empty : ({} : Pool).Backward := by
  intro i e holds
  have inside := toNat_le_size holds
  have none : ({} : Pool).size = 0 := rfl
  omega

theorem append (backward : p.Backward) {e : Entry}
    (linked : ∀ link ∈ e.references, p.Resolves link) : (p.append e).Backward := by
  intro i x holds link reference
  rw [get?_append] at holds
  split at holds
  · -- The new entry stands behind all that were there, and so behind what it refers to.
    rename_i last
    cases holds
    have leads := linked link reference
    refine ⟨?_, (extends_append p e).resolves leads⟩
    rw [UInt16.lt_iff_toNat_lt, last]
    exact Nat.lt_succ_of_le leads.2.1
  · obtain ⟨before, leads⟩ := backward i x holds link reference
    exact ⟨before, (extends_append p e).resolves leads⟩

theorem truncate (backward : p.Backward) (n : Nat) : (p.truncate n).Backward := by
  intro i e holds link reference
  rw [get?_truncate, Option.ite_none_right_eq_some] at holds
  obtain ⟨kept, holds⟩ := holds
  obtain ⟨before, leads⟩ := backward i e holds link reference
  obtain ⟨x, target, accepted⟩ := resolves_iff.1 leads
  have nearer := UInt16.lt_iff_toNat_lt.1 before
  refine ⟨before, resolves_iff.2 ⟨x, ?_, accepted⟩⟩
  rw [get?_truncate, if_pos (by omega), target]

end Backward

structure Ordered (p : Pool) : Prop where
  agreeing : p.Agreeing
  backward : p.Backward

def ordering : Discipline Pool where
  Holds := Ordered
  Onward p q := q.Extends p
  refl := Extends.refl
  trans := Extends.trans

instance : Admits ordering where
  extends_ := id
  intern {p e} linked _ := ensures_added (fun ordered => ordered.agreeing.indexed)
    fun ordered absent room =>
      ⟨⟨ordered.agreeing.append absent room, ordered.backward.append linked⟩, extends_append p e⟩

theorem holds_left {α : Type} {D : Discipline Pool} {m : PoolM α} {gives : α → Pool → Prop}
    (ensures : D.Ensures m p gives) (holds : D.Holds p) : D.Holds (left m p) := by
  have outcome := ensures.outcome holds
  unfold left
  cases h : m p with
  | ok a q | error e q =>
    rw [h] at outcome
    exact outcome.1

namespace Ordered

theorem empty : Ordered {} := ⟨.empty, .empty⟩

theorem apply (ordered : p.Ordered) (change : Change) (asked : ∀ e, change ≠ .intern e) :
    (change.apply p).Ordered := by
  cases change with
  | intern e => exact absurd rfl (asked e)
  | request r =>
    exact holds_left (D := ordering)
      ((ensures_answer r).andThen fun _ _ => Discipline.Ensures.pure _ fun _ => True.intro) ordered
  | truncate n => exact ⟨ordered.agreeing.truncate n, ordered.backward.truncate n⟩

theorem after (ordered : p.Ordered) (changes : List Change)
    (asked : ∀ e, Change.intern e ∉ changes) : (p.after changes).Ordered := by
  induction changes generalizing p with
  | nil => exact ordered
  | cons change rest ih =>
    simp only [List.mem_cons, not_or, forall_and] at asked
    exact ih (ordered.apply change fun e same => asked.1 e same.symm) asked.2

end Ordered

/-- Pools that are asked for names and values only, and cut anywhere, have no broken link, whether
a request failed on the way or not. What an entry refers to stands in front of it. -/
theorem links_lead_back (changes : List Change) (asked : ∀ e, Change.intern e ∉ changes) :
    let p := ({} : Pool).after changes
    p.brokenLink? = none ∧ ∀ i e, p.get? i = some e → ∀ link ∈ e.references,
      link.1 < i ∧ ∃ x, p.get? link.1 = some x ∧ x.tag ∈ link.2 := by
  intro p
  obtain ⟨agreeing, backward⟩ := Ordered.empty.after changes asked
  refine ⟨brokenLink?_eq_none.2 fun e inside link reference => ?_,
    fun i e holds link reference => ?_⟩
  · obtain ⟨i, holds⟩ := agreeing.mem_iff.1 inside
    exact (backward i e holds link reference).2
  · obtain ⟨before, leads⟩ := backward i e holds link reference
    exact ⟨before, resolves_iff.1 leads⟩

/-- One handle is refused, and the cut splits a wide entry. -/
theorem links_lead_back_handle :
    let changes : List Change := [.request (.member .field "a.B" "x" "I"),
      .request (.methodHandle .invokeVirtual 6), .request (.methodHandle .getField 6),
      .request (.literal (.long 5)), .truncate 8, .request (.methodType "()V")]
    let p := ({} : Pool).after changes
    (∀ e, Change.intern e ∉ changes) ∧ p.brokenLink? = none ∧
      p.get? 7 = some (.methodHandle .getField 6) ∧
        ∃ x, p.get? 6 = some x ∧ x.tag ∈ ReferenceKind.getField.targets := by
  intro changes p
  have asked : ∀ e, Change.intern e ∉ changes := by simp [changes]
  have holds : p.get? 7 = some (.methodHandle .getField 6) := by decide +kernel
  obtain ⟨linked, backward⟩ := links_lead_back changes asked
  exact ⟨asked, linked, holds, (backward 7 _ holds (6, _) (List.mem_singleton.2 rfl)).2⟩

end ClassForge.Pool
