import ClassForge.Proofs.Pool.Lookup
import ClassForge.Proofs.Pool.Slots

namespace ClassForge

/-- An index, and the kinds of entry that it may lead to. -/
abbrev Link := Index × List Tag

namespace Pool

variable {p : Pool}

def Resolves (p : Pool) (link : Link) : Prop :=
  0 < link.1.toNat ∧ link.1.toNat ≤ p.size ∧
    ∃ e, p.slots.get? link.1.toNat = some (some e) ∧ e.tag ∈ link.2

theorem resolves_iff {link : Link} :
    p.Resolves link ↔ ∃ e, p.get? link.1 = some e ∧ e.tag ∈ link.2 := by
  constructor
  · intro resolves
    obtain ⟨-, -, e, holds, accepted⟩ := resolves
    exact ⟨e, by rw [get?, holds, Option.join_some], accepted⟩
  · intro leads
    obtain ⟨e, holds, accepted⟩ := leads
    obtain ⟨inside, short⟩ := toNat_le_size holds
    exact ⟨inside, short, e, Option.join_eq_some_iff.1 holds, accepted⟩

theorem any_tagAt?_iff {link : Link} :
    (p.tagAt? link.1).any (link.2.contains ·) = true ↔ p.Resolves link := by
  rw [resolves_iff, tagAt?]
  cases p.get? link.1 <;> simp

theorem brokenLink?_eq_none : p.brokenLink? = none ↔
    ∀ e, some e ∈ p.slots.toList → ∀ link ∈ e.references, p.Resolves link := by
  have held : ∀ e, some e ∈ p.slots.toList ↔ ∃ i, (i, e) ∈ p.entries := by
    intro e
    have values := congrArg (e ∈ ·) p.entries_map_snd
    simpa using values.symm
  simp only [brokenLink?, List.findSome?_eq_none_iff, held, forall_exists_index]
  constructor
  · intro unbroken e i inside link reference
    have found := unbroken (i, e) inside link reference
    rw [← any_tagAt?_iff]
    simpa using found
  · intro resolved x inside link reference
    have found := any_tagAt?_iff.2 (resolved x.2 x.1 inside link reference)
    simp only [found, if_true]

end Pool
end ClassForge
