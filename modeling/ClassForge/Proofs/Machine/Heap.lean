import ClassForge.Machine.Heap

namespace ClassForge

namespace Heap

variable {h h' h'' : Heap} {a x : Address} {o : Object}

theorem get_alloc (h : Heap) (o : Object) : (h.alloc o).2.get ⟨h.size⟩ = o := by
  simp [get, alloc, size]

theorem get_alloc_of_lt (old : a.index < h.size) : (h.alloc o).2.get a = h.get a := by
  simp only [get, alloc, size] at old ⊢
  simp [Array.getElem?_push_lt old, Array.getElem?_eq_getElem old]

theorem size_alloc (h : Heap) (o : Object) : (h.alloc o).2.size = h.size + 1 := by
  simp [alloc, size]

theorem size_modify (h : Heap) (a : Address) (f : Object → Object) :
    (h.modify a f).size = h.size := by simp [modify, size]

theorem get_modify (old : a.index < h.size) (f : Object → Object) :
    (h.modify a f).get a = f (h.get a) := by
  simp only [get, modify, size] at old ⊢
  simp [Array.getElem?_modify, Array.getElem?_eq_getElem old]

theorem get_modify_of_ne (other : a ≠ x) (f : Object → Object) :
    (h.modify x f).get a = h.get a := by
  have index : x.index ≠ a.index := fun same => other (by cases a; cases x; simp_all)
  simp [get, modify, Array.getElem?_modify, index]

theorem modify_of_eq {f : Object → Object}
    (same : f (h.get a) = h.get a) : h.modify a f = h := by
  have objects : h.objects.modify a.index f = h.objects := by
    refine Array.ext_getElem? fun i => ?_
    rw [Array.getElem?_modify]
    by_cases own : a.index = i
    · subst own
      rw [get, Array.getD_eq_getD_getElem?] at same
      cases there : h.objects[a.index]? with
      | none => simp
      | some o =>
        rw [there, Option.getD_some] at same
        simp [same]
    · rw [if_neg own]
  rw [modify, objects]

theorem lt_size (found : h.get a = o) (made : o ≠ .string "") : a.index < h.size := by
  refine Nat.lt_of_not_le fun beyond => made ?_
  rw [← found, get, Array.getD_eq_getD_getElem?, Array.getElem?_eq_none beyond]
  rfl

theorem lt_size_of_plain (found : h.get a = .plain k fields) : a.index < h.size :=
  lt_size found (by simp)

/-- Objects that were there are as they were, apart from the one at `x`. -/
structure Spares (h h' : Heap) (x : Address) : Prop where
  size : h.size ≤ h'.size
  same : ∀ a : Address, a.index < h.size → a ≠ x → h'.get a = h.get a

structure Grown (h h' : Heap) : Prop where
  size : h.size ≤ h'.size
  same : ∀ a : Address, a.index < h.size → h'.get a = h.get a

theorem Grown.spares (grown : h.Grown h') (x : Address) : h.Spares h' x :=
  ⟨grown.size, fun a old _ => grown.same a old⟩

theorem Grown.refl (h : Heap) : h.Grown h := ⟨Nat.le_refl _, fun _ _ => rfl⟩

theorem Grown.trans (first : h.Grown h') (second : h'.Grown h'') : h.Grown h'' where
  size := Nat.le_trans first.size second.size
  same a old := (second.same a (Nat.lt_of_lt_of_le old first.size)).trans (first.same a old)

theorem Spares.refl (h : Heap) (x : Address) : h.Spares h x := (Grown.refl h).spares x

theorem Spares.trans (first : h.Spares h' x) (second : h'.Spares h'' x) : h.Spares h'' x where
  size := Nat.le_trans first.size second.size
  same a old other := (second.same a (Nat.lt_of_lt_of_le old first.size) other).trans
    (first.same a old other)

theorem Spares.grown (spares : h.Spares h' x) (new : h.size ≤ x.index) : h.Grown h' where
  size := spares.size
  same a old := spares.same a old fun same => by
    rw [same] at old
    omega

theorem grown_alloc (h : Heap) (o : Object) : h.Grown (h.alloc o).2 :=
  ⟨by rw [size_alloc]; omega, fun _ old => get_alloc_of_lt old⟩

theorem spares_modify (h : Heap) (x : Address) (f : Object → Object) : h.Spares (h.modify x f) x :=
  ⟨Nat.le_of_eq (size_modify h x f).symm, fun _ _ other => get_modify_of_ne other f⟩

def KeepsPlain (h h' : Heap) : Prop :=
  ∀ a k fields, h.get a = .plain k fields → h'.get a = .plain k fields

theorem KeepsPlain.refl (h : Heap) : h.KeepsPlain h := fun _ _ _ held => held

theorem KeepsPlain.trans (first : h.KeepsPlain h') (second : h'.KeepsPlain h'') :
    h.KeepsPlain h'' :=
  fun a k fields held => second a k fields (first a k fields held)

theorem Grown.keepsPlain (grown : h.Grown h') : h.KeepsPlain h' :=
  fun a _ _ held => (grown.same a (lt_size_of_plain held)).trans held

theorem keepsPlain_modify {f : Object → Object} (x : Address)
    (spares : ∀ k fields, f (.plain k fields) = .plain k fields) :
    h.KeepsPlain (h.modify x f) := by
  intro a k fields held
  by_cases own : a = x
  · subst own
    rw [get_modify (lt_size_of_plain held), held, spares]
  · rw [get_modify_of_ne own, held]

end Heap
end ClassForge
