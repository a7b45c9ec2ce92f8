import Mathlib.Data.List.Forall2

namespace ClassForge

theorem forall_of_forall₂ {α β : Type} {R : α → β → Prop} {P : β → Prop} {xs : List α} {ys : List β}
    (related : List.Forall₂ R xs ys) (each : ∀ x y, R x y → P y) : ∀ y ∈ ys, P y := by
  induction related with
  | nil => simp
  | cons first _ ih =>
    simp only [List.mem_cons, forall_eq_or_imp]
    exact ⟨each _ _ first, ih⟩

theorem exists_of_forall₂ {α β : Type} {R : α → β → Prop} {xs : List α} {ys : List β}
    (related : List.Forall₂ R xs ys) : ∀ x ∈ xs, ∃ y ∈ ys, R x y := by
  induction related with
  | nil => simp
  | cons first _ ih =>
    simp only [List.mem_cons, forall_eq_or_imp, exists_eq_or_imp]
    exact ⟨.inl first, fun x inside => .inr (ih x inside)⟩

theorem getElem?_of_forall₂ {α β : Type} {R : α → β → Prop} {xs : List α} {ys : List β}
    (related : List.Forall₂ R xs ys) {i : Nat} {x : α} (found : xs[i]? = some x) :
    ∃ y, ys[i]? = some y ∧ R x y := by
  induction related generalizing i with
  | nil => cases found
  | @cons x' y' _ _ first _ ih =>
    cases i with
    | zero =>
      cases found
      exact ⟨y', rfl, first⟩
    | succ i => exact ih found

theorem exists_of_forall₂_right {α β : Type} {R : α → β → Prop} {xs : List α} {ys : List β}
    (related : List.Forall₂ R xs ys) : ∀ y ∈ ys, ∃ x ∈ xs, R x y :=
  exists_of_forall₂ (R := fun y x => R x y) related.flip

theorem map_eq_of_forall₂ {α β γ : Type} {R : α → β → Prop} {f : α → γ} {g : β → γ} {xs : List α}
    {ys : List β} (related : List.Forall₂ R xs ys) (each : ∀ x y, R x y → g y = f x) :
    ys.map g = xs.map f := by
  induction related with
  | nil => rfl
  | cons first _ ih => rw [List.map_cons, List.map_cons, each _ _ first, ih]

theorem forall₂_comp {α β γ : Type} {R : α → β → Prop} {S : β → γ → Prop} {xs : List α}
    {ys : List β} {zs : List γ} (first : List.Forall₂ R xs ys) (second : List.Forall₂ S ys zs) :
    List.Forall₂ (fun x z => ∃ y ∈ ys, R x y ∧ S y z) xs zs := by
  induction first generalizing zs with
  | nil =>
    cases second
    exact .nil
  | @cons x y _ _ related _ ih =>
    cases second with
    | cons related' others =>
    refine .cons ⟨y, List.mem_cons_self, related, related'⟩ ((ih others).imp ?_)
    exact fun _ _ ⟨y, inside, both⟩ => ⟨y, List.mem_cons_of_mem _ inside, both⟩

/-- What states have to be, and how they may change. -/
structure Discipline (σ : Type) where
  Holds : σ → Prop
  Onward : σ → σ → Prop
  refl : ∀ s, Onward s s
  trans : ∀ {s t u}, Onward s t → Onward t u → Onward s u

namespace Discipline

variable {σ ε α β : Type} {D : Discipline σ} {s t : σ}

/-- A run from the state keeps the discipline. What it gives, if it succeeds, is as `gives` says. -/
structure Ensures (D : Discipline σ) (m : EStateM ε σ α) (s : σ) (gives : α → σ → Prop) : Prop where
  outcome : D.Holds s → match m s with
    | .ok a t => D.Holds t ∧ D.Onward s t ∧ gives a t
    | .error _ t => D.Holds t ∧ D.Onward s t

namespace Ensures

variable {m : EStateM ε σ α} {k : α → EStateM ε σ β} {gives : α → σ → Prop} {gives' : β → σ → Prop}

theorem of_eq_ok {a : α} (ensures : D.Ensures m s gives) (holds : D.Holds s) (done : m s = .ok a t) :
    D.Holds t ∧ D.Onward s t ∧ gives a t := by
  have outcome := ensures.outcome holds
  rwa [done] at outcome

theorem of_eq_error {e : ε} (ensures : D.Ensures m s gives) (holds : D.Holds s)
    (failed : m s = .error e t) : D.Holds t ∧ D.Onward s t := by
  have outcome := ensures.outcome holds
  rwa [failed] at outcome

theorem pure (a : α) (here : D.Holds s → gives a s) : D.Ensures (pure a : EStateM ε σ α) s gives :=
  ⟨fun holds => ⟨holds, D.refl s, here holds⟩⟩

theorem throw (e : ε) : D.Ensures (throw e : EStateM ε σ α) s gives :=
  ⟨fun holds => ⟨holds, D.refl s⟩⟩

theorem get : D.Ensures (get : EStateM ε σ σ) s (fun here t => here = s ∧ t = s) :=
  ⟨fun holds => ⟨holds, D.refl s, rfl, rfl⟩⟩

theorem modify {f : σ → σ} {gives : Unit → σ → Prop}
    (changed : D.Holds s → D.Holds (f s) ∧ D.Onward s (f s) ∧ gives () (f s)) :
    D.Ensures (modify f : EStateM ε σ Unit) s gives :=
  ⟨fun holds => changed holds⟩

theorem bind (first : D.Ensures m s gives)
    (next : ∀ a t, D.Holds t → D.Onward s t → gives a t → D.Ensures (k a) t gives') :
    D.Ensures (m >>= k) s gives' := by
  constructor
  intro holds
  have outcome := first.outcome holds
  change match EStateM.bind m k s with
    | .ok b t => D.Holds t ∧ D.Onward s t ∧ gives' b t
    | .error _ t => D.Holds t ∧ D.Onward s t
  rw [EStateM.bind]
  cases h : m s with
  | error e t =>
    rw [h] at outcome
    exact outcome
  | ok a t =>
    rw [h] at outcome
    obtain ⟨middle, moved, given⟩ := outcome
    have last := (next a t middle moved given).outcome middle
    dsimp only
    cases hk : k a t with
    | error e u =>
      rw [hk] at last
      exact ⟨last.1, D.trans moved last.2⟩
    | ok b u =>
      rw [hk] at last
      exact ⟨last.1, D.trans moved last.2.1, last.2.2⟩

theorem mono {gives' : α → σ → Prop} (ensures : D.Ensures m s gives)
    (weaker : ∀ a t, D.Holds t → D.Onward s t → gives a t → gives' a t) : D.Ensures m s gives' := by
  constructor
  intro holds
  have outcome := ensures.outcome holds
  cases h : m s with
  | error e t =>
    rw [h] at outcome
    exact outcome
  | ok a t =>
    rw [h] at outcome
    exact ⟨outcome.1, outcome.2.1, weaker a t outcome.1 outcome.2.1 outcome.2.2⟩

def Anything {σ α : Type} : α → σ → Prop := fun _ _ => True

theorem anything (ensures : D.Ensures m s gives) : D.Ensures m s Anything :=
  ensures.mono fun _ _ _ _ _ => True.intro

theorem andThen (first : D.Ensures m s gives)
    (next : ∀ a t, D.Ensures (k a) t Anything) : D.Ensures (m >>= k) s Anything :=
  first.bind fun a t _ _ _ => next a t

theorem forM {xs : List β} {f : β → EStateM ε σ PUnit} {gives : β → σ → Prop}
    (each : ∀ x t, D.Ensures (f x) t (fun _ => gives x))
    (stays : ∀ x t u, D.Onward t u → gives x t → gives x u) :
    D.Ensures (xs.forM f) s (fun _ t => ∀ x ∈ xs, gives x t) := by
  induction xs generalizing s with
  | nil => exact pure _ fun _ => by simp
  | cons x rest ih =>
    refine (each x s).bind fun _ t _ _ first => (ih (s := t)).mono fun _ u _ onward others => ?_
    simp only [List.mem_cons, forall_eq_or_imp]
    exact ⟨stays x t u onward first, others⟩

theorem mapM {γ : Type} {xs : List β} {f : β → EStateM ε σ γ} {gives : β → γ → σ → Prop}
    (each : ∀ x t, D.Ensures (f x) t (gives x))
    (stays : ∀ x c t u, D.Onward t u → gives x c t → gives x c u) :
    D.Ensures (xs.mapM f) s (fun cs t => List.Forall₂ (fun x c => gives x c t) xs cs) := by
  induction xs generalizing s with
  | nil => exact pure [] fun _ => .nil
  | cons x rest ih =>
    rw [List.mapM_cons]
    refine (each x s).bind fun c t _ _ first => (ih (s := t)).bind fun cs u _ onward others => ?_
    exact pure _ fun _ => .cons (stays x c t u onward first) others

theorem foldlM {xs : List β} {f : α → β → EStateM ε σ α}
    (each : ∀ a x t, D.Ensures (f a x) t Anything) (a : α) :
    D.Ensures (xs.foldlM f a) s Anything := by
  induction xs generalizing a s with
  | nil => exact pure a fun _ => True.intro
  | cons x rest ih =>
    rw [List.foldlM_cons]
    exact (each a x s).andThen fun b t => ih b

theorem loosen {E : Discipline σ} (ensures : D.Ensures m s gives)
    (holds : ∀ s, E.Holds s ↔ D.Holds s) (onward : ∀ s t, D.Onward s t → E.Onward s t) :
    E.Ensures m s (fun a t => gives a t ∧ D.Onward s t) := by
  constructor
  intro start
  have outcome := ensures.outcome ((holds s).1 start)
  cases h : m s with
  | error e t =>
    rw [h] at outcome
    exact ⟨(holds t).2 outcome.1, onward s t outcome.2⟩
  | ok a t =>
    rw [h] at outcome
    obtain ⟨held, moved, given⟩ := outcome
    exact ⟨(holds t).2 held, onward s t moved, given, moved⟩

end Ensures
end Discipline
end ClassForge
