import ClassForge.Proofs.Discipline

namespace ClassForge.Outcome

variable {ε α β : Type}

theorem bind_eq_ok {x : Except ε α} {k : α → Except ε β} {b : β} :
    (x >>= k) = .ok b ↔ ∃ a, x = .ok a ∧ k a = .ok b := by
  cases x <;> simp [Bind.bind, Except.bind]

theorem bind_eq_error {x : Except ε α} {k : α → Except ε β} {e : ε} :
    (x >>= k) = .error e ↔ x = .error e ∨ ∃ a, x = .ok a ∧ k a = .error e := by
  cases x <;> simp [Bind.bind, Except.bind]

theorem map_eq_ok {x : Except ε α} {f : α → β} {b : β} :
    (f <$> x) = .ok b ↔ ∃ a, x = .ok a ∧ f a = b := by
  cases x <;> simp [Functor.map, Except.map]

theorem pure_eq_ok {a b : α} : (pure a : Except ε α) = .ok b ↔ b = a := by
  simp [pure, Except.pure, eq_comm]

theorem guard_eq_ok {c : Prop} [Decidable c] {e : ε} {x : Except ε α} {a : α} :
    (if c then throw e else x) = .ok a ↔ ¬c ∧ x = .ok a := by
  split <;> simp [*, throw, throwThe, MonadExceptOf.throw]

theorem mapM_cons_eq_ok {f : α → Except ε β} {a : α} {rest : List α} {bs : List β} :
    (a :: rest).mapM f = .ok bs ↔ ∃ b bs', f a = .ok b ∧ rest.mapM f = .ok bs' ∧ bs = b :: bs' := by
  simp only [List.mapM_cons, bind_eq_ok, pure_eq_ok]
  constructor
  · intro done
    obtain ⟨b, first, bs', others, same⟩ := done
    exact ⟨b, bs', first, others, same⟩
  · intro parts
    obtain ⟨b, bs', first, others, same⟩ := parts
    exact ⟨b, first, bs', others, same⟩

theorem forall₂_of_mapM_eq_ok {f : α → Except ε β} {xs : List α} {ys : List β}
    (done : xs.mapM f = .ok ys) : List.Forall₂ (fun x y => f x = .ok y) xs ys := by
  induction xs generalizing ys with
  | nil =>
    cases done
    exact .nil
  | cons x rest ih =>
    obtain ⟨y, others, first, behind, rfl⟩ := mapM_cons_eq_ok.1 done
    exact .cons first (ih behind)

theorem length_of_mapM_eq_ok {f : α → Except ε β} {xs : List α} {ys : List β}
    (done : xs.mapM f = .ok ys) : ys.length = xs.length :=
  (forall₂_of_mapM_eq_ok done).length_eq.symm

theorem exists_of_mapM_eq_ok {f : α → Except ε β} {xs : List α} {ys : List β}
    (done : xs.mapM f = .ok ys) : ∀ y ∈ ys, ∃ x ∈ xs, f x = .ok y :=
  exists_of_forall₂_right (forall₂_of_mapM_eq_ok done)

theorem mapM_eq_error {f : α → Except ε β} {xs : List α} {e : ε} :
    xs.mapM f = .error e ↔ ∃ i : Nat, (xs.map f)[i]? = some (.error e) ∧
      ∀ j < i, ∀ e', (xs.map f)[j]? ≠ some (.error e') := by
  induction xs with
  | nil => simp [pure, Except.pure]
  | cons x rest ih =>
    rw [List.mapM_cons, bind_eq_error, List.map_cons]
    constructor
    · intro either
      rcases either with first | ⟨b, made, failed⟩
      · exact ⟨0, congrArg some first, fun j before => absurd before (Nat.not_lt_zero j)⟩
      · rcases bind_eq_error.1 failed with behind | ⟨_, -, made⟩
        · obtain ⟨i, failed, before⟩ := ih.1 behind
          refine ⟨i + 1, failed, ?_⟩
          intro j earlier e' failed'
          cases j with
          | zero =>
            rw [List.getElem?_cons_zero, made] at failed'
            cases failed'
          | succ j => exact before j (Nat.lt_of_succ_lt_succ earlier) e' failed'
        · cases made
    · intro either
      obtain ⟨i, failed, before⟩ := either
      cases i with
      | zero => exact .inl (Option.some.inj failed)
      | succ i =>
        have behind : rest.mapM f = .error e :=
          ih.2 ⟨i, failed, fun j earlier => before (j + 1) (Nat.succ_lt_succ earlier)⟩
        cases made : f x with
        | ok b => exact .inr ⟨b, rfl, bind_eq_error.2 (.inl behind)⟩
        | error e' => exact absurd (congrArg some made) (before 0 (Nat.succ_pos i) e')

theorem exists_of_mapM_eq_error {f : α → Except ε β} {xs : List α} {e : ε}
    (failed : xs.mapM f = .error e) : ∃ x ∈ xs, f x = .error e := by
  obtain ⟨i, failed, -⟩ := mapM_eq_error.1 failed
  exact List.mem_map.1 (List.mem_of_getElem? failed)

theorem exists_of_any {x : Except ε α} {p : α → Bool} (passes : x.toOption.any p = true) :
    ∃ a, x = .ok a ∧ p a = true := by
  cases x with
  | ok a => exact ⟨a, rfl, passes⟩
  | error e => cases passes

variable {σ : Type} {m : EStateM ε σ α} {k : α → EStateM ε σ β} {s t : σ}

theorem bind_of_ok {a : α} (first : m s = .ok a t) : (m >>= k) s = k a t := by
  simp [Bind.bind, EStateM.bind, first]

theorem bind_of_error {e : ε} (failed : m s = .error e t) : (m >>= k) s = .error e t := by
  simp [Bind.bind, EStateM.bind, failed]

theorem exists_of_any_run {p : α → Bool} (passes : (m.run' s).any p = true) :
    ∃ a t, m s = .ok a t ∧ p a = true := by
  delta EStateM.run' EStateM.run at passes
  cases done : m s with
  | ok a t =>
    rw [done] at passes
    exact ⟨a, t, rfl, passes⟩
  | error e t =>
    rw [done] at passes
    cases passes

theorem run_bind_eq_ok {b : β} {u : σ} :
    (m >>= k) s = .ok b u ↔ ∃ a t, m s = .ok a t ∧ k a t = .ok b u := by
  cases h : m s with
  | ok a t =>
    rw [bind_of_ok h]
    constructor
    · exact fun done => ⟨a, t, rfl, done⟩
    · intro parts
      obtain ⟨a', t', same, done⟩ := parts
      cases same
      exact done
  | error e t =>
    rw [bind_of_error h]
    simp

theorem run_mapM_eq_ok {f : β → EStateM ε σ α} {xs : List β} {ys : List α}
    (done : xs.mapM f s = .ok ys t) :
    List.Forall₂ (fun x y => ∃ u v, f x u = .ok y v) xs ys := by
  induction xs generalizing s ys with
  | nil =>
    cases done
    exact .nil
  | cons x rest ih =>
    rw [List.mapM_cons] at done
    obtain ⟨first, u, one, done⟩ := run_bind_eq_ok.1 done
    obtain ⟨others, v, more, done⟩ := run_bind_eq_ok.1 done
    cases done
    exact .cons ⟨s, u, one⟩ (ih more)

structure FailsAs (P : ε → Prop) (m : EStateM ε σ α) : Prop where
  error : ∀ s e t, m s = .error e t → P e

namespace FailsAs

variable {P Q : ε → Prop}

theorem mono (fails : FailsAs P m) (weaker : ∀ e, P e → Q e) : FailsAs Q m :=
  ⟨fun s e t failed => weaker e (fails.error s e t failed)⟩

theorem pure (a : α) : FailsAs P (pure a : EStateM ε σ α) := by
  constructor
  intro s e t failed
  cases failed

theorem throw {e : ε} (holds : P e) : FailsAs P (throw e : EStateM ε σ α) := by
  constructor
  intro s e' t failed
  cases failed
  exact holds

theorem bind (first : FailsAs P m) (rest : ∀ a s t, m s = .ok a t → FailsAs P (k a)) :
    FailsAs P (m >>= k) := by
  constructor
  intro s e u failed
  cases h : m s with
  | ok a t =>
    rw [bind_of_ok h] at failed
    exact (rest a s t h).error t e u failed
  | error e' t =>
    rw [bind_of_error h] at failed
    cases failed
    exact first.error s e u h

theorem mapM {f : β → EStateM ε σ α} {xs : List β} (each : ∀ x ∈ xs, FailsAs P (f x)) :
    FailsAs P (xs.mapM f) := by
  induction xs with
  | nil => exact pure []
  | cons x rest ih =>
    rw [List.mapM_cons]
    have others := ih fun y inside => each y (List.mem_cons_of_mem x inside)
    exact (each x (List.mem_cons_self)).bind fun _ _ _ _ => others.bind fun _ _ _ _ => pure _

theorem foldlM {f : α → β → EStateM ε σ α} {xs : List β} (each : ∀ a x, FailsAs P (f a x)) (a : α) :
    FailsAs P (xs.foldlM f a) := by
  induction xs generalizing a with
  | nil => exact pure a
  | cons x rest ih =>
    rw [List.foldlM_cons]
    exact (each a x).bind fun b _ _ _ => ih b

end FailsAs
end ClassForge.Outcome
