import ClassForge.Proofs.Pool.Growing
import ClassForge.Proofs.Pool.Interning

namespace ClassForge

namespace Pool

variable {p q r : Pool}

/-- The same slots, and the same found in them. How lookups are kept does not matter. -/
structure Alike (p q : Pool) : Prop where
  slots : p.slots = q.slots
  find : ∀ e, p.find? e = q.find? e

namespace Alike

theorem refl (p : Pool) : p.Alike p := ⟨rfl, fun _ => rfl⟩

theorem symm (alike : p.Alike q) : q.Alike p :=
  ⟨alike.slots.symm, fun e => (alike.find e).symm⟩

theorem trans (first : p.Alike q) (second : q.Alike r) : p.Alike r :=
  ⟨first.slots.trans second.slots, fun e => (first.find e).trans (second.find e)⟩

theorem size (alike : p.Alike q) : p.size = q.size := by rw [Pool.size, Pool.size, alike.slots]

theorem get? (alike : p.Alike q) (i : Index) : p.get? i = q.get? i := by
  rw [Pool.get?, Pool.get?, alike.slots]

theorem append (alike : p.Alike q) (e : Entry) : (p.append e).Alike (q.append e) := by
  constructor
  · rw [Pool.append, Pool.append, alike.slots]
  · intro x
    rw [find?_append, find?_append, alike.size, alike.find]

theorem truncate (alike : p.Alike q) (n : Nat) : (p.truncate n).Alike (q.truncate n) := by
  constructor
  · rw [Pool.truncate, Pool.truncate, alike.size]
    split
    · exact alike.slots
    · rw [alike.slots]
  · intro x
    apply Option.ext
    intro i
    rw [find?_truncate, find?_truncate, alike.size, alike.find]

theorem of_indexed (left : p.Indexed) (right : q.Indexed) (slots : p.slots = q.slots) :
    p.Alike q := by
  refine ⟨slots, fun e => ?_⟩
  apply Option.ext
  intro i
  rw [left e i, right e i, First, First]
  simp only [Pool.get?, slots]

end Alike

def Bounded (p : Pool) : Prop := ∀ e i, p.find? e = some i → i.toNat ≤ p.size

structure Grown (p q : Pool) : Prop where
  slots : q.Extends p
  kept : ∀ e i, p.find? e = some i → q.find? e = some i
  new : ∀ e i, q.find? e = some i → p.find? e = some i ∨ (p.size < i.toNat ∧ i.toNat ≤ q.size)

namespace Grown

theorem refl (p : Pool) : p.Grown p :=
  ⟨.refl p, fun _ _ found => found, fun _ _ found => .inl found⟩

theorem trans (first : p.Grown q) (second : q.Grown r) : p.Grown r := by
  refine ⟨first.slots.trans second.slots, fun e i found => second.kept e i (first.kept e i found),
    fun e i found => ?_⟩
  have size := second.slots.size_le
  have size' := first.slots.size_le
  rcases second.new e i found with before | ⟨above, bound⟩
  · rcases first.new e i before with start | ⟨above, bound⟩
    · exact .inl start
    · exact .inr ⟨above, by omega⟩
  · exact .inr ⟨by omega, bound⟩

theorem append {e : Entry} (absent : p.find? e = none) (room : p.size + e.width ≤ maxSlots) :
    p.Grown (p.append e) := by
  have bound : maxSlots = 65534 := rfl
  have wide := e.one_le_width
  refine ⟨extends_append p e, fun x i found => ?_, fun x i found => ?_⟩
  · have other : x ≠ e := by
      rintro rfl
      rw [absent] at found
      cases found
    rw [find?_append, if_neg other, found]
  · rw [find?_append] at found
    split at found
    · cases found
      rw [size_append, UInt16.toNat_ofNat']
      exact .inr ⟨by omega, by omega⟩
    · exact .inl found

theorem intern (p : Pool) (e : Entry) : p.Grown (left (Pool.intern e) p) := by
  rcases left_intern e p with same | ⟨added, absent, room⟩
  · rw [same]
    exact refl p
  · rw [added]
    exact append absent room

theorem of_alike (alike : p.Alike q) : p.Grown q :=
  ⟨.of_slots_eq alike.slots.symm, fun e _ found => (alike.find e).symm.trans found,
    fun e _ found => .inl ((alike.find e).trans found)⟩

theorem bounded (grown : p.Grown q) (bounded : p.Bounded) : q.Bounded := by
  intro e i found
  have size := grown.slots.size_le
  rcases grown.new e i found with before | ⟨-, bound⟩
  · exact Nat.le_trans (bounded e i before) size
  · exact bound

theorem truncate (grown : p.Grown q) (bounded : p.Bounded) : (q.truncate p.size).Alike p := by
  refine ⟨slots_truncate grown.slots, fun e => ?_⟩
  apply Option.ext
  intro i
  rw [find?_truncate]
  constructor
  · intro parts
    obtain ⟨found, inside⟩ := parts
    rcases grown.new e i found with before | ⟨above, bound⟩
    · exact before
    · omega
  · intro found
    exact ⟨grown.kept e i found, .inl (bounded e i found)⟩

end Grown
end Pool

/-- What of a state matters to the steps on it: its pool, and all that is not kept for speed or for
a reader. Some of it may be fixed. -/
structure View (σ : Type) where
  pool : σ → Pool
  rest : σ → σ
  fixed : σ → σ

namespace View

variable {σ ε α β : Type} {V : View σ} {s t u : σ}

structure Alike (V : View σ) (s t : σ) : Prop where
  pool : (V.pool s).Alike (V.pool t)
  rest : V.rest s = V.rest t

structure Onward (V : View σ) (s t : σ) : Prop where
  grown : (V.pool s).Grown (V.pool t)
  fixed : V.fixed t = V.fixed s

theorem Onward.refl (s : σ) : V.Onward s s := ⟨.refl _, rfl⟩

theorem Onward.trans (first : V.Onward s t) (second : V.Onward t u) : V.Onward s u :=
  ⟨first.grown.trans second.grown, second.fixed.trans first.fixed⟩

theorem Alike.trans (first : V.Alike s t) (second : V.Alike t u) : V.Alike s u :=
  ⟨first.pool.trans second.pool, first.rest.trans second.rest⟩

theorem Alike.map {f : σ → σ} (alike : V.Alike s t) (pool : ∀ s, V.pool (f s) = V.pool s)
    (rest : ∀ s, V.rest (f s) = V.rest (f (V.rest s))) : V.Alike (f s) (f t) := by
  constructor
  · rw [pool, pool]
    exact alike.pool
  · rw [rest s, rest t, alike.rest]

inductive Ends (V : View σ) : EStateM.Result ε σ α → EStateM.Result ε σ α → Prop where
  | ok {s t : σ} (a : α) (alike : V.Alike s t) : Ends V (.ok a s) (.ok a t)
  | error {s t : σ} (e : ε) (alike : V.Alike s t) : Ends V (.error e s) (.error e t)

/-- Steps that do the same from states that are alike. -/
def Blind (V : View σ) (m : EStateM ε σ α) : Prop := ∀ s t, V.Alike s t → V.Ends (m s) (m t)

/-- Steps that do the same from states that are alike, and that do no more to a state than intern
and change what is not fixed. -/
structure Keeps (V : View σ) (m : EStateM ε σ α) : Prop where
  blind : V.Blind m
  onward : ∀ s, match m s with
    | .ok _ t | .error _ t => V.Onward s t

variable {m : EStateM ε σ α} {k : α → EStateM ε σ β}

namespace Blind

theorem pure (a : α) : V.Blind (pure a : EStateM ε σ α) := fun _ _ alike => .ok a alike

theorem throw (e : ε) : V.Blind (throw e : EStateM ε σ α) := fun _ _ alike => .error e alike

theorem modify {f : σ → σ} (pool : ∀ s, V.pool (f s) = V.pool s)
    (rest : ∀ s, V.rest (f s) = V.rest (f (V.rest s))) :
    V.Blind (modify f : EStateM ε σ Unit) := fun _ _ alike => .ok () (alike.map pool rest)

theorem look {k : σ → EStateM ε σ β} (same : ∀ s, k s = k (V.rest s)) (next : ∀ s, V.Blind (k s)) :
    V.Blind (get >>= k) := by
  intro s t alike
  have equal : k s = k t := by rw [same s, same t, alike.rest]
  change V.Ends (k s s) (k t t)
  rw [equal]
  exact next t s t alike

theorem bind (first : V.Blind m) (next : ∀ a, V.Blind (k a)) : V.Blind (m >>= k) := by
  intro s t alike
  have ends := first s t alike
  change V.Ends (EStateM.bind m k s) (EStateM.bind m k t)
  unfold EStateM.bind
  generalize m s = x at ends
  generalize m t = y at ends
  cases ends with
  | ok a alike => exact next a _ _ alike
  | error e alike => exact .error e alike

theorem forM {xs : List β} {f : β → EStateM ε σ PUnit} (each : ∀ x, V.Blind (f x)) :
    V.Blind (xs.forM f) := by
  induction xs with
  | nil => exact pure _
  | cons x rest ih => exact (each x).bind fun _ => ih

end Blind

namespace Keeps

theorem pure (a : α) : V.Keeps (pure a : EStateM ε σ α) := ⟨.pure a, fun s => .refl s⟩

theorem throw (e : ε) : V.Keeps (throw e : EStateM ε σ α) := ⟨.throw e, fun s => .refl s⟩

theorem modify {f : σ → σ} (pool : ∀ s, V.pool (f s) = V.pool s)
    (rest : ∀ s, V.rest (f s) = V.rest (f (V.rest s))) (fixed : ∀ s, V.fixed (f s) = V.fixed s) :
    V.Keeps (modify f : EStateM ε σ Unit) :=
  ⟨.modify pool rest, fun s => ⟨pool s ▸ .refl _, fixed s⟩⟩

theorem look {k : σ → EStateM ε σ β} (same : ∀ s, k s = k (V.rest s)) (next : ∀ s, V.Keeps (k s)) :
    V.Keeps (get >>= k) :=
  ⟨.look same fun s => (next s).blind, fun s => (next s).onward s⟩

theorem bind (first : V.Keeps m) (next : ∀ a, V.Keeps (k a)) : V.Keeps (m >>= k) := by
  refine ⟨first.blind.bind fun a => (next a).blind, fun s => ?_⟩
  have start := first.onward s
  change match EStateM.bind m k s with | .ok _ t | .error _ t => V.Onward s t
  unfold EStateM.bind
  cases h : m s with
  | error e t =>
    rw [h] at start
    exact start
  | ok a t =>
    rw [h] at start
    have rest := (next a).onward t
    dsimp only
    cases h' : k a t with
    | error e u | ok b u =>
      rw [h'] at rest
      exact start.trans rest

theorem forM {xs : List β} {f : β → EStateM ε σ PUnit} (each : ∀ x, V.Keeps (f x)) :
    V.Keeps (xs.forM f) := by
  induction xs with
  | nil => exact pure _
  | cons x rest ih => exact (each x).bind fun _ => ih

theorem mapM {γ : Type} {xs : List β} {f : β → EStateM ε σ γ} (each : ∀ x, V.Keeps (f x)) :
    V.Keeps (xs.mapM f) := by
  induction xs with
  | nil => exact pure _
  | cons x rest ih =>
    rw [List.mapM_cons]
    exact (each x).bind fun _ => ih.bind fun _ => pure _

end Keeps

section Part

variable {τ : Type} {W : View τ} {part : σ → τ} {put : σ → τ → σ} {m : EStateM ε τ α}
  {n : EStateM ε σ α}

/-- Steps on a part of a state, which is put back when they end. -/
def OnPart (part : σ → τ) (put : σ → τ → σ) (m : EStateM ε τ α) (n : EStateM ε σ α) : Prop :=
  ∀ s, n s = match m (part s) with
    | .ok a t => .ok a (put s t)
    | .error e t => .error e (put s t)

theorem Blind.onPart (runs : OnPart part put m n)
    (parts : ∀ s t, V.Alike s t → W.Alike (part s) (part t))
    (puts : ∀ s t p q, V.Alike s t → W.Alike p q → V.Alike (put s p) (put t q))
    (blind : W.Blind m) : V.Blind n := by
  intro s t alike
  have ends := blind _ _ (parts s t alike)
  rw [runs, runs]
  generalize m (part s) = x at ends
  generalize m (part t) = y at ends
  cases ends with
  | ok a alike' => exact .ok a (puts _ _ _ _ alike alike')
  | error e alike' => exact .error e (puts _ _ _ _ alike alike')

theorem Keeps.onPart (runs : OnPart part put m n)
    (parts : ∀ s t, V.Alike s t → W.Alike (part s) (part t))
    (puts : ∀ s t p q, V.Alike s t → W.Alike p q → V.Alike (put s p) (put t q))
    (moves : ∀ s p, W.Onward (part s) p → V.Onward s (put s p)) (keeps : W.Keeps m) :
    V.Keeps n := by
  refine ⟨keeps.blind.onPart runs parts puts, fun s => ?_⟩
  have onward := keeps.onward (part s)
  rw [runs]
  cases h : m (part s) with
  | ok a t | error e t =>
    rw [h] at onward
    exact moves s t onward

end Part

def ofPool : View Pool := ⟨id, fun _ => {}, fun _ => {}⟩

end View

namespace Pool

theorem Alike.intern {p q : Pool} (alike : p.Alike q) (e : Entry) :
    View.ofPool.Ends (Pool.intern e p) (Pool.intern e q) := by
  unfold Pool.intern
  rw [alike.find, alike.size]
  split
  · exact .ok _ ⟨alike, rfl⟩
  · dsimp only
    split
    · exact .error _ ⟨alike, rfl⟩
    · exact .ok _ ⟨alike.append e, rfl⟩

theorem Interns.keeps {α : Type} {m : PoolM α} (interns : Interns m) : View.ofPool.Keeps m := by
  induction interns with
  | pure a => exact .pure a
  | throw e => exact .throw e
  | intern e =>
    refine ⟨fun p q alike => alike.pool.intern e, fun p => ?_⟩
    have grown := Grown.intern p e
    unfold left at grown
    split <;> rename_i h <;> rw [h] at grown <;> exact ⟨grown, rfl⟩
  | @look _ _ view blind k next ih =>
    refine ⟨fun p q alike => ?_, fun p => (ih _).onward p⟩
    change View.ofPool.Ends (k (view p) p) (k (view q) q)
    rw [blind p q alike.pool.slots]
    exact (ih _).blind p q alike
  | bind first next ih ihnext => exact ih.bind ihnext

end Pool
end ClassForge
