import ClassForge.Proofs.Pool.Lookup

namespace ClassForge.Pool

variable {α β : Type}

/-- The pool behind some steps, whether they fail or not. -/
def left (m : PoolM α) (p : Pool) : Pool :=
  match m p with
  | .ok _ q | .error _ q => q

theorem left_intern (e : Entry) (p : Pool) : left (intern e) p = p ∨
    (left (intern e) p = p.append e ∧ p.find? e = none ∧ p.size + e.width ≤ maxSlots) := by
  cases h : p.find? e with
  | some i =>
    left
    simp only [Pool.left, intern, h]
  | none =>
    by_cases full : maxSlots < p.size + e.width
    · left
      simp only [Pool.left, intern, h, if_pos full]
    · right
      refine ⟨?_, rfl, Nat.not_lt.1 full⟩
      simp only [Pool.left, intern, h, if_neg full]

/-- Steps that intern entries and look at slots, and do nothing else to a pool. -/
inductive Interns : {α : Type} → PoolM α → Prop where
  | pure {α : Type} (a : α) : Interns (pure a)
  | throw {α : Type} (e : Error) : Interns (throw e : PoolM α)
  | intern (e : Entry) : Interns (intern e)
  | look {α β : Type} (view : Pool → α) (blind : ∀ p q, p.slots = q.slots → view p = view q)
    {k : α → PoolM β} (next : ∀ a, Interns (k a)) : Interns (get >>= fun p => k (view p))
  | bind {α β : Type} {m : PoolM α} {k : α → PoolM β} (first : Interns m)
    (next : ∀ a, Interns (k a)) : Interns (m >>= k)

theorem left_bind (m : PoolM α) (k : α → PoolM β) (p : Pool) : left (m >>= k) p =
    match m p with
    | .ok a q => left (k a) q
    | .error _ q => q := by
  unfold left
  change (match EStateM.bind m k p with | .ok _ q | .error _ q => q) = _
  rw [EStateM.bind]
  cases m p <;> rfl

namespace Interns

theorem preserves {P : Pool → Prop} (each : ∀ p e, P p → P (left (Pool.intern e) p))
    {m : PoolM α} (interns : Interns m) {p : Pool} (holds : P p) : P (left m p) := by
  induction interns generalizing p with
  | pure a | throw e => exact holds
  | intern e => exact each p e holds
  | look view blind next ih => exact ih _ holds
  | @bind _ _ m k first next ih ihnext =>
    rw [left_bind]
    have middle := ih holds
    unfold left at middle
    cases h : m p with
    | ok a q =>
      rw [h] at middle
      exact ihnext a middle
    | error e q =>
      rw [h] at middle
      exact middle

theorem utf8 (text : String) : Interns (utf8 text) := by
  unfold Pool.utf8
  dsimp only
  split
  · exact throw _
  · exact intern _

theorem classRef (name : String) : Interns (classRef name) :=
  (utf8 _).bind fun _ => intern _

theorem string (value : String) : Interns (string value) :=
  (utf8 _).bind fun _ => intern _

theorem nameAndType (name descriptor : String) : Interns (nameAndType name descriptor) :=
  (utf8 _).bind fun _ => (utf8 _).bind fun _ => intern _

theorem member (kind : MemberKind) (owner name descriptor : String) :
    Interns (member kind owner name descriptor) :=
  (classRef _).bind fun _ => (nameAndType _ _).bind fun _ => intern _

theorem methodType (descriptor : String) : Interns (methodType descriptor) :=
  (utf8 _).bind fun _ => intern _

theorem methodHandle (kind : ReferenceKind) (target : Index) :
    Interns (methodHandle kind target) := by
  have blind : ∀ p q : Pool, p.slots = q.slots → p.tagAt? target = q.tagAt? target := by
    intro p q same
    rw [tagAt?, tagAt?, get?, get?, same]
  refine look (k := fun actual : Option Tag =>
    if actual.any (kind.targets.contains ·) then Pool.intern (.methodHandle kind target)
    else MonadExcept.throw (.encoding (.handleTarget kind target actual)))
    (tagAt? · target) blind fun actual => ?_
  split
  · exact intern _
  · exact throw _

theorem literal (l : Literal) : Interns (literal l) := by
  cases l with
  | string s => exact string s
  | _ => exact intern _

theorem integersFrom (first : Int32) (n : Nat) : Interns (integersFrom first n) := by
  induction n generalizing first with
  | zero => exact pure none
  | succ n ih => exact (intern _).bind fun _ => (ih _).bind fun _ => pure _

theorem answer (request : Request) : Interns request.answer := by
  cases request with
  | utf8 text => exact utf8 text
  | classRef name => exact classRef name
  | literal value => exact literal value
  | nameAndType name descriptor => exact nameAndType name descriptor
  | member kind owner name descriptor => exact member kind owner name descriptor
  | methodType descriptor => exact methodType descriptor
  | methodHandle kind target => exact methodHandle kind target

end Interns
end ClassForge.Pool
