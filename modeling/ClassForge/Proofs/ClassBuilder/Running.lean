import ClassForge.Proofs.ClassBuilder.Building
import ClassForge.Proofs.Machine.Operands

namespace ClassForge

open Outcome

theorem Body.maxLocals_of_finish {b : Body} {code : Code} (done : b.finish = .ok code) :
    code.maxLocals = b.maxLocals := by
  simp only [finish, bind_eq_ok] at done
  obtain ⟨_, -, _, -, _, -, _, -, _, -, _, -, same⟩ := done
  cases same
  rfl

theorem FieldType.length_le_totalSlots (types : List FieldType) :
    types.length ≤ totalSlots types := by
  induction types with
  | nil => exact Nat.le_refl _
  | cons t rest ih =>
    have one := t.slots_pos
    change rest.length + 1 ≤ t.slots + totalSlots rest
    omega

namespace ClassBuilder.CodeMade

variable {h : MethodHead} {steps : Listing} {code : Code} {p : Pool} {owner : LoadedClass}
  {d : MethodDescriptor}

theorem paramSlots_le (made : CodeMade h steps code p)
    (decoded : MethodDescriptor.decode? h.descriptor = some d) : d.paramSlots ≤ 255 := by
  obtain ⟨d', decoded', enough⟩ := made.enough
  rw [decoded] at decoded'
  cases decoded'
  exact Nat.le_trans (Nat.le_add_left _ _) enough

theorem means (made : CodeMade h steps code p) (plain : ∀ step ∈ steps, step.isPlain = true) :
    ∃ d is, MethodDescriptor.decode? h.descriptor = some d ∧ steps.Means d h.isStatic p is := by
  obtain ⟨before, b', sound, ⟨b, transcript, started, ran, -⟩, within⟩ := made.body
  obtain ⟨-, is, means, -⟩ := Listing.run_plain plain (started.sound sound) ran
  rw [started.isStatic] at means
  exact ⟨_, is, started.decoded, means.mono within⟩

theorem bound (made : CodeMade h (.loadThis :: steps) code p)
    (plain : ∀ step ∈ steps, step.isPlain = true) : h.isStatic = false := by
  have whole : ∀ step ∈ Step.loadThis :: steps, step.isPlain = true := by
    simp only [List.mem_cons, forall_eq_or_imp]
    exact ⟨rfl, plain⟩
  obtain ⟨d, is, -, _, _, loads, -⟩ := made.means whole
  cases loads with
  | loadThis bound => exact bound

theorem enters (made : CodeMade h steps code p) (plain : ∀ step ∈ steps, step.isPlain = true)
    (bound : h.isStatic = false) (decoded : MethodDescriptor.decode? h.descriptor = some d)
    (extends_ : owner.pool.Extends p) : ∃ is, steps.Means d false owner.pool is ∧
      ∀ name this args, this.slots = 1 → Value.Suit d.params args → ∃ a,
        Activation.ofCode owner name code (this :: args) = .ok a ∧ a.owner = owner ∧
        a.Given this args ∧ a.Runs is := by
  obtain ⟨before, b', sound, ⟨b, transcript, started, ran, finish⟩, within⟩ := made.body
  obtain ⟨later, is, means, emits⟩ := Listing.run_plain plain (started.sound sound) ran
  obtain ⟨s, -, finished⟩ := Body.finished_of_eq_ok finish
  have same : b.descriptor = d := by
    have decoded' := started.decoded
    rw [decoded, Option.some.injEq] at decoded'
    exact decoded'.symm
  rw [same, started.isStatic, bound] at means
  refine ⟨is, means.mono (within.trans extends_), fun name this args one suit => ?_⟩
  have slots : (Activation.slotsOf (this :: args)).length = 1 + d.paramSlots := by
    rw [Activation.length_slotsOf, Value.totalSlots_cons, one, Value.totalSlots_of_suit suit]
    rfl
  have room : ¬code.maxLocals.toNat < (Activation.slotsOf (this :: args)).length := by
    have start := started.locals
    rw [bound, same] at start
    have le := later.maxLocals
    rw [UInt16.le_iff_toNat_le, start] at le
    rw [Body.maxLocals_of_finish finish, slots]
    exact Nat.not_lt.2 le
  cases entered : Activation.ofCode owner name code (this :: args) with
  | error v =>
    rw [Activation.ofCode, if_neg room] at entered
    cases entered
  | ok a =>
    obtain ⟨ofOwner, -, -, -, -, locals⟩ := Activation.ofCode_eq_ok entered
    have whole : b'.emitted = is := by
      rw [Body.emitted, emits.items, started.items]
      simp [Item.emitted, Item.instruction?, List.filterMap_map, Function.comp_def]
    exact ⟨a, rfl, ofOwner, ⟨⟨_, locals⟩, one⟩, whole ▸ finished.runs entered⟩

end ClassBuilder.CodeMade
end ClassForge
