import ClassForge.Code.StackDepth
import ClassForge.Proofs.Outcome

namespace ClassForge

def Instruction.behind (instruction : Instruction) (depth : Nat) : Nat :=
  depth - instruction.pops + instruction.pushes

namespace Layout

/-- What may run after the instruction at position `i`: the one behind it, or the one that it
branches to. -/
inductive Next (l : Layout) (i : Nat) (o : Operation Label) : Nat → Prop where
  | fall (falls : o.fallsThrough = true) : Next l i o (i + 1)
  | jump {t : Label} {j : Nat} (branches : o.target? = some t)
    (marked : l.instructionAt t = .ok j) : Next l i o j

inductive Reachable (l : Layout) (handlers : List Nat) : Nat → Prop where
  | first : Reachable l handlers 0
  | handler {i : Nat} (handles : i ∈ handlers) : Reachable l handlers i
  | next {i j : Nat} {instruction : Instruction} (reached : Reachable l handlers i)
    (here : l.instructions[i]? = some instruction) (after : Next l i instruction.operation j) :
    Reachable l handlers j

/-- One depth for each reachable instruction, such that all ways agree on them. -/
structure Consistent (l : Layout) (handlers : List Nat) (depth : Nat → Nat) : Prop where
  inside : ∀ i, l.Reachable handlers i → i < l.size
  first : depth 0 = 0
  handler : ∀ i ∈ handlers, depth i = 1
  enough : ∀ i instruction, l.Reachable handlers i → l.instructions[i]? = some instruction →
    instruction.pops ≤ depth i
  bounded : ∀ i instruction, l.Reachable handlers i → l.instructions[i]? = some instruction →
    instruction.behind (depth i) ≤ 65535
  flows : ∀ i instruction j, l.Reachable handlers i → l.instructions[i]? = some instruction →
    Next l i instruction.operation j → depth j = instruction.behind (depth i)
  leaves : ∀ i instruction kind, l.Reachable handlers i → l.instructions[i]? = some instruction →
    instruction.operation = .leave kind → depth i = instruction.pops

/-- Every branch that control may get to leads to an instruction. -/
def Marked (l : Layout) (handlers : List Nat) : Prop :=
  ∀ i instruction t, l.Reachable handlers i → l.instructions[i]? = some instruction →
    instruction.operation.target? = some t → ∃ j, l.instructionAt t = .ok j

inductive Occurs (l : Layout) (handlers : List Nat) (depth : Nat → Nat) : Nat → Prop where
  | before {i : Nat} (reached : l.Reachable handlers i) : Occurs l handlers depth (depth i)
  | behind {i : Nat} {instruction : Instruction} (reached : l.Reachable handlers i)
    (here : l.instructions[i]? = some instruction) :
    Occurs l handlers depth (instruction.behind (depth i))

open Outcome

def successors (l : Layout) (i : Nat) (o : Operation Label) : Except Error (List Nat) := do
  let behind := if o.fallsThrough then [i + 1] else []
  match o.target? with
  | none => return behind
  | some t => return (← l.instructionAt t) :: behind

theorem successors_eq_ok {l : Layout} {i : Nat} {o : Operation Label} {js : List Nat} :
    l.successors i o = .ok js ↔ match o.target? with
      | none => js = if o.fallsThrough then [i + 1] else []
      | some t => ∃ j, l.instructionAt t = .ok j ∧
        js = j :: if o.fallsThrough then [i + 1] else [] := by
  rw [successors]
  cases o.target? with
  | none => simp only [pure_eq_ok]
  | some t => simp only [bind_eq_ok, pure_eq_ok]

theorem mem_successors {l : Layout} {i : Nat} {o : Operation Label} {js : List Nat}
    (found : l.successors i o = .ok js) (j : Nat) : j ∈ js ↔ Next l i o j := by
  have behind : j ∈ (if o.fallsThrough = true then [i + 1] else []) ↔
      o.fallsThrough = true ∧ j = i + 1 := by
    split <;> simp [*]
  rw [successors_eq_ok] at found
  cases h : o.target? with
  | none =>
    simp only [h] at found
    rw [found, behind]
    constructor
    · intro fall
      obtain ⟨falls, rfl⟩ := fall
      exact .fall falls
    · intro next
      cases next with
      | fall falls => exact ⟨falls, rfl⟩
      | jump branches => rw [h] at branches; cases branches
  | some t =>
    simp only [h] at found
    obtain ⟨k, marked, rfl⟩ := found
    rw [List.mem_cons, behind]
    constructor
    · intro either
      rcases either with rfl | ⟨falls, rfl⟩
      · exact .jump h marked
      · exact .fall falls
    · intro next
      cases next with
      | fall falls => exact .inr ⟨falls, rfl⟩
      | jump branches marked' =>
        rw [h] at branches
        cases branches
        rw [marked] at marked'
        cases marked'
        exact .inl rfl

end Layout
end ClassForge
