import ClassForge.Proofs.Machine.Objects
import ClassForge.Proofs.Pool.Lasting

namespace ClassForge

open Outcome

/-- The literal that a value stands for: a number for its bits, and a string for its text. -/
def Heap.literal? (h : Heap) : Value → Option Literal
  | .int n => some (.int n)
  | .long n => some (.long n)
  | .float bits => some (.float bits)
  | .double bits => some (.double bits)
  | .reference a => (h.string? (.reference a)).map .string
  | .null => none

theorem Machine.ofLiteral_stands (l : Literal) (m : Machine) : ∃ v m',
    ofLiteral l m = .ok v m' ∧ m.Expands m' ∧ m'.heap.literal? v = some l := by
  cases l with
  | string text =>
    refine ⟨_, _, alloc_eq m _, m.expands_adding _, ?_⟩
    have found : (m.adding (.string text)).heap.get ⟨m.heap.size⟩ = .string text :=
      m.heap.get_alloc _
    simp only [Heap.literal?, Heap.string?, Heap.object?, Value.address?, Option.map_some, found]
  | int n | long n | float bits | double bits => exact ⟨_, m, rfl, .refl m, rfl⟩

theorem Layout.resolve_straight {o : Operation Label} (straight : o.target? = none) (layout : Layout)
    (i : Nat) : layout.resolve i o = .ok (o.map fun _ => 0) := by
  cases o with
  | branch c t | goto t => cases straight
  | _ => rfl

namespace Body

/-- A pushed literal is one instruction, and the pool that it refers to only goes on. Nothing has
to be known of the entries that were there. -/
theorem pushLiteral_emits {b b' : Body} {l : Literal} (agreeing : b.pool.Agreeing)
    (pushed : pushLiteral l b = .ok () b') : ∃ o : Operation Label,
      b' = { b with pool := b'.pool, items := b.items.push (.instruction ⟨o, 0, l.slots⟩) } ∧
      b'.pool.Extends b.pool ∧ o.loaded? b'.pool = some l := by
  cases pushes_literal l with
  | short o loads same =>
    rw [same] at pushed
    cases pushed
    exact ⟨o, rfl, .refl _, loads _⟩
  | pooled o loads same =>
    rw [same, referring_eq] at pushed
    have answer := Pool.standing_literal (p := b.pool) l
    cases found : Pool.literal l b.pool with
    | error e p =>
      rw [found] at pushed
      cases pushed
    | ok i p =>
      obtain ⟨-, extends_, holds, -⟩ := answer.of_eq_ok agreeing found
      rw [found] at pushed
      cases pushed
      exact ⟨o i, rfl, extends_, (loads p i).trans holds⟩

end Body

namespace Run

variable {a : Activation} {m m' : Machine} {v : Value} {o : Operation Label} {l : Literal}

theorem step_loads (loads : o.loaded? a.owner.pool = some l)
    (made : Machine.ofLiteral l m = .ok v m') (room : a.depth + l.slots ≤ a.maxStack.toNat)
    {encoded : Operation Int16} (same : encoded = o.map fun _ => 0)
    (here : Operation.Holds a.bytes a.pc encoded.encode) :
    step ⟨a, m⟩ = .ok .next ⟨{ a with
      pc := a.pc + encoded.encode.length, stack := v :: a.stack
      depth := a.depth + l.slots }, m'⟩ := by
  obtain ⟨straight, -⟩ := Operation.straight_of_loaded? loads
  have read := Operation.decode_encode here
  rw [same, Operation.map_map, Operation.map_eq_of_straight straight _ fun _ => none] at read
  rw [step_of_decode read, perform_loads loads made room, Operation.length_encode, same]

end Run

/-- A literal that was pushed comes back. The instruction that it became may stand anywhere in a
method of a class whose pool goes on from the one there was; it is read to its last byte, and gives
one operand that stands for the literal. -/
theorem pushed_literal_returns {b b' : Body} {l : Literal} {given : Nat}
    (reached : Pool.Reached given b.pool) (few : given ≤ 65535)
    (pushed : Body.pushLiteral l b = .ok () b') : ∃ o : Operation Label,
      b' = { b with pool := b'.pool, items := b.items.push (.instruction ⟨o, 0, l.slots⟩) } ∧
      b'.pool.Extends b.pool ∧
      ∀ (layout : Layout) (i : Nat), ∃ encoded, layout.resolve i o = .ok encoded ∧
        ∀ (a : Activation) (m : Machine), a.owner.pool.Extends b'.pool →
          Operation.Holds a.bytes a.pc encoded.encode →
          a.depth + l.slots ≤ a.maxStack.toNat →
          ∃ v m', Run.step ⟨a, m⟩ = .ok .next ⟨{ a with
              pc := a.pc + encoded.encode.length, stack := v :: a.stack
              depth := a.depth + l.slots }, m'⟩ ∧
            m.Expands m' ∧ m'.heap.literal? v = some l := by
  obtain ⟨o, whole, extends_, loads⟩ := Body.pushLiteral_emits (reached.agreeing few) pushed
  obtain ⟨straight, -⟩ := Operation.straight_of_loaded? loads
  refine ⟨o, whole, extends_, fun layout i => ⟨_, layout.resolve_straight straight i, ?_⟩⟩
  intro a m onward here room
  obtain ⟨v, m', made, expands, stands⟩ := Machine.ofLiteral_stands l m
  have loads' := Operation.loaded?_of_extends onward loads
  exact ⟨v, m', Run.step_loads loads' made room rfl here, expands, stands⟩

/-- A body in whose pool the next index takes two bytes. -/
def crowdedBody : Body where
  pool := Pool.ofSlots (List.replicate 255 (some (.utf8 [0x41])))
  cache := {}
  descriptor := ⟨[], none⟩
  isStatic := true
  maxLocals := 0

theorem pushed_literal_returns_wide : ∃ b' a v m',
    Body.pushLiteral (.float 0x80000000) crowdedBody = .ok () b' ∧
      a.owner.pool = b'.pool ∧ a.bytes = #[0x13, 1, 0] ∧
      Run.step ⟨a, {}⟩ = .ok .next ⟨{ a with pc := 3, stack := [v], depth := 1 }, m'⟩ ∧
      m'.heap.literal? v = some (.float 0x80000000) := by
  have few : (List.replicate 255 (some (Entry.utf8 [0x41]))).length ≤ 65535 := by
    rw [List.length_replicate]
    decide
  have shape : (match Body.pushLiteral (.float 0x80000000) crowdedBody with
      | .ok _ b => b.items == #[.instruction ⟨.loadConstant 256, 0, 1⟩]
      | .error _ _ => false) = true := by decide +kernel
  cases pushed : Body.pushLiteral (.float 0x80000000) crowdedBody with
  | error e b' =>
    rw [pushed] at shape
    cases shape
  | ok u b' =>
    rw [pushed] at shape
    obtain ⟨o, whole, -, returns⟩ := pushed_literal_returns (.ofSlots _) few pushed
    have same : o = .loadConstant 256 := by
      rw [whole] at shape
      have items : #[Item.instruction ⟨o, 0, 1⟩] = #[.instruction ⟨.loadConstant 256, 0, 1⟩] :=
        eq_of_beq shape
      simpa using items
    obtain ⟨encoded, resolved, returns⟩ := returns {} 0
    subst same
    cases resolved
    let a : Activation := {
      owner := .extending { name := "C", access := 0, pool := b'.pool } .root
      bytes := #[0x13, 1, 0], handlers := [], maxStack := 1, locals := #[] }
    obtain ⟨v, m', stepped, -, stands⟩ := returns a {} (.refl _)
      (Operation.holds_of_append [] _) (Nat.le_refl 1)
    exact ⟨b', a, v, m', rfl, rfl, rfl, stepped, stands⟩

end ClassForge
