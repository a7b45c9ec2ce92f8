import ClassForge.Proofs.Code.Emission
import ClassForge.Proofs.Code.Recording
import ClassForge.Proofs.Machine.Turns

namespace ClassForge

/-- The protection catches everything, or a class that the exception is an instance of. -/
def Protection.Matches (p : Protection) (owner : LoadedClass) (h : Heap) (v : Value) : Prop :=
  p.catchType = 0 ∨
    ∃ name, owner.pool.classNameAt? p.catchType = some name ∧ h.isInstance v name = true

def Protection.FirstOf (p : Protection) (protections : List Protection) (items : List Item)
    (i : Nat) (owner : LoadedClass) (h : Heap) (v : Value) : Prop :=
  ∃ before after, protections = before ++ p :: after ∧ p.Encloses items i ∧ p.Matches owner h v ∧
    ∀ q ∈ before, ¬(q.Encloses items i ∧ q.Matches owner h v)

namespace Activation

variable {l : Layout} {items : List Item} {protections : List Protection}
  {handlers : List (Handler × Nat)} {f : Activation} {h : Heap} {i : Nat} {v : Value}

theorem handlerAmong_cons (places : l.Places items) {p : Protection} {e : Handler} {position : Nat}
    (guards : Layout.Guards items p e position) (inside : i < (Item.emitted items).length)
    {rest : List Handler} {found : Option Handler}
    (done : f.handlerAmong? h (Instruction.offset (Item.emitted items) i) v (e :: rest) =
      .ok found) :
    (p.Encloses items i ∧ p.Matches f.owner h v) ∧ found = some e ∨
      ¬(p.Encloses items i ∧ p.Matches f.owner h v) ∧
        f.handlerAmong? h (Instruction.offset (Item.emitted items) i) v rest = .ok found := by
  have covers := guards.covers_iff places inside
  rw [handlerAmong?] at done
  split at done
  · rename_i outside
    exact .inr ⟨fun both => covers.2 both.1 outside, done⟩
  · rename_i within
    have encloses := covers.1 within
    split at done
    · rename_i all
      cases done
      exact .inl ⟨⟨encloses, .inl (guards.catchType ▸ all)⟩, rfl⟩
    · rename_i typed
      split at done
      · cases done
      · rename_i name named
        rw [guards.catchType] at named typed
        split at done
        · rename_i fits
          cases done
          exact .inl ⟨⟨encloses, .inr ⟨name, named, fits⟩⟩, rfl⟩
        · rename_i differs
          refine .inr ⟨?_, done⟩
          intro both
          rcases both.2 with all | ⟨name', named', fits⟩
          · exact typed all
          · rw [named] at named'
            cases named'
            exact differs fits

theorem handlerAmong_some (places : l.Places items)
    (guards : List.Forall₂ (fun p h => Layout.Guards items p h.1 h.2) protections handlers)
    (inside : i < (Item.emitted items).length) {e : Handler}
    (done : f.handlerAmong? h (Instruction.offset (Item.emitted items) i) v
      (handlers.map Prod.fst) = .ok (some e)) :
    ∃ p j, p.FirstOf protections items i f.owner h v ∧ Layout.Guards items p e j ∧
      j ∈ handlers.map Prod.snd := by
  induction guards with
  | nil => cases done
  | @cons p first rest others here _ ih =>
    rcases handlerAmong_cons places here inside done with ⟨both, same⟩ | ⟨missed, done⟩
    · cases same
      refine ⟨p, first.2, ⟨[], rest, rfl, both.1, both.2, ?_⟩, here, List.mem_cons_self⟩
      intro q member
      cases member
    · obtain ⟨q, j, ⟨before, after, rfl, encloses, fits, missed'⟩, guards, member⟩ := ih done
      refine ⟨q, j, ⟨p :: before, after, rfl, encloses, fits, ?_⟩, guards,
        List.mem_cons_of_mem _ member⟩
      intro q member
      rcases List.mem_cons.1 member with rfl | member
      · exact missed
      · exact missed' q member

theorem handlerAmong_none (places : l.Places items)
    (guards : List.Forall₂ (fun p h => Layout.Guards items p h.1 h.2) protections handlers)
    (inside : i < (Item.emitted items).length)
    (done : f.handlerAmong? h (Instruction.offset (Item.emitted items) i) v
      (handlers.map Prod.fst) = .ok none) :
    ∀ p ∈ protections, ¬(p.Encloses items i ∧ p.Matches f.owner h v) := by
  induction guards with
  | nil =>
    intro p member
    cases member
  | @cons p first rest others here _ ih =>
    rcases handlerAmong_cons places here inside done with ⟨_, same⟩ | ⟨missed, done⟩
    · cases same
    · intro q member
      rcases List.mem_cons.1 member with rfl | member
      · exact missed
      · exact ih done q member

end Activation

namespace Body

open Run (Proceeds Throws Catches Turn Turns)
open Activation (SameCode SamePlace kept_samePlace)

/-- What may run after the instruction at position `i`: the one emitted next, or the one that it
branches to. -/
inductive Follows (b : Body) (i : Nat) (o : Operation Label) : Nat → Prop where
  | fall (falls : o.fallsThrough = true) : Follows b i o (i + 1)
  | jump {label : Label} {j : Nat} (branches : o.target? = some label)
    (marks : b.Marks label j) : Follows b i o j

/-- The instruction emitted at position `i` is what the method runs next, and what it does is what
was meant: it is read as it was emitted, goes on at the next instruction or at its label, and
throws to the first protection around it that catches. -/
structure Executes (b : Body) (r : Run) (i : Nat) (instruction : Instruction) : Prop where
  emitted : b.emitted[i]? = some instruction
  starts : r.activation.pc = b.offset i
  decodes : ∃ distance, Item.Leads b.items.toList i instruction.operation distance ∧
    Operation.Holds r.activation.bytes r.activation.pc
      (instruction.operation.map distance).encode ∧
    Operation.decode r.activation.bytes r.activation.pc =
      .ok (instruction.operation.map fun label => some (distance label), b.offset (i + 1))
  readable : ∀ e r', r.step = .error e r' → e.ordinary = true
  proceeds : ∀ fuel r', Proceeds fuel r r' →
    ∃ j, b.Follows i instruction.operation j ∧ r'.activation.pc = b.offset j
  catches : ∀ fuel v r₁ (r' : Run), Throws fuel r v r₁ →
    r₁.activation.catching r.activation.pc v r₁.machine = .ok r'.activation r'.machine →
    ∃ (p : Protection) (j : Nat),
      p.FirstOf b.protections.toList b.items.toList i r.activation.owner r₁.machine.heap v ∧
        b.Marks p.handler j ∧ r'.activation.pc = b.offset j
  escapes : ∀ fuel v u r₁ m, Throws fuel r v r₁ →
    r₁.activation.catching r.activation.pc v r₁.machine = .error (.thrown u) m →
    u = v ∧ ∀ p ∈ b.protections.toList,
      ¬(p.Encloses b.items.toList i ∧ p.Matches r.activation.owner r₁.machine.heap v)

structure Stands (b : Body) (code : Code) (s : DepthSearch) (r : Run) (i d : Nat) : Prop where
  met : s.At i d
  starts : r.activation.pc = b.offset i
  bytes : r.activation.bytes = code.bytes.toArray
  handlers : r.activation.handlers = code.handlers

variable {b : Body} {code : Code} {s : DepthSearch} {r : Run} {i d : Nat}

theorem Stands.move (stands : b.Stands code s r i d) {r' : Run} {j e : Nat}
    (same : SameCode r.activation r'.activation) (met : s.At j e)
    (starts : r'.activation.pc = b.offset j) : b.Stands code s r' j e :=
  ⟨met, starts, same.bytes.trans stands.bytes, same.handlers.trans stands.handlers⟩

theorem Finished.emitted (finished : b.Finished code s) (met : s.At i d) :
    ∃ instruction, b.emitted[i]? = some instruction := by
  obtain ⟨l, handlers, places, analysed, -, -⟩ := finished.handlers
  have inside := analysed.inside i d met
  rw [places.size_eq] at inside
  exact ⟨_, List.getElem?_eq_getElem inside⟩

theorem Finished.decodes (finished : b.Finished code s) (stands : b.Stands code s r i d)
    {instruction : Instruction} (here : b.emitted[i]? = some instruction) :
    ∃ distance, Item.Leads b.items.toList i instruction.operation distance ∧
      Operation.Holds r.activation.bytes r.activation.pc
        (instruction.operation.map distance).encode ∧
      Operation.decode r.activation.bytes r.activation.pc =
        .ok (instruction.operation.map fun label => some (distance label), b.offset (i + 1)) := by
  obtain ⟨distance, leads, holds⟩ := finished.holds i instruction here
  rw [← stands.bytes, ← stands.starts] at holds
  have next : b.offset (i + 1) = r.activation.pc + instruction.operation.size := by
    rw [stands.starts]
    exact Instruction.offset_succ here
  refine ⟨distance, leads, holds, ?_⟩
  rw [Operation.decode_encode holds, Operation.map_map, Operation.size_map, next]

theorem Finished.step (finished : b.Finished code s) (stands : b.Stands code s r i d)
    {instruction : Instruction} (here : b.emitted[i]? = some instruction) {flow : Flow} {r' : Run}
    (done : r.step = .ok flow r') :
    SameCode r.activation r'.activation ∧
      (flow = .next ∨ (∃ callee, flow = .call callee) →
        ∃ j, b.Follows i instruction.operation j ∧ s.At j (instruction.behind d) ∧
          r'.activation.pc = b.offset j) := by
  obtain ⟨distance, leads, -, read⟩ := finished.decodes stands here
  obtain ⟨l, handlers, places, analysed, -, -⟩ := finished.handlers
  have there : l.instructions[i]? = some instruction := by
    rw [places.getElem?]
    exact here
  -- Branches may fall through too, when they are not taken.
  have fall (falls : (instruction.operation.map fun label => some (distance label)).fallsThrough =
      true) (place : r'.activation.pc = b.offset (i + 1)) :
      ∃ j, b.Follows i instruction.operation j ∧ s.At j (instruction.behind d) ∧
        r'.activation.pc = b.offset j := by
    rw [Operation.fallsThrough_map] at falls
    exact ⟨i + 1, .fall falls, analysed.next stands.met there (.fall falls), place⟩
  cases branches : instruction.operation.target? with
  | none =>
    have straight :
        (instruction.operation.map fun label => some (distance label)).target? = none := by
      rw [Operation.target?_map, branches]
      rfl
    obtain ⟨same, place, suits⟩ := Run.step_straight read straight done
    refine ⟨same, ?_⟩
    intro onward
    rcases onward with rfl | ⟨callee, rfl⟩
    · exact fall suits place
    · exact fall suits place
  | some label =>
    have target : (instruction.operation.map fun label => some (distance label)).target? =
        some (some (distance label)) := by
      rw [Operation.target?_map, branches]
      rfl
    obtain ⟨-, same, place⟩ := Run.step_branch read target done
    refine ⟨same, ?_⟩
    intro _
    rcases place with goal | ⟨falls, place⟩
    · obtain ⟨j, marks, inside, meets⟩ := leads label branches
      have next : l.Next i instruction.operation j :=
        .jump branches (places.instructionAt.2 ⟨marks, inside⟩)
      have start : (r.activation.pc : Int) = b.offset i := congrArg Nat.cast stands.starts
      refine ⟨j, .jump branches marks, analysed.next stands.met there next, ?_⟩
      have goal' : (r'.activation.pc : Int) = b.offset j := by
        rw [← goal, start]
        exact meets
      exact Int.ofNat_inj.1 goal'
    · exact fall falls place

theorem Finished.readable (finished : b.Finished code s) (stands : b.Stands code s r i d)
    {instruction : Instruction} (here : b.emitted[i]? = some instruction) {e : MachineError}
    {r' : Run} (failed : r.step = .error e r') : e.ordinary = true := by
  obtain ⟨distance, leads, -, read⟩ := finished.decodes stands here
  cases branches : instruction.operation.target? with
  | none =>
    apply Run.step_straight_error read ?_ failed
    rw [Operation.target?_map, branches]
    rfl
  | some label =>
    obtain ⟨j, marks, inside, meets⟩ := leads label branches
    have target : (instruction.operation.map fun label => some (distance label)).target? =
        some (some (distance label)) := by
      rw [Operation.target?_map, branches]
      rfl
    have less := Instruction.offset_lt inside (Nat.le_refl _)
    have size : r.activation.bytes.size = b.offset b.emitted.length := by
      rw [stands.bytes, List.size_toArray, finished.length]
    apply Run.step_branch_error read target ?_ failed
    rw [stands.starts, size, meets]
    exact ⟨Int.natCast_nonneg _, Int.ofNat_lt.2 less⟩

theorem Finished.proceeds (finished : b.Finished code s) (stands : b.Stands code s r i d)
    {instruction : Instruction} (here : b.emitted[i]? = some instruction) {fuel : Nat} {r' : Run}
    (proceeds : Proceeds fuel r r') :
    ∃ j, b.Follows i instruction.operation j ∧ b.Stands code s r' j (instruction.behind d) := by
  cases proceeds with
  | next stepped =>
    obtain ⟨same, onward⟩ := finished.step stands here stepped
    obtain ⟨j, follows, met, place⟩ := onward (.inl rfl)
    exact ⟨j, follows, stands.move same met place⟩
  | called stepped ran answer =>
    obtain ⟨same, onward⟩ := finished.step stands here stepped
    obtain ⟨j, follows, met, place⟩ := onward (.inr ⟨_, rfl⟩)
    obtain ⟨same', place'⟩ : SamePlace _ _ :=
      ((Run.operates_answered _).keeps kept_samePlace.toKept).ok _ _ _ answer
    exact ⟨j, follows, stands.move (same.trans same') met (place'.trans place)⟩

theorem Finished.sameCode_throws (finished : b.Finished code s) (stands : b.Stands code s r i d)
    {fuel : Nat} {v : Value} {r₁ : Run} (threw : Throws fuel r v r₁) :
    SameCode r.activation r₁.activation := by
  obtain ⟨instruction, here⟩ := finished.emitted stands.met
  cases threw with
  | raised stepped => exact (finished.step stands here stepped).1
  | passed stepped ran => exact (finished.step stands here stepped).1

theorem Finished.catches (finished : b.Finished code s) (stands : b.Stands code s r i d)
    {fuel : Nat} {v : Value} {r₁ r' : Run} (threw : Throws fuel r v r₁)
    (caught : r₁.activation.catching r.activation.pc v r₁.machine =
      .ok r'.activation r'.machine) :
    ∃ (p : Protection) (j : Nat),
      p.FirstOf b.protections.toList b.items.toList i r.activation.owner r₁.machine.heap v ∧
        b.Marks p.handler j ∧ b.Stands code s r' j 1 ∧ r'.activation.depth = 1 := by
  obtain ⟨l, handlers, places, analysed, table, guards⟩ := finished.handlers
  have same := finished.sameCode_throws stands threw
  have inside := analysed.inside i d stands.met
  rw [places.size_eq] at inside
  obtain ⟨e, found, same', place, depth⟩ := Activation.catching_ok caught
  rw [same.handlers, stands.handlers, table, stands.starts] at found
  obtain ⟨p, j, first, guard, member⟩ := Activation.handlerAmong_some places guards inside found
  rw [same.owner] at first
  have met := analysed.handler j member
  have starts := place.trans guard.handler
  exact ⟨p, j, first, guard.marks, stands.move (same.trans same') met starts,
    depth.trans threw.slots⟩

theorem Finished.escapes (finished : b.Finished code s) (stands : b.Stands code s r i d)
    {fuel : Nat} {v u : Value} {r₁ : Run} {m : Machine} (threw : Throws fuel r v r₁)
    (escaped : r₁.activation.catching r.activation.pc v r₁.machine = .error (.thrown u) m) :
    u = v ∧ ∀ p ∈ b.protections.toList,
      ¬(p.Encloses b.items.toList i ∧ p.Matches r.activation.owner r₁.machine.heap v) := by
  obtain ⟨l, handlers, places, analysed, table, guards⟩ := finished.handlers
  have same := finished.sameCode_throws stands threw
  have inside := analysed.inside i d stands.met
  rw [places.size_eq] at inside
  rcases Activation.catching_error escaped with ⟨thrown, none⟩ | ordinary
  · cases thrown
    rw [same.handlers, stands.handlers, table, stands.starts] at none
    have missed := Activation.handlerAmong_none places guards inside none
    rw [same.owner] at missed
    exact ⟨rfl, missed⟩
  · cases ordinary

theorem Finished.executes (finished : b.Finished code s) (stands : b.Stands code s r i d) :
    ∃ instruction, b.Executes r i instruction := by
  obtain ⟨instruction, here⟩ := finished.emitted stands.met
  refine ⟨instruction, here, stands.starts, finished.decodes stands here, ?_, ?_, ?_, ?_⟩
  · intro e r' failed
    exact finished.readable stands here failed
  · intro fuel r' proceeds
    obtain ⟨j, follows, next⟩ := finished.proceeds stands here proceeds
    exact ⟨j, follows, next.starts⟩
  · intro fuel v r₁ r' threw caught
    obtain ⟨p, j, first, marks, next, -⟩ := finished.catches stands threw caught
    exact ⟨p, j, first, marks, next.starts⟩
  · intro fuel v u r₁ m threw escaped
    exact finished.escapes stands threw escaped

theorem Finished.turn (finished : b.Finished code s) (stands : b.Stands code s r i d) {fuel : Nat}
    {r' : Run} (turn : Turn fuel r r') : ∃ j e, b.Stands code s r' j e := by
  rcases turn with proceeds | ⟨v, r₁, threw, caught⟩
  · obtain ⟨instruction, here⟩ := finished.emitted stands.met
    obtain ⟨j, _, next⟩ := finished.proceeds stands here proceeds
    exact ⟨j, _, next⟩
  · obtain ⟨p, j, _, _, next, _⟩ := finished.catches stands threw caught
    exact ⟨j, 1, next⟩

theorem Finished.turns (finished : b.Finished code s) (stands : b.Stands code s r i d) {r' : Run}
    (turns : Turns r r') : ∃ j e, b.Stands code s r' j e := by
  induction turns with
  | refl => exact ⟨i, d, stands⟩
  | tail _ turn ih =>
    obtain ⟨fuel, turn⟩ := turn
    obtain ⟨j, e, before⟩ := ih
    exact finished.turn before turn

/-- The instruction at hand has moved as many slots as are recorded for it. -/
def Moves (b : Body) (r r' : Run) : Prop :=
  ∀ i instruction, b.emitted[i]? = some instruction → r.activation.pc = b.offset i →
    r'.activation.depth + instruction.pops = r.activation.depth + instruction.pushes

/-- Turns in which every instruction that comes to its end moves what is recorded for it. -/
def FaithfulTurns (b : Body) : Run → Run → Prop :=
  Relation.ReflTransGen fun r r' =>
    ∃ fuel, Proceeds fuel r r' ∧ b.Moves r r' ∨ ∃ v, Catches fuel r v r'

theorem FaithfulTurns.turns {r' : Run} (faithful : b.FaithfulTurns r r') : Turns r r' := by
  induction faithful with
  | refl => exact .refl
  | tail _ turn ih =>
    obtain ⟨fuel, turn⟩ := turn
    rcases turn with ⟨proceeds, _⟩ | caught
    · exact ih.tail ⟨fuel, .inl proceeds⟩
    · exact ih.tail ⟨fuel, .inr caught⟩

theorem Finished.faithful (finished : b.Finished code s) (stands : b.Stands code s r i d)
    (depth : r.activation.depth = d) {r' : Run} (turns : b.FaithfulTurns r r') :
    ∃ j e, b.Stands code s r' j e ∧ r'.activation.depth = e := by
  induction turns with
  | refl => exact ⟨i, d, stands, depth⟩
  | tail _ turn ih =>
    obtain ⟨j, e, before, same⟩ := ih
    obtain ⟨fuel, turn⟩ := turn
    rcases turn with ⟨proceeds, moves⟩ | ⟨v, r₁, threw, caught⟩
    · obtain ⟨instruction, here⟩ := finished.emitted before.met
      obtain ⟨k, _, next⟩ := finished.proceeds before here proceeds
      obtain ⟨l, handlers, places, analysed, -, -⟩ := finished.handlers
      have enough := analysed.pops_le before.met (by rw [places.getElem?]; exact here)
      have moved := moves j instruction here before.starts
      refine ⟨k, _, next, ?_⟩
      rw [Instruction.behind]
      omega
    · obtain ⟨p, k, _, _, next, one⟩ := finished.catches before threw caught
      exact ⟨k, 1, next, one⟩

theorem Finished.enters (finished : b.Finished code s) {owner : LoadedClass} {name : String}
    {args : List Value} {a : Activation} {m : Machine}
    (entered : Activation.ofCode owner name code args = .ok a) :
    b.Stands code s ⟨a, m⟩ 0 0 ∧ a.depth = 0 := by
  obtain ⟨l, handlers, places, analysed, -, -⟩ := finished.handlers
  rw [Activation.ofCode] at entered
  split at entered
  · cases entered
  · cases entered
    exact ⟨⟨analysed.first, (Instruction.offset_zero _).symm, rfl, rfl⟩, rfl⟩

/-- Every run of finished code executes what was emitted, at places that the search has reached.
As long as instructions move what is recorded for them, the depths are those that were found. The
code itself is never the reason why a run ends with code that cannot be read. -/
theorem finish_executes (done : b.finish = .ok code) :
    ∃ s, b.analysis = .ok s ∧ ∀ owner name args a m,
      Activation.ofCode owner name code args = .ok a →
      (∀ r, Turns ⟨a, m⟩ r → ∃ i d instruction, s.At i d ∧ b.Executes r i instruction) ∧
      (∀ r, b.FaithfulTurns ⟨a, m⟩ r → ∃ i d, s.At i d ∧ r.activation.pc = b.offset i ∧
        r.activation.depth = d ∧ d ≤ code.maxStack.toNat) ∧
      ∀ fuel v m', a.exec fuel m = .error (.verify v) m' → v.misread = true →
        ∃ r r₁ callee fuel', Turns ⟨a, m⟩ r ∧ r.step = .ok (.call callee) r₁ ∧
          callee.exec fuel' r₁.machine = .error (.verify v) m' := by
  obtain ⟨s, found, finished⟩ := finished_of_eq_ok done
  refine ⟨s, found, ?_⟩
  intro owner name args a m entered
  obtain ⟨l, handlers, places, analysed, -, -⟩ := finished.handlers
  have start := finished.enters entered (m := m)
  refine ⟨?_, ?_, ?_⟩
  · intro r turns
    obtain ⟨i, d, stands⟩ := finished.turns start.1 turns
    obtain ⟨instruction, executes⟩ := finished.executes stands
    exact ⟨i, d, instruction, stands.met, executes⟩
  · intro r turns
    obtain ⟨i, d, stands, depth⟩ := finished.faithful start.1 start.2 turns
    have below := analysed.below i d stands.met
    exact ⟨i, d, stands.met, stands.starts, depth, Nat.le_trans below finished.enough⟩
  · intro fuel v m' failed misread
    obtain ⟨r, fuel', turns, ends⟩ := Run.exec_turns fuel a m
    -- Whatever this code fails with is ordinary, so that the error comes out of a call.
    have strange : (MachineError.verify v).ordinary = false := by
      rw [MachineError.ordinary, misread]
      rfl
    rw [failed] at ends
    obtain ⟨i, d, stands⟩ := finished.turns start.1 turns
    obtain ⟨instruction, here⟩ := finished.emitted stands.met
    cases ends with
    | failed stepped =>
      rw [finished.readable stands here stepped] at strange
      cases strange
    | uncaught threw escaped =>
      rcases Activation.catching_error escaped with ⟨thrown, _⟩ | ordinary
      · cases thrown
      · rw [ordinary] at strange
        cases strange
    | calleeFailed stepped ran _ => exact ⟨r, _, _, fuel', turns, stepped, ran⟩
    | unanswered stepped ran answer =>
      rw [((Run.operates_answered _).keeps kept_samePlace.toKept).error _ _ _ answer] at strange
      cases strange

/-- Takes an exception, throws it and catches it. -/
def rescue : Body where
  pool := {}
  cache := {}
  descriptor := ⟨[.object objectClass], none⟩
  isStatic := true
  items := #[.place ⟨0⟩, .instruction ⟨.load .reference 0, 0, 1⟩, .instruction ⟨.raise, 1, 0⟩,
    .place ⟨1⟩, .instruction ⟨.pop, 1, 0⟩, .instruction ⟨.leave none, 0, 0⟩]
  protections := #[⟨⟨0⟩, ⟨1⟩, ⟨1⟩, 0⟩]
  maxLocals := 1

def rescueCode : Code where
  maxStack := 1
  maxLocals := 1
  bytes := [0x2a, 0xbf, 0x57, 0xb1]
  handlers := [⟨0, 2, 2, 0⟩]
  attributes := []

def rescuing (pc : Nat) (stack : List Value) : Activation where
  owner := .root
  bytes := rescueCode.bytes.toArray
  handlers := rescueCode.handlers
  maxStack := 1
  pc := pc
  locals := #[some (.reference ⟨0⟩)]
  stack := stack
  depth := stack.length

theorem moves_rescue : rescue.Moves ⟨rescuing 0 [], {}⟩ ⟨rescuing 1 [.reference ⟨0⟩], {}⟩ := by
  intro i instruction here starts
  rcases i with _ | _ | _ | _ | i
  · cases here
    rfl
  · cases starts
  · cases starts
  · cases starts
  · cases here

theorem finish_executes_rescue : rescue.finish = .ok rescueCode ∧
    Activation.ofCode .root "rescue" rescueCode [.reference ⟨0⟩] = .ok (rescuing 0 []) ∧
    ∃ s r, rescue.analysis = .ok s ∧ rescue.FaithfulTurns ⟨rescuing 0 [], {}⟩ r ∧
      r.activation.pc = 2 ∧ (∃ i instruction, rescue.Executes r i instruction) ∧
      ∃ i d, s.At i d ∧ r.activation.depth = d ∧ d ≤ rescueCode.maxStack.toNat := by
  have done : rescue.finish = .ok rescueCode := by rfl
  have entered : Activation.ofCode .root "rescue" rescueCode [.reference ⟨0⟩] =
      .ok (rescuing 0 []) := by rfl
  obtain ⟨s, found, runs⟩ := finish_executes done
  obtain ⟨executes, depths, -⟩ := runs .root "rescue" [.reference ⟨0⟩] (rescuing 0 []) {} entered
  have load : Run.step ⟨rescuing 0 [], {}⟩ = .ok .next ⟨rescuing 1 [.reference ⟨0⟩], {}⟩ := by rfl
  have raise : Run.step ⟨rescuing 1 [.reference ⟨0⟩], {}⟩ =
      .ok (.raise (.reference ⟨0⟩)) ⟨rescuing 2 [], {}⟩ := by rfl
  have caught : ∃ r : Run, (rescuing 2 []).catching 1 (.reference ⟨0⟩) {} =
      .ok r.activation r.machine ∧ r.activation.pc = 2 := ⟨⟨_, _⟩, rfl, rfl⟩
  obtain ⟨r, caught, place⟩ := caught
  have first : rescue.FaithfulTurns ⟨rescuing 0 [], {}⟩ ⟨rescuing 1 [.reference ⟨0⟩], {}⟩ :=
    .single ⟨0, .inl ⟨.next load, moves_rescue⟩⟩
  have turns : rescue.FaithfulTurns ⟨rescuing 0 [], {}⟩ r :=
    first.tail ⟨0, .inr ⟨_, _, .raised raise, caught⟩⟩
  obtain ⟨i, d, instruction, met, here⟩ := executes r turns.turns
  obtain ⟨j, e, met', _, depth, below⟩ := depths r turns
  exact ⟨done, entered, s, r, found, turns, place, ⟨i, instruction, here⟩, j, e, met', depth, below⟩

end Body

/-- What the method runs next is an instruction that a step left. Where it goes on, it goes on at
the next instruction, or at the one that was next when the label was placed. -/
def Assembly.Executes (c : Assembly) (h : History) (r : Run) : Prop :=
  ∃ (before : History) (step : Step) (new : List Record) (after : History) (k : Nat)
    (instruction : Instruction), h = before ++ (step, new) :: after ∧
      (Item.emitted (Record.items new))[k]? = some instruction ∧
      c.body.Executes r (before.emitted.length + k) instruction ∧
      ∀ fuel r', Run.Proceeds fuel r r' →
        (instruction.operation.fallsThrough = true ∧
          r'.activation.pc = c.body.offset (before.emitted.length + k + 1)) ∨
        ∃ (label : Label) (earlier : History) (name : String) (later : History),
          instruction.operation.target? = some label ∧
          h = earlier ++ (.place name, [.item (.place label)]) :: later ∧
          r'.activation.pc = c.body.offset earlier.emitted.length

theorem Assembly.Performs.executes {a c : Assembly} {h : History} (ran : Performs a h c)
    (fresh : a.body.items = #[]) {code : Code} (done : c.body.finish = .ok code)
    {owner : LoadedClass} {name : String} {args : List Value} {f : Activation} {m : Machine}
    (entered : Activation.ofCode owner name code args = .ok f) {r : Run}
    (turns : Run.Turns ⟨f, m⟩ r) : c.Executes h r := by
  obtain ⟨s, -, finished⟩ := Body.finished_of_eq_ok done
  obtain ⟨i, d, stands⟩ := finished.turns (finished.enters entered).1 turns
  obtain ⟨instruction, executes⟩ := finished.executes stands
  have items := ran.gains.items
  rw [fresh] at items
  have here : h.emitted[i]? = some instruction := by
    have emitted := executes.emitted
    rwa [Body.emitted, items] at emitted
  obtain ⟨before, step, new, after, k, whole, rfl, left⟩ := History.exists_of_emitted here
  refine ⟨before, step, new, after, k, instruction, whole, left, executes, ?_⟩
  intro fuel r' proceeds
  obtain ⟨j, follows, place⟩ := executes.proceeds fuel r' proceeds
  cases follows with
  | fall falls => exact .inl ⟨falls, place⟩
  | @jump label j branches marks =>
    obtain ⟨earlier, name, later, whole', rfl⟩ := ran.exists_place fresh marks
    exact .inr ⟨label, earlier, name, later, branches, whole', place⟩

theorem Listing.exists_executes (steps : Listing) {b : Body} (fresh : b.items = #[]) {code : Code}
    (done : (steps.run b).2.1.finish = .ok code) :
    ∃ h c, steps.Unrolls b h c ∧ ∀ owner name args f m r,
      Activation.ofCode owner name code args = .ok f → Run.Turns ⟨f, m⟩ r → c.Executes h r := by
  obtain ⟨h, c, unrolls⟩ := steps.exists_unrolls b
  rw [unrolls.body] at done
  refine ⟨h, c, unrolls, ?_⟩
  intro owner name args f m r entered turns
  exact unrolls.performs.executes fresh done entered turns

end ClassForge
