import ClassForge.Proofs.Code.Emission

namespace ClassForge

open Outcome

namespace Operation

variable {τ σ : Type}

def isWide : Operation τ → Bool
  | load _ s | store _ s => 255 < s.toNat
  | increment s d => 255 < s.toNat || d.toInt < -128 || 127 < d.toInt
  | _ => false

def lead (o : Operation τ) : List UInt8 := if o.isWide then [widePrefix, o.opcode] else [o.opcode]

theorem lead_map (f : τ → σ) (o : Operation τ) : (o.map f).lead = o.lead := by
  cases o <;> rfl

theorem opcode_map (f : τ → σ) (o : Operation τ) : (o.map f).opcode = o.opcode := by
  cases o <;> rfl

theorem not_fitsByte (s : UInt16) : (!fitsByte s) = decide (255 < s.toNat) := by
  rw [fitsByte, ← decide_not, decide_eq_decide]
  omega

theorem not_fitsSignedByte (d : Int16) :
    (!fitsSignedByte d) = (decide (d.toInt < -128) || decide (127 < d.toInt)) := by
  rw [fitsSignedByte, Bool.not_and, ← decide_not, ← decide_not]
  simp only [Int.not_le]

theorem isWide_increment (s : UInt16) (d : Int16) :
    (increment s d : Operation τ).isWide = !(fitsByte s && fitsSignedByte d) := by
  rw [Bool.not_and, not_fitsByte, not_fitsSignedByte, isWide, Bool.or_assoc]

theorem lead_encodeSlot (op : UInt8) (s : UInt16) :
    (if !fitsByte s then [widePrefix, op] else [op]) <+: encodeSlot op s := by
  rw [encodeSlot]
  by_cases near : s.toNat ≤ 3
  · have fits : fitsByte s = true := decide_eq_true (by omega)
    rw [if_pos near, fits]
    exact List.prefix_refl _
  · rw [if_neg near]
    cases fitsByte s with
    | true => exact List.prefix_append [op] _
    | false => exact List.prefix_append [widePrefix, op] _

/-- Whether the wide form is due is decided as it was when bytes were counted. -/
theorem lead_encode (o : Operation Int16) : o.lead <+: o.encode := by
  cases o with
  | load k s | store k s =>
    rw [lead, isWide, ← not_fitsByte]
    exact lead_encodeSlot _ s
  | increment s d =>
    rw [lead, isWide_increment, encode]
    cases fitsByte s && fitsSignedByte d with
    | true => exact List.prefix_append [_] _
    | false => exact List.prefix_append [_, _] _
  | pushInt v =>
    simp only [encode]
    split
    · exact List.prefix_refl _
    · split <;> exact List.prefix_append [_] _
  | loadConstant i =>
    simp only [encode]
    split <;> exact List.prefix_append [_] _
  | _ => exact List.prefix_append [_] _

theorem encode_of_target {o : Operation Int16} {d : Int16} (branches : o.target? = some d) :
    ∃ high low, o.encode = [o.opcode, high, low] ∧ (Bytes.toU16 high low).toInt16 = d := by
  have whole : (Bytes.toU16 (UInt8.ofNat (d.toUInt16.toNat / 256))
      (UInt8.ofNat d.toUInt16.toNat)).toInt16 = d := by
    rw [Bytes.toU16_ofU16]
    rfl
  cases o with
  | branch c t | goto t =>
    cases branches
    exact ⟨_, _, rfl, whole⟩
  | _ => cases branches

theorem extract_of_holds {code bytes : List UInt8} {pc : Nat}
    (here : Holds code.toArray pc bytes) : code.extract pc (pc + bytes.length) = bytes := by
  rw [List.extract_eq_take_drop, Nat.add_sub_cancel_left]
  induction bytes generalizing pc with
  | nil => rfl
  | cons b rest ih =>
    obtain ⟨first, others⟩ := here
    rw [List.getElem?_toArray] at first
    obtain ⟨inside, same⟩ := List.getElem?_eq_some_iff.1 first
    rw [List.drop_eq_getElem_cons inside, same, List.length_cons, List.take_succ_cons, ih others]

end Operation

namespace Layout

open Item (emitted Marks)

variable {l : Layout} {items : List Item} {code : List UInt8}

def segment (l : Layout) (code : List UInt8) (i : Nat) : List UInt8 :=
  code.extract (l.offset i) (l.offset (i + 1))

/-- The instruction at position `i` takes the bytes between its offsets, no more and no fewer. -/
structure Fills (l : Layout) (items : List Item) (code : List UInt8) (i : Nat)
    (o : Operation Label) : Prop where
  encoded : ∃ resolved, l.resolve i o = .ok resolved ∧ l.segment code i = resolved.encode ∧
    Operation.decode code.toArray (l.offset i) = .ok (resolved.map some, l.offset (i + 1))
  length : l.offset i + (l.segment code i).length = l.offset (i + 1)
  lead : o.lead <+: l.segment code i
  distance : ∀ label, o.target? = some label → ∃ j high low,
    Marks items label j ∧ j < l.size ∧ l.segment code i = [o.opcode, high, low] ∧
    l.offset i + (Bytes.toU16 high low).toInt16.toInt = l.offset j

/-- The code holds the instructions of a layout, each at its offset. -/
structure Tiled (l : Layout) (items : List Item) (code : List UInt8) : Prop where
  size : l.size = (emitted items).length
  first : l.offset 0 = 0
  length : code.length = l.offset l.size
  nonempty : 1 ≤ code.length
  short : code.length ≤ 65535
  fills : ∀ i instruction, (emitted items)[i]? = some instruction →
    l.Fills items code i instruction.operation

/-- Why there is no distance from the instruction at position `i` to a label. -/
inductive NoDistance (l : Layout) (items : List Item) (i : Nat) (label : Label) : Error → Prop where
  | unplaced (nowhere : ∀ j, ¬Marks items label j) :
    NoDistance l items i label (.invalidBranchTarget label.id .neverPlaced)
  | trailing (last : Marks items label l.size) :
    NoDistance l items i label (.invalidBranchTarget label.id .placedLast)
  | far {j : Nat} {d : Int} (marks : Marks items label j) (inside : j < l.size)
    (distance : l.offset i + d = l.offset j) (outside : d < -32768 ∨ 32767 < d) :
    NoDistance l items i label (.encoding (.longBranch label.id d))

/-- The instruction at position `i` is a branch without a distance, and the error says why. -/
def Obstructs (l : Layout) (items : List Item) (i : Nat) (e : Error) : Prop :=
  ∃ instruction label, (emitted items)[i]? = some instruction ∧
    instruction.operation.target? = some label ∧ l.NoDistance items i label e

theorem Places.instructionAt_eq_error (places : l.Places items) {label : Label} {e : Error} :
    l.instructionAt label = .error e ↔
      (∀ j, ¬Marks items label j) ∧ e = .invalidBranchTarget label.id .neverPlaced ∨
      Marks items label l.size ∧ e = .invalidBranchTarget label.id .placedLast := by
  rw [Layout.instructionAt]
  simp only [← places.labels]
  cases h : l.labels[label.id]? with
  | none => simp [eq_comm]
  | some k =>
    have marks := (places.labels label k).1 h
    have le := marks.le
    rw [← places.size_eq] at le
    dsimp only
    split
    · have last : k = l.size := by omega
      simp [last, eq_comm]
    · have before : k ≠ l.size := by omega
      simp [before]

theorem Places.distance_eq_error (places : l.Places items) {i : Nat} {label : Label} {e : Error} :
    l.distance i label = .error e ↔ l.NoDistance items i label e := by
  rw [Layout.distance, bind_eq_error, places.instructionAt_eq_error]
  constructor
  · intro failed
    rcases failed with (⟨nowhere, rfl⟩ | ⟨last, rfl⟩) | ⟨j, found, failed⟩
    · exact .unplaced nowhere
    · exact .trailing last
    · obtain ⟨marks, inside⟩ := places.instructionAt.1 found
      rw [← places.size_eq] at inside
      dsimp only at failed
      split at failed
      · rename_i outside
        cases failed
        exact .far marks inside (by omega) outside
      · cases failed
  · intro none
    cases none with
    | unplaced nowhere => exact .inl (.inl ⟨nowhere, rfl⟩)
    | trailing last => exact .inl (.inr ⟨last, rfl⟩)
    | @far j d marks inside distance outside =>
      rw [places.size_eq] at inside
      refine .inr ⟨j, places.instructionAt.2 ⟨marks, inside⟩, ?_⟩
      have same : (l.offset j : Int) - l.offset i = d := by omega
      dsimp only
      rw [same, if_pos outside]
      rfl

theorem Places.resolve_eq_error (places : l.Places items) {i : Nat} {o : Operation Label}
    {e : Error} : l.resolve i o = .error e ↔
      ∃ label, o.target? = some label ∧ l.NoDistance items i label e := by
  cases o with
  | branch c t | goto t =>
    rw [Layout.resolve, bind_eq_error, places.distance_eq_error]
    constructor
    · intro failed
      rcases failed with none | ⟨d, -, made⟩
      · exact ⟨t, rfl, none⟩
      · cases made
    · intro obstructed
      obtain ⟨label, branches, none⟩ := obstructed
      cases branches
      exact .inl none
  | _ =>
    constructor
    · intro failed
      cases failed
    · intro obstructed
      obtain ⟨label, branches, -⟩ := obstructed
      cases branches

theorem Places.part_eq_error (places : l.Places items) {i : Nat} {e : Error} :
    ((emitted items).zipIdx.map l.part)[i]? = some (.error e) ↔ l.Obstructs items i e := by
  rw [List.getElem?_map, List.getElem?_zipIdx, Nat.zero_add, Obstructs]
  cases (emitted items)[i]? with
  | none => simp
  | some instruction => simp [part, bind_eq_error, pure, Except.pure, places.resolve_eq_error]

/-- The first branch without a distance tells the error. -/
theorem Places.encode_eq_error (places : l.Places items) {e : Error} : l.encode = .error e ↔
    ∃ i, l.Obstructs items i e ∧ ∀ j < i, ∀ e', ¬l.Obstructs items j e' := by
  rw [encode_eq, bind_eq_error, places.instructions, mapM_eq_error]
  simp only [places.part_eq_error, ne_eq]
  constructor
  · intro either
    rcases either with failed | ⟨_, -, made⟩
    · exact failed
    · cases made
  · exact .inl

theorem Places.fills (places : l.Places items) (done : l.encode = .ok code) {i : Nat}
    {instruction : Instruction} (here : (emitted items)[i]? = some instruction) :
    l.Fills items code i instruction.operation := by
  have inside := (List.getElem?_eq_some_iff.1 here).1
  have size := places.size_eq
  obtain ⟨resolved, found, stands⟩ := (places.encode done).2 i instruction here
  have start := places.offset i (by omega)
  have counted := places.length_encode inside found
  have stop : l.offset (i + 1) = l.offset i + resolved.encode.length := by
    rw [places.offset (i + 1) (by omega), Instruction.offset_succ here, start, counted]
  rw [← start] at stands
  have bytes : l.segment code i = resolved.encode := by
    rw [segment, stop]
    exact Operation.extract_of_holds stands
  have read := Operation.decode_encode stands
  rw [← Operation.length_encode, ← stop] at read
  obtain ⟨distance, rfl, leads⟩ := places.resolve inside found
  refine ⟨⟨_, found, bytes, read⟩, ?_, ?_, ?_⟩
  · rw [bytes, stop]
  · rw [bytes, ← Operation.lead_map distance]
    exact Operation.lead_encode _
  · intro label branches
    obtain ⟨j, marks, before, reaches⟩ := leads label branches
    have target : (instruction.operation.map distance).target? = some (distance label) := by
      rw [Operation.target?_map, branches]
      rfl
    obtain ⟨high, low, three, whole⟩ := Operation.encode_of_target target
    rw [Operation.opcode_map] at three
    refine ⟨j, high, low, marks, by omega, bytes.trans three, ?_⟩
    rw [whole, start, places.offset j (by omega)]
    exact reaches

theorem tiled_of_eq_ok (laid : ofItems items = .ok l) (done : l.encode = .ok code) :
    l.Tiled items code := by
  obtain ⟨places, some, short⟩ := places_ofItems laid
  have size := places.size_eq
  have first : l.offset 0 = 0 := by
    rw [places.offset 0 (Nat.zero_le _), Instruction.offset_zero]
  have length : code.length = l.offset l.size := by
    rw [(places.encode done).1, places.offset l.size (Nat.le_refl _), size]
  have grows : l.offset 0 < l.offset l.size := places.offset_lt some (Nat.le_refl _)
  rw [Layout.length] at short
  exact ⟨size, first, length, by omega, by omega, fun i instruction => places.fills done⟩

/-- Code is encoded at the offsets of its layout, byte for byte, whether or not control gets there.
It is refused only for a branch whose label is nowhere, behind the last instruction or too far away,
and the first such branch tells the error. -/
theorem encode_tiles (laid : ofItems items = .ok l) :
    (∀ code, l.encode = .ok code → l.Tiled items code) ∧
    ∀ e, l.encode = .error e ↔
      ∃ i, l.Obstructs items i e ∧ ∀ j < i, ∀ e', ¬l.Obstructs items j e' := by
  constructor
  · intro code done
    exact tiled_of_eq_ok laid done
  · intro e
    exact (places_ofItems laid).1.encode_eq_error

/-- Wide forms, a branch over an instruction that control never gets to, and a branch back. -/
def winding : List Item :=
  [.place ⟨0⟩, .instruction ⟨.load .int 300, 0, 1⟩, .line 7, .instruction ⟨.increment 2 200, 0, 0⟩,
    .instruction ⟨.branch (.zero .eq) ⟨1⟩, 1, 0⟩, .instruction ⟨.goto ⟨0⟩, 0, 0⟩,
    .instruction ⟨.nop, 0, 0⟩, .place ⟨1⟩, .instruction ⟨.leave none, 0, 0⟩]

def windingCode : List UInt8 :=
  [0xc4, 0x15, 1, 44, 0xc4, 0x84, 0, 2, 0, 200, 0x99, 0, 7, 0xa7, 0xff, 0xf3, 0, 0xb1]

/-- Branches to what is behind the last instruction. -/
def straying : List Item := [.instruction ⟨.goto ⟨0⟩, 0, 0⟩, .place ⟨0⟩]

theorem encode_tiles_winding :
    (∃ l, ofItems winding = .ok l ∧ l.encode = .ok windingCode ∧ l.Tiled winding windingCode) ∧
    ∃ l, ofItems straying = .ok l ∧ l.encode = .error (.invalidBranchTarget 0 .placedLast) ∧
      ∃ i, l.Obstructs straying i (.invalidBranchTarget 0 .placedLast) := by
  constructor
  · obtain ⟨l, laid, done⟩ : ∃ l, ofItems winding = .ok l ∧ l.encode = .ok windingCode :=
      ⟨_, rfl, rfl⟩
    exact ⟨l, laid, done, (encode_tiles laid).1 windingCode done⟩
  · obtain ⟨l, laid, failed⟩ : ∃ l, ofItems straying = .ok l ∧
        l.encode = .error (.invalidBranchTarget 0 .placedLast) := ⟨_, rfl, rfl⟩
    obtain ⟨i, obstructs, -⟩ := ((encode_tiles laid).2 _).1 failed
    exact ⟨l, laid, failed, i, obstructs⟩

end Layout
end ClassForge
