import ClassForge.Proofs.Code.Emission

namespace ClassForge

/-- The places where instructions start, each behind the one before it. -/
inductive Code.Starts (code : Code) : Nat → Prop where
  | first : code.Starts 0
  | next {pc next : Nat} {o : Operation (Option Int16)} (here : code.Starts pc)
    (read : Operation.decode code.bytes.toArray pc = .ok (o, next)) : code.Starts next

structure Code.Frameless (code : Code) : Prop where
  handlers : code.handlers = []
  straight : ∀ pc o next, code.Starts pc →
    Operation.decode code.bytes.toArray pc = .ok (o, next) → o.target? = none

theorem Operation.map_eq_of_straight {τ σ : Type} {o : Operation τ} (straight : o.target? = none)
    (f g : τ → σ) : o.map f = o.map g := by
  cases o with
  | branch c t | goto t => cases straight
  | _ => rfl

/-- The instructions from a place to the end of the code, each read behind the one before it. -/
inductive Operation.Sweeps (bytes : Array UInt8) : Nat → List (Operation (Option Int16)) → Prop where
  | done : Sweeps bytes bytes.size []
  | next {pc next : Nat} {o : Operation (Option Int16)} {os : List (Operation (Option Int16))}
    (read : decode bytes pc = .ok (o, next)) (rest : Sweeps bytes next os) :
    Sweeps bytes pc (o :: os)

theorem Operation.decode_past {code : Array UInt8} {pc : Nat} (past : code.size ≤ pc) :
    decode code pc = .error (.truncated pc) := by
  rw [decode, byteAt, Array.getElem?_eq_none past]
  rfl

namespace Body

variable {b : Body} {code : Code}

theorem target?_of_needsStackMap (plain : b.needsStackMap = false) {i : Nat}
    {instruction : Instruction} (here : b.emitted[i]? = some instruction) :
    instruction.operation.target? = none := by
  obtain ⟨item, inside, emits⟩ := List.mem_filterMap.1 (List.mem_of_getElem? here)
  cases item with
  | place label | line n => cases emits
  | instruction own =>
    cases emits
    simp only [needsStackMap, Bool.or_eq_false_iff, ← Array.any_toList, List.any_eq_false] at plain
    simpa using plain.2 _ inside

theorem Finished.exists_of_decode {s : DepthSearch} (finished : b.Finished code s) {i next : Nat}
    {o : Operation (Option Int16)} (inside : i ≤ b.emitted.length)
    (read : Operation.decode code.bytes.toArray (b.offset i) = .ok (o, next)) :
    ∃ (instruction : Instruction) (distance : Label → Int16), b.emitted[i]? = some instruction ∧
      o = instruction.operation.map (fun label => some (distance label)) ∧
      next = b.offset (i + 1) := by
  rcases Nat.lt_or_eq_of_le inside with before | rfl
  · have here := List.getElem?_eq_getElem before
    obtain ⟨distance, -, holds⟩ := finished.holds i _ here
    rw [Operation.decode_encode holds] at read
    cases read
    refine ⟨_, distance, here, Operation.map_map .., ?_⟩
    rw [Operation.size_map]
    exact (Instruction.offset_succ here).symm
  · have past : code.bytes.toArray.size ≤ b.offset b.emitted.length :=
      Nat.le_of_eq (List.size_toArray.trans finished.length)
    rw [Operation.decode_past past] at read
    cases read

theorem Finished.exists_offset {s : DepthSearch} (finished : b.Finished code s) {pc : Nat}
    (start : code.Starts pc) : ∃ i ≤ b.emitted.length, pc = b.offset i := by
  induction start with
  | first => exact ⟨0, Nat.zero_le _, (Instruction.offset_zero _).symm⟩
  | next here read ih =>
    obtain ⟨i, inside, rfl⟩ := ih
    obtain ⟨_, _, here, -, rfl⟩ := finished.exists_of_decode inside read
    exact ⟨i + 1, (List.getElem?_eq_some_iff.1 here).1, rfl⟩

theorem frameless_of_finish (done : b.finish = .ok code) (plain : b.needsStackMap = false) :
    code.Frameless := by
  obtain ⟨s, -, finished⟩ := finished_of_eq_ok done
  constructor
  · have none : b.protections.toList = [] := by
      simp only [needsStackMap, Bool.or_eq_false_iff] at plain
      simpa using plain.1
    obtain ⟨l, handlers, -, -, same, guards⟩ := finished.handlers
    rw [none] at guards
    cases guards
    exact same
  · intro pc o next start read
    obtain ⟨i, inside, rfl⟩ := finished.exists_offset start
    obtain ⟨instruction, distance, here, rfl, -⟩ := finished.exists_of_decode inside read
    rw [Operation.target?_map, target?_of_needsStackMap plain here]
    rfl

theorem Finished.decode_straight {s : DepthSearch} (finished : b.Finished code s) {i : Nat}
    {instruction : Instruction} (here : b.emitted[i]? = some instruction)
    (straight : instruction.operation.target? = none) :
    Operation.decode code.bytes.toArray (b.offset i) =
      .ok (instruction.operation.map (fun _ => none), b.offset (i + 1)) := by
  obtain ⟨distance, -, holds⟩ := finished.holds i instruction here
  rw [Operation.decode_encode holds, Operation.map_map, Operation.size_map]
  have next : b.offset (i + 1) = b.offset i + instruction.operation.size :=
    Instruction.offset_succ here
  rw [next, Operation.map_eq_of_straight straight]

theorem Finished.sweeps {s : DepthSearch} (finished : b.Finished code s)
    (straight : ∀ i ∈ b.emitted, i.operation.target? = none) :
    Operation.Sweeps code.bytes.toArray 0 (b.emitted.map fun i => i.operation.map fun _ => none) := by
  have from_ (n i : Nat) (rest : i + n = b.emitted.length) :
      Operation.Sweeps code.bytes.toArray (b.offset i)
        ((b.emitted.drop i).map fun i => i.operation.map fun _ => none) := by
    induction n generalizing i with
    | zero =>
      have size : b.offset i = code.bytes.toArray.size := by
        rw [List.size_toArray, finished.length, ← rest, Nat.add_zero]
      rw [List.drop_eq_nil_of_le (by omega), size]
      exact .done
    | succ n ih =>
      have inside : i < b.emitted.length := by omega
      rw [List.drop_eq_getElem_cons inside, List.map_cons]
      exact .next (finished.decode_straight (List.getElem?_eq_getElem inside)
        (straight _ (List.getElem_mem inside))) (ih (i + 1) (by omega))
  have whole := from_ b.emitted.length 0 (Nat.zero_add _)
  rwa [List.drop_zero, Body.offset, Instruction.offset_zero] at whole

end Body
end ClassForge
