import ClassForge.Proofs.Code.Placing
import ClassForge.Proofs.Code.StackDepth

namespace ClassForge

theorem Operation.map_map {τ σ ρ : Type} (f : τ → σ) (g : σ → ρ) (o : Operation τ) :
    (o.map f).map g = o.map fun t => g (f t) := by
  cases o <;> rfl

theorem Operation.target?_map {τ σ : Type} (f : τ → σ) (o : Operation τ) :
    (o.map f).target? = o.target?.map f := by
  cases o <;> rfl

theorem Operation.fallsThrough_map {τ σ : Type} (f : τ → σ) (o : Operation τ) :
    (o.map f).fallsThrough = o.fallsThrough := by
  cases o <;> rfl

namespace Item

def Leads (items : List Item) (i : Nat) (o : Operation Label) (distance : Label → Int16) : Prop :=
  ∀ label, o.target? = some label → ∃ j, Marks items label j ∧ j < (emitted items).length ∧
    (Instruction.offset (emitted items) i : Int) + (distance label).toInt =
      Instruction.offset (emitted items) j

end Item

def Protection.Encloses (p : Protection) (items : List Item) (i : Nat) : Prop :=
  ∃ first last, Item.Marks items p.start first ∧ Item.Marks items p.stop last ∧ first ≤ i ∧ i < last

namespace Layout

open Item (emitted Marks Leads)
open Outcome

variable {l : Layout} {items : List Item}

theorem Places.size_eq (places : l.Places items) : l.size = (emitted items).length := by
  rw [size, ← Array.length_toList, places.instructions]

theorem Places.offset_lt (places : l.Places items) {i j : Nat} (before : i < j)
    (inside : j ≤ l.size) : l.offset i < l.offset j := by
  rw [places.offset i (by omega), places.offset j inside]
  rw [places.size_eq] at inside
  exact Instruction.offset_lt before inside

theorem Places.getElem? (places : l.Places items) (i : Nat) :
    l.instructions[i]? = (emitted items)[i]? := by
  rw [← Array.getElem?_toList, places.instructions]

theorem Places.instructionAt (places : l.Places items) {label : Label} {j : Nat} :
    l.instructionAt label = .ok j ↔ Marks items label j ∧ j < (emitted items).length := by
  rw [Layout.instructionAt, ← places.labels, places.size_eq]
  cases h : l.labels[label.id]? with
  | none => simp
  | some k =>
    simp only
    split <;> simp <;> omega

theorem Places.offsetOf (places : l.Places items) {label : Label} {n : Nat} :
    l.offsetOf label = .ok n ↔
      ∃ i, Marks items label i ∧ n = Instruction.offset (emitted items) i := by
  rw [Layout.offsetOf]
  cases h : l.labels[label.id]? with
  | none =>
    simp only [← places.labels, h]
    simp
  | some k =>
    have marks := (places.labels label k).1 h
    have same := places.offset k (by rw [places.size_eq]; exact marks.le)
    simp only [← places.labels, h, same]
    simp [eq_comm]

theorem Places.distance (places : l.Places items) {i : Nat} {label : Label} {d : Int16}
    (inside : i < (emitted items).length) (done : l.distance i label = .ok d) :
    ∃ j, Marks items label j ∧ j < (emitted items).length ∧
      (Instruction.offset (emitted items) i : Int) + d.toInt =
        Instruction.offset (emitted items) j := by
  rw [Layout.distance, bind_eq_ok] at done
  obtain ⟨j, found, done⟩ := done
  rw [guard_eq_ok] at done
  obtain ⟨short, same⟩ := done
  have target := places.instructionAt.1 found
  refine ⟨j, target.1, target.2, ?_⟩
  have size := places.size_eq
  have here := places.offset i (by omega)
  have there := places.offset j (by omega)
  rw [here, there] at short same
  cases same
  have fits : ((Instruction.offset (emitted items) j : Int) -
      Instruction.offset (emitted items) i).bmod Int16.size =
      Instruction.offset (emitted items) j - Instruction.offset (emitted items) i := by
    apply Int.bmod_eq_of_le
    · rw [Int16.size]
      omega
    · rw [Int16.size]
      omega
  rw [Int16.toInt_ofInt, fits]
  omega

theorem Places.resolve (places : l.Places items) {i : Nat} {o : Operation Label}
    {resolved : Operation Int16} (inside : i < (emitted items).length)
    (done : l.resolve i o = .ok resolved) :
    ∃ distance, resolved = o.map distance ∧ Leads items i o distance := by
  cases o with
  | branch c t | goto t =>
    rw [Layout.resolve, bind_eq_ok] at done
    obtain ⟨d, found, same⟩ := done
    cases same
    refine ⟨fun _ => d, rfl, ?_⟩
    intro label target
    cases target
    exact places.distance inside found
  | _ =>
    cases done
    refine ⟨fun _ => 0, rfl, ?_⟩
    intro label target
    cases target

/-- Short or long, the encoded form takes the bytes that were counted before its label was known. -/
theorem Places.length_encode (places : l.Places items) {i : Nat} {o : Operation Label}
    {resolved : Operation Int16} (inside : i < (emitted items).length)
    (found : l.resolve i o = .ok resolved) : resolved.encode.length = o.size := by
  obtain ⟨distance, rfl, -⟩ := places.resolve inside found
  rw [Operation.length_encode, Operation.size_map]

def part (l : Layout) (p : Instruction × Nat) : Except Error (List UInt8) := do
  let o ← l.resolve p.2 p.1.operation
  return o.encode

theorem encode_eq (l : Layout) : l.encode =
    (l.instructions.toList.zipIdx.mapM l.part >>= fun parts => return parts.flatten) := rfl

theorem Places.parts (places : l.Places items) {rest : List Instruction} {n : Nat}
    {parts : List (List UInt8)} (within : n + rest.length ≤ (emitted items).length)
    (done : (rest.zipIdx n).mapM l.part = .ok parts) :
    parts.flatten.length = Instruction.offset rest rest.length ∧
      ∀ i instruction, rest[i]? = some instruction → ∃ resolved front back,
        l.resolve (n + i) instruction.operation = .ok resolved ∧
        parts.flatten = front ++ (resolved.encode ++ back) ∧
        front.length = Instruction.offset rest i := by
  induction rest generalizing n parts with
  | nil =>
    cases done
    constructor
    · rfl
    · intro i instruction here
      cases here
  | cons first rest ih =>
    rw [List.zipIdx_cons, mapM_cons_eq_ok] at done
    obtain ⟨bytes, others, done, rest_done, rfl⟩ := done
    rw [part, bind_eq_ok] at done
    obtain ⟨resolved, found, same⟩ := done
    cases same
    rw [List.length_cons] at within
    obtain ⟨length, split⟩ := ih (by omega) rest_done
    have size := places.length_encode (by omega) found
    constructor
    · rw [List.flatten_cons, List.length_append, length, size, List.length_cons,
        Instruction.offset_cons_succ]
    · intro i instruction here
      cases i with
      | zero =>
        cases here
        exact ⟨resolved, [], others.flatten, found, rfl, rfl⟩
      | succ i =>
        obtain ⟨resolved', front, back, found', flat, count⟩ := split i instruction here
        refine ⟨resolved', resolved.encode ++ front, back, ?_, ?_, ?_⟩
        · rw [show n + (i + 1) = n + 1 + i by omega]
          exact found'
        · rw [List.flatten_cons, flat, List.append_assoc]
        · rw [List.length_append, size, count, Instruction.offset_cons_succ]

theorem Places.encode (places : l.Places items) {bytes : List UInt8}
    (done : l.encode = .ok bytes) :
    bytes.length = Instruction.offset (emitted items) (emitted items).length ∧
      ∀ i instruction, (emitted items)[i]? = some instruction → ∃ resolved,
        l.resolve i instruction.operation = .ok resolved ∧
        Operation.Holds bytes.toArray (Instruction.offset (emitted items) i) resolved.encode := by
  rw [encode_eq, bind_eq_ok, places.instructions] at done
  obtain ⟨parts, done, same⟩ := done
  cases same
  obtain ⟨length, split⟩ := places.parts (by omega) done
  constructor
  · exact length
  · intro i instruction here
    obtain ⟨resolved, front, back, found, flat, count⟩ := split i instruction here
    rw [Nat.zero_add] at found
    have all := Operation.holds_of_append front (resolved.encode ++ back)
    rw [← flat, count] at all
    exact ⟨resolved, found, (Operation.holds_append.1 all).1⟩

theorem Places.marks_unique (places : l.Places items) {label : Label} {i j : Nat}
    (left : Marks items label i) (right : Marks items label j) : i = j := by
  rw [← places.labels] at left right
  rw [left] at right
  cases right
  rfl

/-- A handler in bytes does what the protection says in labels. -/
structure Guards (items : List Item) (p : Protection) (h : Handler) (position : Nat) : Prop where
  range : ∃ first last, Marks items p.start first ∧ Marks items p.stop last ∧
    h.start.toNat = Instruction.offset (emitted items) first ∧
    h.stop.toNat = Instruction.offset (emitted items) last
  marks : Marks items p.handler position
  inside : position < (emitted items).length
  handler : h.handler.toNat = Instruction.offset (emitted items) position
  catchType : h.catchType = p.catchType

theorem Places.handler (places : l.Places items) (short : l.length ≤ 65535) {p : Protection}
    {h : Handler} {position : Nat} (done : l.handler p = .ok (h, position)) :
    Guards items p h position := by
  rw [Layout.handler, bind_eq_ok] at done
  obtain ⟨start, found, done⟩ := done
  rw [bind_eq_ok] at done
  obtain ⟨stop, found', done⟩ := done
  rw [bind_eq_ok] at done
  obtain ⟨at_, found'', done⟩ := done
  rw [guard_eq_ok] at done
  obtain ⟨-, same⟩ := done
  cases same
  obtain ⟨first, marks, rfl⟩ := places.offsetOf.1 found
  obtain ⟨last, marks', rfl⟩ := places.offsetOf.1 found'
  obtain ⟨marks'', inside⟩ := places.instructionAt.1 found''
  have size := places.size_eq
  have all := places.offset l.size (Nat.le_refl _)
  have fits : ∀ i, i ≤ (emitted items).length →
      (UInt16.ofNat (Instruction.offset (emitted items) i)).toNat =
        Instruction.offset (emitted items) i := by
    intro i inside
    have le := Instruction.offset_le inside
    rw [Layout.length, all, size] at short
    rw [UInt16.toNat_ofNat']
    omega
  refine ⟨⟨first, last, marks, marks', fits _ marks.le, fits _ marks'.le⟩, marks'', inside, ?_, rfl⟩
  rw [places.offset position (by omega)]
  exact fits position (by omega)

theorem Places.handlers (places : l.Places items) (short : l.length ≤ 65535)
    {protections : List Protection} {handlers : List (Handler × Nat)}
    (done : protections.mapM l.handler = .ok handlers) :
    List.Forall₂ (fun p h => Guards items p h.1 h.2) protections handlers :=
  (forall₂_of_mapM_eq_ok done).imp fun _ _ done => places.handler short done

theorem Guards.covers_iff (places : l.Places items) {p : Protection} {h : Handler}
    {position i : Nat} (guards : Guards items p h position)
    (inside : i < (emitted items).length) :
    ¬(Instruction.offset (emitted items) i < h.start.toNat ∨
      h.stop.toNat ≤ Instruction.offset (emitted items) i) ↔ p.Encloses items i := by
  obtain ⟨first, last, marks, marks', start, stop⟩ := guards.range
  have left := Instruction.offset_lt_iff (Nat.le_of_lt inside) marks.le
  have right := Instruction.offset_lt_iff (Nat.le_of_lt inside) marks'.le
  rw [start, stop]
  constructor
  · intro covers
    refine ⟨first, last, marks, marks', ?_, ?_⟩
    · by_contra before
      exact covers (.inl (left.2 (Nat.not_le.1 before)))
    · by_contra behind
      have past : ¬Instruction.offset (emitted items) i <
          Instruction.offset (emitted items) last := fun less => behind (right.1 less)
      exact covers (.inr (Nat.not_lt.1 past))
  · intro encloses
    obtain ⟨first', last', starts, stops, le, lt⟩ := encloses
    cases places.marks_unique marks starts
    cases places.marks_unique marks' stops
    intro outside
    rcases outside with before | behind
    · exact Nat.not_lt.2 le (left.1 before)
    · exact Nat.not_lt.2 behind (right.2 lt)

end Layout

namespace Body

open Outcome

abbrev emitted (b : Body) : List Instruction := Item.emitted b.items.toList

abbrev offset (b : Body) (i : Nat) : Nat := Instruction.offset b.emitted i

abbrev Marks (b : Body) (label : Label) (i : Nat) : Prop := Item.Marks b.items.toList label i

def analysis (b : Body) : Except Error DepthSearch := do
  let l ← b.layout
  let handlers ← b.protections.toList.mapM l.handler
  l.stackDepths (handlers.map (·.2))

theorem reserve_eq_ok {declared : Option UInt16} {computed : Nat} {n : UInt16}
    (small : computed ≤ 65535) (done : reserve declared computed = .ok n) : computed ≤ n.toNat := by
  cases declared with
  | none =>
    cases done
    rw [UInt16.toNat_ofNat']
    omega
  | some d =>
    rw [reserve] at done
    split at done
    · cases done
    · cases done
      omega

/-- What finished code is made of, with what the search has found out about it. -/
structure Finished (b : Body) (code : Code) (s : DepthSearch) : Prop where
  length : code.bytes.length = b.offset b.emitted.length
  holds : ∀ i instruction, b.emitted[i]? = some instruction → ∃ distance,
    Item.Leads b.items.toList i instruction.operation distance ∧
    Operation.Holds code.bytes.toArray (b.offset i) (instruction.operation.map distance).encode
  enough : s.peak ≤ code.maxStack.toNat
  handlers : ∃ l handlers, Layout.Places l b.items.toList ∧
    DepthSearch.Analysed l (handlers.map Prod.snd) s ∧ code.handlers = handlers.map Prod.fst ∧
    List.Forall₂ (fun p h => Layout.Guards b.items.toList p h.1 h.2) b.protections.toList handlers

theorem finished_of_eq_ok {b : Body} {code : Code} (done : b.finish = .ok code) :
    ∃ s, b.analysis = .ok s ∧ b.Finished code s := by
  rw [finish, bind_eq_ok] at done
  obtain ⟨l, laid, done⟩ := done
  rw [bind_eq_ok] at done
  obtain ⟨handlers, handled, done⟩ := done
  rw [bind_eq_ok] at done
  obtain ⟨computed, searched, done⟩ := done
  rw [bind_eq_ok] at done
  obtain ⟨maxStack, reserved, done⟩ := done
  rw [bind_eq_ok] at done
  obtain ⟨bytes, encoded, done⟩ := done
  rw [bind_eq_ok] at done
  obtain ⟨scopes, -, same⟩ := done
  cases same
  obtain ⟨s, analysed, rfl⟩ := Layout.maxStack_eq_ok.1 searched
  obtain ⟨places, -, short⟩ := Layout.places_ofItems laid
  obtain ⟨length, encodings⟩ := places.encode encoded
  have holds : ∀ i instruction, b.emitted[i]? = some instruction → ∃ distance,
      Item.Leads b.items.toList i instruction.operation distance ∧
      Operation.Holds bytes.toArray (b.offset i) (instruction.operation.map distance).encode := by
    intro i instruction here
    obtain ⟨resolved, found, stands⟩ := encodings i instruction here
    obtain ⟨distance, rfl, leads⟩ := places.resolve (List.getElem?_eq_some_iff.1 here).1 found
    exact ⟨distance, leads, stands⟩
  have sound := DepthSearch.analysed_of_eq_ok analysed
  have found : b.analysis = .ok s := by
    rw [analysis]
    exact bind_eq_ok.2 ⟨l, laid, bind_eq_ok.2 ⟨handlers, handled, analysed⟩⟩
  have guarded := places.handlers short handled
  have enough := reserve_eq_ok sound.peak_le reserved
  exact ⟨s, found, ⟨length, holds, enough, ⟨l, handlers, places, sound, rfl, guarded⟩⟩⟩

end Body
end ClassForge
