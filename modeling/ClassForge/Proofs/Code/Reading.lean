import ClassForge.Code.Decoding

namespace ClassForge.Operation

def Holds (code : Array UInt8) : Nat → List UInt8 → Prop
  | _, [] => True
  | pc, b :: bs => code[pc]? = some b ∧ Holds code (pc + 1) bs

section

variable {code : Array UInt8} {pc : Nat}

theorem holds_append {first second : List UInt8} : Holds code pc (first ++ second) ↔
    Holds code pc first ∧ Holds code (pc + first.length) second := by
  induction first generalizing pc with
  | nil => simp [Holds]
  | cons b first ih =>
    have place : pc + 1 + first.length = pc + (b :: first).length := by
      rw [List.length_cons]
      omega
    rw [List.cons_append, Holds, Holds, ih, place, and_assoc]

theorem holds_of_append (before bytes : List UInt8) :
    Holds (before ++ bytes).toArray before.length bytes := by
  induction bytes generalizing before with
  | nil => exact True.intro
  | cons b bytes ih =>
    constructor
    · simp
    · have rest := ih (before ++ [b])
      rw [List.append_assoc, List.length_append] at rest
      exact rest

theorem byteAt_eq_ok {b : UInt8} (here : code[pc]? = some b) : byteAt code pc = .ok b := by
  rw [byteAt, here]

theorem u16At_eq_ok {v : UInt16} (here : Holds code pc (Bytes.ofU16 v)) :
    u16At code pc = .ok v := by
  obtain ⟨first, second, -⟩ := here
  rw [u16At, byteAt_eq_ok first, byteAt_eq_ok second]
  exact congrArg Except.ok (Bytes.toU16_ofU16 v)

theorem distanceAt_eq {d : Int16} (here : Holds code pc (Bytes.ofU16 d.toUInt16)) :
    distanceAt code pc = some d := by
  rw [distanceAt, u16At_eq_ok here]
  rfl

end

theorem toUInt16_low {s : UInt16} (fits : fitsByte s = true) : (low s).toUInt16 = s := by
  have small : s.toNat < 256 := of_decide_eq_true fits
  rw [← UInt16.toNat_inj, UInt8.toNat_toUInt16, low, UInt8.toNat_ofNat']
  omega

theorem signedByte_low {d : Int16} (fits : fitsSignedByte d = true) :
    signedByte (low d.toUInt16) = d := by
  have small : -128 ≤ d.toInt ∧ d.toInt ≤ 127 := by
    simpa [fitsSignedByte] using fits
  have whole : Int16.ofNat d.toUInt16.toNat = d := Int16.toBitVec.inj (by simp)
  have cut : (low d.toUInt16).toInt8 = d.toInt8 := by
    rw [low, UInt8.toInt8_ofNat', ← Int16.toInt8_ofNat', whole]
  have same : d.toInt.bmod (2 ^ 8) = d.toInt := Int.bmod_eq_of_le (by omega) (by omega)
  rw [signedByte, cut, Int16.toInt_toInt8, same, Int16.ofInt_toInt]

theorem near_slot {s : UInt16} (near : s.toNat ≤ 3) : s = 0 ∨ s = 1 ∨ s = 2 ∨ s = 3 := by
  simp only [← UInt16.toNat_inj]
  simp
  omega

theorem near_int {v : Int16} (near : -1 ≤ v.toInt ∧ v.toInt ≤ 5) :
    v = -1 ∨ v = 0 ∨ v = 1 ∨ v = 2 ∨ v = 3 ∨ v = 4 ∨ v = 5 := by
  simp only [← Int16.toInt_inj]
  simp
  omega

section

variable {code : Array UInt8} {pc : Nat}

theorem holds_encodeSlot {op : UInt8} {s : UInt16} (here : Holds code pc (encodeSlot op s)) :
    (s.toNat ≤ 3 ∧ byteAt code pc = .ok op ∧ slotSize s = 1) ∨
    (¬s.toNat ≤ 3 ∧ byteAt code pc = .ok op ∧ byteAt code (pc + 1) = .ok (low s) ∧
      (low s).toUInt16 = s ∧ slotSize s = 2) ∨
    (¬s.toNat ≤ 3 ∧ byteAt code pc = .ok widePrefix ∧ byteAt code (pc + 1) = .ok op ∧
      u16At code (pc + 1 + 1) = .ok s ∧ slotSize s = 4) := by
  rw [encodeSlot] at here
  by_cases near : s.toNat ≤ 3
  · rw [if_pos near] at here
    exact .inl ⟨near, byteAt_eq_ok here.1, if_pos near⟩
  · rw [if_neg near] at here
    have size : slotSize s = if fitsByte s then 2 else 4 := if_neg near
    by_cases fits : fitsByte s = true
    · rw [if_pos fits] at here size
      exact .inr (.inl ⟨near, byteAt_eq_ok here.1, byteAt_eq_ok here.2.1, toUInt16_low fits, size⟩)
    · rw [if_neg fits] at here size
      exact .inr (.inr ⟨near, byteAt_eq_ok here.1, byteAt_eq_ok here.2.1, u16At_eq_ok here.2.2,
        size⟩)

theorem decode_load {k : ValueKind} {s : UInt16} (here : Holds code pc (encode (.load k s))) :
    decode code pc = .ok (.load k s, pc + slotSize s) := by
  rcases holds_encodeSlot here with
    ⟨near, first, size⟩ | ⟨far, first, second, same, size⟩ | ⟨far, first, second, third, size⟩
  · rw [size, decode, first]
    rcases near_slot near with rfl | rfl | rfl | rfl <;> cases k <;> rfl
  · have read : decode code pc = .ok (.load k (low s).toUInt16, pc + 2) := by
      rw [decode, first, second, opcode, if_neg far]
      cases k <;> rfl
    rw [read, same, size]
  · rw [size, decode, first, decodeWide, second, third, opcode, if_neg far]
    cases k <;> rfl

theorem decode_store {k : ValueKind} {s : UInt16} (here : Holds code pc (encode (.store k s))) :
    decode code pc = .ok (.store k s, pc + slotSize s) := by
  rcases holds_encodeSlot here with
    ⟨near, first, size⟩ | ⟨far, first, second, same, size⟩ | ⟨far, first, second, third, size⟩
  · rw [size, decode, first]
    rcases near_slot near with rfl | rfl | rfl | rfl <;> cases k <;> rfl
  · have read : decode code pc = .ok (.store k (low s).toUInt16, pc + 2) := by
      rw [decode, first, second, opcode, if_neg far]
      cases k <;> rfl
    rw [read, same, size]
  · rw [size, decode, first, decodeWide, second, third, opcode, if_neg far]
    cases k <;> rfl

theorem decode_increment {s : UInt16} {d : Int16}
    (here : Holds code pc (encode (.increment s d))) :
    decode code pc = .ok (.increment s d, pc + size (.increment s d : Operation Int16)) := by
  simp only [encode] at here
  by_cases fits : (fitsByte s && fitsSignedByte d) = true
  · rw [if_pos fits] at here
    have first := byteAt_eq_ok here.1
    have second := byteAt_eq_ok here.2.1
    have third := byteAt_eq_ok here.2.2.1
    have both := Bool.and_eq_true_iff.1 fits
    have read : decode code pc =
        .ok (.increment (low s).toUInt16 (signedByte (low d.toUInt16)), pc + 3) := by
      rw [decode, first, second, third]
      rfl
    rw [read, toUInt16_low both.1, signedByte_low both.2, size, if_pos fits]
  · rw [if_neg fits] at here
    have first := byteAt_eq_ok here.1
    have second := byteAt_eq_ok here.2.1
    have parts := holds_append.1 here.2.2
    have third := u16At_eq_ok parts.1
    have fourth : u16At code (pc + 1 + 3) = .ok d.toUInt16 := u16At_eq_ok parts.2
    rw [size, if_neg fits, decode, first, decodeWide, second, third, fourth]
    rfl

theorem decode_pushInt {v : Int16} (here : Holds code pc (encode (.pushInt v))) :
    decode code pc = .ok (.pushInt v, pc + size (.pushInt v : Operation Int16)) := by
  simp only [encode] at here
  by_cases near : -1 ≤ v.toInt ∧ v.toInt ≤ 5
  · rw [if_pos near] at here
    have first := byteAt_eq_ok here.1
    rw [decode, first]
    rcases near_int near with rfl | rfl | rfl | rfl | rfl | rfl | rfl <;> rfl
  · by_cases fits : fitsSignedByte v = true
    · rw [if_neg near, if_pos fits, opcode, if_neg near, if_pos fits] at here
      have first := byteAt_eq_ok here.1
      have second := byteAt_eq_ok here.2.1
      have read : decode code pc = .ok (.pushInt (signedByte (low v.toUInt16)), pc + 2) := by
        rw [decode, first, second]
        rfl
      rw [read, signedByte_low fits, size, if_neg near, if_pos fits]
    · rw [if_neg near, if_neg fits, opcode, if_neg near, if_neg fits] at here
      have first := byteAt_eq_ok here.1
      have second := u16At_eq_ok here.2
      rw [size, if_neg near, if_neg fits, decode, first, second]
      rfl

theorem decode_loadConstant {i : UInt16} (here : Holds code pc (encode (.loadConstant i))) :
    decode code pc = .ok (.loadConstant i, pc + size (.loadConstant i : Operation Int16)) := by
  simp only [encode] at here
  by_cases fits : fitsByte i = true
  · rw [if_pos fits, opcode, if_pos fits] at here
    have first := byteAt_eq_ok here.1
    have second := byteAt_eq_ok here.2.1
    have read : decode code pc = .ok (.loadConstant (low i).toUInt16, pc + 2) := by
      rw [decode, first, second]
      rfl
    rw [read, toUInt16_low fits, size, if_pos fits]
  · rw [if_neg fits, opcode, if_neg fits] at here
    have first := byteAt_eq_ok here.1
    have second := u16At_eq_ok here.2
    rw [size, if_neg fits, decode, first, second]
    rfl

set_option maxRecDepth 1000 in
theorem decode_encode {o : Operation Int16} (here : Holds code pc o.encode) :
    decode code pc = .ok (o.map some, pc + o.size) := by
  cases o with
  | load k s => exact decode_load here
  | store k s => exact decode_store here
  | increment s d => exact decode_increment here
  | pushInt v => exact decode_pushInt here
  | loadConstant i => exact decode_loadConstant here
  | branch c d =>
    have first := byteAt_eq_ok here.1
    have second := distanceAt_eq here.2
    rw [decode, first, second]
    cases c with
    | zero t | ints t => cases t <;> rfl
    | same b | null b => cases b <;> rfl
  | goto d =>
    have first := byteAt_eq_ok here.1
    have second := distanceAt_eq here.2
    rw [decode, first, second]
    rfl
  | loadWideConstant i | newReferenceArray i | new i | checkCast i | instanceOf i =>
    have first := byteAt_eq_ok here.1
    have second := u16At_eq_ok here.2
    rw [decode, first, second]
    rfl
  | field a i | invoke a i =>
    have first := byteAt_eq_ok here.1
    have second := u16At_eq_ok here.2
    rw [decode, first, second]
    cases a <;> rfl
  | invokeInterface i n =>
    have first := byteAt_eq_ok here.1
    have parts := holds_append.1 here.2
    have second := u16At_eq_ok parts.1
    have third : byteAt code (pc + 3) = .ok n := byteAt_eq_ok parts.2.1
    have fourth : byteAt code (pc + 4) = .ok 0 := byteAt_eq_ok parts.2.2.1
    rw [decode, first, second, third, fourth]
    rfl
  | newArray c =>
    have first := byteAt_eq_ok here.1
    have second := byteAt_eq_ok here.2.1
    rw [decode, first, second]
    cases c <;> rfl
  | arithmetic k o =>
    have first := byteAt_eq_ok here.1
    rw [decode, first]
    cases k <;> cases o <;> rfl
  | shift long o | bitwise long o =>
    have first := byteAt_eq_ok here.1
    rw [decode, first]
    cases long <;> cases o <;> rfl
  | compare o =>
    have first := byteAt_eq_ok here.1
    rw [decode, first]
    cases o with
    | long => rfl
    | float b | double b => cases b <;> rfl
  | leave k =>
    have first := byteAt_eq_ok here.1
    rw [decode, first]
    cases k with
    | none => rfl
    | some k => cases k <;> rfl
  | pushFloat v =>
    have first := byteAt_eq_ok here.1
    rw [decode, first]
    match v with
    | 0 | 1 | 2 => rfl
  | pushLong k | pushDouble k | arrayLoad k | arrayStore k | negate k | convert k =>
    have first := byteAt_eq_ok here.1
    rw [decode, first]
    cases k <;> rfl
  | nop | pushNull | arrayLength | pop | pop2 | dup | dupX1 | dup2 | swap | raise =>
    have first := byteAt_eq_ok here.1
    rw [decode, first]
    rfl

end

theorem length_encode (o : Operation Int16) : o.encode.length = o.size := by
  cases o with
  | load k s | store k s =>
    simp only [encode, encodeSlot, size, slotSize]
    split
    · rfl
    · split <;> rfl
  | increment s d | loadConstant s =>
    rw [encode, size]
    split <;> rfl
  | pushInt v =>
    simp only [encode, size]
    split
    · rfl
    · split <;> rfl
  | _ => rfl

theorem size_map {τ σ : Type} (f : τ → σ) (o : Operation τ) : (o.map f).size = o.size := by
  cases o <;> rfl

theorem slotSize_pos (s : UInt16) : 0 < slotSize s := by
  rw [slotSize]
  split
  · omega
  · split <;> omega

theorem size_pos {τ : Type} (o : Operation τ) : 0 < o.size := by
  cases o with
  | load k s | store k s => exact slotSize_pos s
  | increment s d | loadConstant s =>
    rw [size]
    split <;> omega
  | pushInt v =>
    rw [size]
    split
    · omega
    · split <;> omega
  | _ => exact Nat.succ_pos _

end ClassForge.Operation
