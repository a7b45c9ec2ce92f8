import ClassForge.Text.ModifiedUtf8

namespace ClassForge.Text.ModifiedUtf8

theorem inRange_iff (low b high : UInt8) :
    (decide (low ≤ b) && decide (b ≤ high)) = true ↔ low.toNat ≤ b.toNat ∧ b.toNat ≤ high.toNat := by
  rw [Bool.and_eq_true, decide_eq_true_eq, decide_eq_true_eq, UInt8.le_iff_toNat_le,
    UInt8.le_iff_toNat_le]

theorem continued_low (n : Nat) :
    isContinuation (UInt8.ofNat (0x80 + n % 64)) = true ∧
      continued (UInt8.ofNat (0x80 + n % 64)) = n % 64 := by
  have small : n % 64 < 64 := Nat.mod_lt n (by decide)
  have value : (UInt8.ofNat (0x80 + n % 64)).toNat = 0x80 + n % 64 := by
    rw [UInt8.toNat_ofNat']
    omega
  constructor
  · simp only [isContinuation, Bool.and_eq_true, decide_eq_true_eq, UInt8.le_iff_toNat_le,
      UInt8.lt_iff_toNat_lt, value, UInt8.reduceToNat]
    omega
  · rw [continued, value]
    omega

theorem decodeUnits_encodeUnit (offset : Nat) (u : UInt16) (rest : List UInt8) :
    ∃ next, decodeUnits offset (encodeUnit u ++ rest) = (u :: ·) <$> decodeUnits next rest := by
  have bound := u.toNat_lt
  have whole : UInt16.ofNat u.toNat = u := UInt16.ofNat_toNat
  unfold encodeUnit
  dsimp only
  split
  · -- One byte holds the unit as it is.
    rename_i one
    have value : (UInt8.ofNat u.toNat).toNat = u.toNat := by
      rw [UInt8.toNat_ofNat']
      omega
    have first : (1 ≤ UInt8.ofNat u.toNat && UInt8.ofNat u.toNat ≤ 0x7f) = true := by
      rw [inRange_iff, value]
      exact one
    refine ⟨offset + 1, ?_⟩
    rw [List.singleton_append, decodeUnits.eq_def]
    simp only [first, if_true, value, whole]
    rfl
  · rename_i many
    have second := continued_low u.toNat
    split
    · rename_i two
      have high : u.toNat / 64 < 32 := by omega
      have value : (UInt8.ofNat (0xc0 + u.toNat / 64)).toNat = 0xc0 + u.toNat / 64 := by
        rw [UInt8.toNat_ofNat']
        omega
      generalize hb : UInt8.ofNat (0xc0 + u.toNat / 64) = b at value
      have notOne : ¬(1 ≤ b && b ≤ 0x7f) = true := by
        rw [inRange_iff, value]
        simp only [UInt8.reduceToNat]
        omega
      have first : (0xc0 ≤ b && b ≤ 0xdf) = true := by
        rw [inRange_iff, value]
        simp only [UInt8.reduceToNat]
        omega
      have joined : b.toNat % 32 * 64 + u.toNat % 64 = u.toNat := by omega
      refine ⟨offset + 2, ?_⟩
      rw [List.cons_append, List.singleton_append, decodeUnits.eq_def]
      simp only [notOne, first, second.1, if_true, second.2, joined, whole]
      rfl
    · rename_i three
      have middle := continued_low (u.toNat / 64)
      have high : u.toNat / 4096 < 16 := by omega
      have value : (UInt8.ofNat (0xe0 + u.toNat / 4096)).toNat = 0xe0 + u.toNat / 4096 := by
        rw [UInt8.toNat_ofNat']
        omega
      generalize hb : UInt8.ofNat (0xe0 + u.toNat / 4096) = b at value
      have notOne : ¬(1 ≤ b && b ≤ 0x7f) = true := by
        rw [inRange_iff, value]
        simp only [UInt8.reduceToNat]
        omega
      have notTwo : ¬(0xc0 ≤ b && b ≤ 0xdf) = true := by
        rw [inRange_iff, value]
        simp only [UInt8.reduceToNat]
        omega
      have first : (0xe0 ≤ b && b ≤ 0xef) = true := by
        rw [inRange_iff, value]
        simp only [UInt8.reduceToNat]
        omega
      have joined : b.toNat % 16 * 4096 + u.toNat / 64 % 64 * 64 + u.toNat % 64 = u.toNat := by
        omega
      refine ⟨offset + 3, ?_⟩
      rw [List.cons_append, List.cons_append, List.singleton_append, decodeUnits.eq_def]
      simp only [notOne, notTwo, first, middle.1, middle.2, second.1, second.2, if_true, joined,
        whole]
      rfl

theorem decodeUnits_encoded (us : List UInt16) (offset : Nat) :
    decodeUnits offset (us.flatMap encodeUnit) = .ok us := by
  induction us generalizing offset with
  | nil => rfl
  | cons u rest ih =>
    obtain ⟨next, step⟩ := decodeUnits_encodeUnit offset u (rest.flatMap encodeUnit)
    rw [List.flatMap_cons, step, ih]
    rfl

theorem charsOfUnits_unitsOf (c : Char) (rest : List UInt16) :
    charsOfUnits (unitsOf c ++ rest) = (c :: ·) <$> charsOfUnits rest := by
  have valid : c.toNat < 0xd800 ∨ 0xdfff < c.toNat ∧ c.toNat < 0x110000 := c.valid
  have whole : Char.ofNat c.toNat = c := Char.ofNat_toNat c
  unfold unitsOf
  dsimp only
  split
  · rename_i small
    have value : (UInt16.ofNat c.toNat).toNat = c.toNat := by
      rw [UInt16.toNat_ofNat']
      omega
    have single : (c.toNat < 0xd800 || 0xe000 ≤ c.toNat) = true := by
      simp only [Bool.or_eq_true, decide_eq_true_eq]
      omega
    rw [List.singleton_append, charsOfUnits.eq_def]
    simp only [value, single, if_true, whole]
  · rename_i large
    have high : (UInt16.ofNat (0xd800 + (c.toNat - 0x10000) / 0x400)).toNat =
        0xd800 + (c.toNat - 0x10000) / 0x400 := by
      rw [UInt16.toNat_ofNat']
      omega
    have low : (UInt16.ofNat (0xdc00 + (c.toNat - 0x10000) % 0x400)).toNat =
        0xdc00 + (c.toNat - 0x10000) % 0x400 := by
      rw [UInt16.toNat_ofNat']
      omega
    generalize UInt16.ofNat (0xd800 + (c.toNat - 0x10000) / 0x400) = u at high
    generalize UInt16.ofNat (0xdc00 + (c.toNat - 0x10000) % 0x400) = v at low
    have pair : ¬(u.toNat < 0xd800 || 0xe000 ≤ u.toNat) = true := by
      simp only [Bool.or_eq_true, decide_eq_true_eq]
      omega
    have leads : u.toNat < 0xdc00 := by omega
    have follows : (0xdc00 ≤ v.toNat && v.toNat < 0xe000) = true := by
      simp only [Bool.and_eq_true, decide_eq_true_eq]
      omega
    have joined : 0x10000 + (u.toNat - 0xd800) * 0x400 + (v.toNat - 0xdc00) = c.toNat := by omega
    rw [List.cons_append, List.singleton_append, charsOfUnits.eq_def]
    simp only [pair, leads, follows, joined, whole, if_true]
    rfl

theorem charsOfUnits_units (cs : List Char) : charsOfUnits (cs.flatMap unitsOf) = some cs := by
  induction cs with
  | nil => rfl
  | cons c rest ih =>
    rw [List.flatMap_cons, charsOfUnits_unitsOf, ih]
    rfl

theorem decode_encode (s : String) : decode (encode s) = .ok s := by
  have units := decodeUnits_encoded (s.toList.flatMap unitsOf) 0
  have chars := charsOfUnits_units s.toList
  simp only [decode, encode, units, bind, Except.bind, chars]
  exact congrArg Except.ok String.ofList_toList

theorem isForbidden_encodeUnit (u : UInt16) : ∀ b ∈ encodeUnit u, isForbidden b = false := by
  have bound := u.toNat_lt
  have allowed : ∀ n, 0 < n → n < 0xf0 → isForbidden (UInt8.ofNat n) = false := by
    intro n pos small
    have value : (UInt8.ofNat n).toNat = n := by
      rw [UInt8.toNat_ofNat']
      omega
    simp only [isForbidden, Bool.or_eq_false_iff, beq_eq_false_iff_ne, ne_eq,
      decide_eq_false_iff_not, UInt8.le_iff_toNat_le, ← UInt8.toNat_inj, value, UInt8.reduceToNat]
    omega
  unfold encodeUnit
  dsimp only
  split
  · simp only [List.mem_singleton, forall_eq]
    exact allowed _ (by omega) (by omega)
  · split
    · simp only [List.mem_cons, List.not_mem_nil, or_false, forall_eq_or_imp, forall_eq]
      exact ⟨allowed _ (by omega) (by omega), allowed _ (by omega) (by omega)⟩
    · simp only [List.mem_cons, List.not_mem_nil, or_false, forall_eq_or_imp, forall_eq]
      exact ⟨allowed _ (by omega) (by omega), allowed _ (by omega) (by omega),
        allowed _ (by omega) (by omega)⟩

theorem isForbidden_encode (s : String) : ∀ b ∈ encode s, isForbidden b = false := by
  intro b inside
  obtain ⟨u, -, hb⟩ := List.mem_flatMap.1 inside
  exact isForbidden_encodeUnit u b hb

end ClassForge.Text.ModifiedUtf8
