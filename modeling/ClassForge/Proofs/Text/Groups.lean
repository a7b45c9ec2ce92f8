import ClassForge.Proofs.Text.ModifiedUtf8

namespace ClassForge.Text.ModifiedUtf8

inductive Group where
  | one (b : UInt8)
  | two (b c : UInt8)
  | three (b c d : UInt8)

namespace Group

def bytes : Group → List UInt8
  | one b => [b]
  | two b c => [b, c]
  | three b c d => [b, c, d]

/-- The first byte says how many there are, and none of the others can be a first one. -/
def Valid : Group → Prop
  | one b => 0x01 ≤ b ∧ b ≤ 0x7f
  | two b c => (0xc0 ≤ b ∧ b ≤ 0xdf) ∧ (0x80 ≤ c ∧ c ≤ 0xbf)
  | three b c d => (0xe0 ≤ b ∧ b ≤ 0xef) ∧ (0x80 ≤ c ∧ c ≤ 0xbf) ∧ (0x80 ≤ d ∧ d ≤ 0xbf)

instance : (g : Group) → Decidable g.Valid
  | one b => inferInstanceAs (Decidable (0x01 ≤ b ∧ b ≤ 0x7f))
  | two b c => inferInstanceAs (Decidable ((0xc0 ≤ b ∧ b ≤ 0xdf) ∧ (0x80 ≤ c ∧ c ≤ 0xbf)))
  | three b c d => inferInstanceAs (Decidable
    ((0xe0 ≤ b ∧ b ≤ 0xef) ∧ (0x80 ≤ c ∧ c ≤ 0xbf) ∧ (0x80 ≤ d ∧ d ≤ 0xbf)))

def unit : Group → UInt16
  | one b => b.toUInt16
  | two b c => (b &&& 0x1f).toUInt16 <<< 6 ||| (c &&& 0x3f).toUInt16
  | three b c d =>
    (b &&& 0x0f).toUInt16 <<< 12 ||| (c &&& 0x3f).toUInt16 <<< 6 ||| (d &&& 0x3f).toUInt16

/-- No group of fewer bytes carries the same unit. -/
def Shortest (g : Group) : Prop :=
  ∀ h : Group, h.Valid → h.unit = g.unit → g.bytes.length ≤ h.bytes.length

theorem low_bits (b : UInt8) : (b &&& 0x3f).toNat = b.toNat % 64 ∧
    (b &&& 0x1f).toNat = b.toNat % 32 ∧ (b &&& 0x0f).toNat = b.toNat % 16 := by
  simp only [UInt8.toNat_and, UInt8.reduceToNat]
  exact ⟨Nat.and_two_pow_sub_one_eq_mod _ 6, Nat.and_two_pow_sub_one_eq_mod _ 5,
    Nat.and_two_pow_sub_one_eq_mod _ 4⟩

theorem shiftLeft_mod {n k w : Nat} (width : 1 <<< k = w) (fits : n * w < 65536) :
    n <<< k % 65536 = n * w := by
  rw [Nat.one_shiftLeft] at width
  rw [Nat.shiftLeft_eq, width, Nat.mod_eq_of_lt fits]

theorem or_low (n : Nat) {m k w : Nat} (width : 1 <<< k = w) (low : m < w) :
    n * w ||| m = n * w + m := by
  rw [Nat.one_shiftLeft] at width
  subst width
  rw [← Nat.shiftLeft_eq, Nat.shiftLeft_add_eq_or_of_lt low]

theorem six_bits : 1 <<< 6 = 64 := rfl

theorem twelve_bits : 1 <<< 12 = 4096 := rfl

theorem toNat_two (b c : UInt8) :
    (two b c).unit.toNat = b.toNat % 32 * 64 + c.toNat % 64 := by
  have high : b.toNat % 32 * 64 < 65536 := by omega
  have low : c.toNat % 64 < 64 := Nat.mod_lt _ (by decide)
  simp only [unit, UInt16.toNat_or, UInt16.toNat_shiftLeft, UInt8.toNat_toUInt16, low_bits,
    UInt16.reduceToNat, Nat.reduceMod, Nat.reducePow]
  rw [shiftLeft_mod six_bits high, or_low _ six_bits low]

theorem toNat_three (b c d : UInt8) : (three b c d).unit.toNat =
    b.toNat % 16 * 4096 + c.toNat % 64 * 64 + d.toNat % 64 := by
  have high : b.toNat % 16 * 4096 < 65536 := by omega
  have middle : c.toNat % 64 * 64 < 65536 := by omega
  have low : d.toNat % 64 < 64 := Nat.mod_lt _ (by decide)
  have both : c.toNat % 64 * 64 + d.toNat % 64 < 4096 := by omega
  simp only [unit, UInt16.toNat_or, UInt16.toNat_shiftLeft, UInt8.toNat_toUInt16, low_bits,
    UInt16.reduceToNat, Nat.reduceMod, Nat.reducePow]
  rw [shiftLeft_mod twelve_bits high, shiftLeft_mod six_bits middle, Nat.or_assoc,
    or_low _ six_bits low, or_low _ twelve_bits both, Nat.add_assoc]

theorem isContinuation_iff (c : UInt8) : isContinuation c = true ↔ 0x80 ≤ c ∧ c ≤ 0xbf := by
  simp only [isContinuation, Bool.and_eq_true, decide_eq_true_eq, UInt8.le_iff_toNat_le,
    UInt8.lt_iff_toNat_lt, UInt8.reduceToNat]
  omega

theorem decodeUnits_group {g : Group} (valid : g.Valid) (offset : Nat) (rest : List UInt8) :
    decodeUnits offset (g.bytes ++ rest) =
      (g.unit :: ·) <$> decodeUnits (offset + g.bytes.length) rest := by
  cases g with
  | one b =>
    have first : (1 ≤ b && b ≤ 0x7f) = true := (inRange_iff _ _ _).2 valid
    have whole : UInt16.ofNat b.toNat = (one b).unit := by
      rw [unit, ← UInt8.toNat_toUInt16, UInt16.ofNat_toNat]
    rw [bytes, List.singleton_append, decodeUnits.eq_def]
    simp only [first, whole, if_true]
    rfl
  | two b c =>
    obtain ⟨leads, continues⟩ := valid
    have notOne : ¬(1 ≤ b && b ≤ 0x7f) = true := by
      rw [inRange_iff]
      simp only [UInt8.le_iff_toNat_le, UInt8.reduceToNat] at leads ⊢
      omega
    have first : (0xc0 ≤ b && b ≤ 0xdf) = true := (inRange_iff _ _ _).2 leads
    have whole : UInt16.ofNat (b.toNat % 32 * 64 + continued c) = (two b c).unit := by
      rw [continued, ← toNat_two, UInt16.ofNat_toNat]
    rw [bytes, List.cons_append, List.singleton_append, decodeUnits.eq_def]
    simp only [notOne, first, (isContinuation_iff c).2 continues, whole, if_true]
    rfl
  | three b c d =>
    obtain ⟨leads, continues, ends⟩ := valid
    have notOne : ¬(1 ≤ b && b ≤ 0x7f) = true := by
      rw [inRange_iff]
      simp only [UInt8.le_iff_toNat_le, UInt8.reduceToNat] at leads ⊢
      omega
    have notTwo : ¬(0xc0 ≤ b && b ≤ 0xdf) = true := by
      rw [inRange_iff]
      simp only [UInt8.le_iff_toNat_le, UInt8.reduceToNat] at leads ⊢
      omega
    have first : (0xe0 ≤ b && b ≤ 0xef) = true := (inRange_iff _ _ _).2 leads
    have whole : UInt16.ofNat (b.toNat % 16 * 4096 + continued c * 64 + continued d) =
        (three b c d).unit := by
      rw [continued, continued, ← toNat_three, UInt16.ofNat_toNat]
    rw [bytes, List.cons_append, List.cons_append, List.singleton_append, decodeUnits.eq_def]
    simp only [notOne, notTwo, first, (isContinuation_iff c).2 continues,
      (isContinuation_iff d).2 ends, whole, if_true]
    rfl

theorem begins (offset : Nat) (b : UInt8) (rest : List UInt8) :
    (∃ (g : Group) (more : List UInt8), g.Valid ∧ b :: rest = g.bytes ++ more) ∨
      ∃ k ≤ offset + (b :: rest).length, decodeUnits offset (b :: rest) = .error ⟨k⟩ := by
  rw [decodeUnits.eq_def]
  dsimp only
  split
  · rename_i first
    exact .inl ⟨.one b, rest, (inRange_iff _ _ _).1 first, rfl⟩
  · split
    · rename_i first
      cases rest with
      | nil => exact .inr ⟨offset + 1, by simp, rfl⟩
      | cons c rest =>
        dsimp only
        split
        · rename_i continues
          exact .inl ⟨.two b c, rest,
            ⟨(inRange_iff _ _ _).1 first, (isContinuation_iff c).1 continues⟩, rfl⟩
        · exact .inr ⟨offset + 1, by simp, rfl⟩
    · split
      · rename_i first
        cases rest with
        | nil => exact .inr ⟨offset + 1, by simp, rfl⟩
        | cons c rest =>
          dsimp only
          split
          · rename_i continues
            cases rest with
            | nil => exact .inr ⟨offset + 2, by simp, rfl⟩
            | cons d rest =>
              dsimp only
              split
              · rename_i ends
                exact .inl ⟨.three b c d, rest, ⟨(inRange_iff _ _ _).1 first,
                  (isContinuation_iff c).1 continues, (isContinuation_iff d).1 ends⟩, rfl⟩
              · exact .inr ⟨offset + 2, by simp, rfl⟩
          · exact .inr ⟨offset + 1, by simp, rfl⟩
      · exact .inr ⟨offset, by simp, rfl⟩

theorem decodeUnits_groups {gs : List Group} (valid : ∀ g ∈ gs, g.Valid) (offset : Nat) :
    decodeUnits offset (gs.flatMap bytes) = .ok (gs.map unit) := by
  induction gs generalizing offset with
  | nil => rfl
  | cons g rest ih =>
    simp only [List.mem_cons, forall_eq_or_imp] at valid
    rw [List.flatMap_cons, decodeUnits_group valid.1, ih valid.2]
    rfl

/-- Bytes are groups, or the byte where they are refused lies inside them or right behind. -/
theorem groups_or_refused (offset : Nat) (text : List UInt8) :
    (∃ gs : List Group, (∀ g ∈ gs, g.Valid) ∧ gs.flatMap bytes = text) ∨
      ∃ k ≤ offset + text.length, decodeUnits offset text = .error ⟨k⟩ := by
  -- What follows the first group is shorter, since no group is empty.
  induction length : text.length using Nat.strongRecOn generalizing offset text with
  | ind n ih =>
    cases text with
    | nil => exact .inl ⟨[], nofun, rfl⟩
    | cons b rest =>
      rcases begins offset b rest with ⟨g, more, valid, same⟩ | refused
      · rw [same, List.length_append] at length
        have filled : 0 < g.bytes.length := by cases g <;> exact Nat.succ_pos _
        rw [same]
        rcases ih more.length (by omega) (offset + g.bytes.length) more rfl with
          ⟨gs, all, spelled⟩ | ⟨k, near, refused⟩
        · refine .inl ⟨g :: gs, ?_, by rw [List.flatMap_cons, spelled]⟩
          simp only [List.mem_cons, forall_eq_or_imp]
          exact ⟨valid, all⟩
        · refine .inr ⟨k, by omega, ?_⟩
          rw [decodeUnits_group valid, refused]
          rfl
      · rw [← length]
        exact .inr refused

theorem toNat_ofNat {n : Nat} (valid : n.isValidChar) : (Char.ofNat n).toNat = n := by
  rw [Char.ofNat, dif_pos valid]
  rfl

theorem unitsOf_single {u : UInt16} (single : u.toNat < 0xd800 ∨ 0xe000 ≤ u.toNat) :
    unitsOf (Char.ofNat u.toNat) = [u] := by
  have bound := u.toNat_lt
  have valid : u.toNat.isValidChar := by
    simp only [Nat.isValidChar]
    omega
  rw [unitsOf, toNat_ofNat valid, if_pos (by omega), UInt16.ofNat_toNat]

theorem unitsOf_pair {u v : UInt16} (high : 0xd800 ≤ u.toNat ∧ u.toNat < 0xdc00)
    (low : 0xdc00 ≤ v.toNat ∧ v.toNat < 0xe000) :
    unitsOf (Char.ofNat (0x10000 + (u.toNat - 0xd800) * 0x400 + (v.toNat - 0xdc00))) = [u, v] := by
  have valid : (0x10000 + (u.toNat - 0xd800) * 0x400 + (v.toNat - 0xdc00)).isValidChar := by
    simp only [Nat.isValidChar]
    omega
  have first : 0xd800 + (0x10000 + (u.toNat - 0xd800) * 0x400 + (v.toNat - 0xdc00) - 0x10000) /
      0x400 = u.toNat := by omega
  have second : 0xdc00 + (0x10000 + (u.toNat - 0xd800) * 0x400 + (v.toNat - 0xdc00) - 0x10000) %
      0x400 = v.toNat := by omega
  rw [unitsOf, toNat_ofNat valid, if_neg (by omega), first, second, UInt16.ofNat_toNat, UInt16.ofNat_toNat]

theorem units_of_charsOfUnits {us : List UInt16} {cs : List Char}
    (spelled : charsOfUnits us = some cs) : us = cs.flatMap unitsOf := by
  fun_induction charsOfUnits us generalizing cs with
  | case1 =>
    cases spelled
    rfl
  | case2 u rest n single =>
    rename_i ih
    obtain ⟨chars, behind, rfl⟩ := Option.map_eq_some_iff.1 spelled
    have range : u.toNat < 0xd800 ∨ 0xe000 ≤ u.toNat := by
      simpa only [Bool.or_eq_true, decide_eq_true_eq] using single
    rw [List.flatMap_cons, unitsOf_single range, ← ih behind, List.singleton_append]
  | case3 u n paired leads v rest m follows =>
    rename_i ih
    obtain ⟨chars, behind, rfl⟩ := Option.map_eq_some_iff.1 spelled
    have surrogate : ¬(u.toNat < 0xd800 ∨ 0xe000 ≤ u.toNat) := by
      simpa only [Bool.or_eq_true, decide_eq_true_eq] using paired
    have high : u.toNat < 0xdc00 := leads
    have low : 0xdc00 ≤ v.toNat ∧ v.toNat < 0xe000 := by
      simpa only [Bool.and_eq_true, decide_eq_true_eq] using follows
    rw [List.flatMap_cons, unitsOf_pair (by omega) low, ← ih behind, List.cons_append,
      List.singleton_append]
  | case4 | case5 | case6 => cases spelled

structure Spell (gs : List Group) (text : List UInt8) (s : String) : Prop where
  valid : ∀ g ∈ gs, g.Valid
  bytes : gs.flatMap Group.bytes = text
  units : gs.map unit = s.toList.flatMap unitsOf

theorem decode_eq_ok_iff {text : List UInt8} {s : String} :
    decode text = .ok s ↔ ∃ gs, Spell gs text s := by
  constructor
  · intro done
    rw [decode] at done
    rcases groups_or_refused 0 text with ⟨gs, valid, rfl⟩ | ⟨k, -, refused⟩
    · rw [decodeUnits_groups valid] at done
      cases spelled : charsOfUnits (gs.map unit) with
      | none =>
        simp only [Bind.bind, Except.bind, spelled] at done
        cases done
      | some cs =>
        simp only [Bind.bind, Except.bind, spelled] at done
        cases done
        refine ⟨gs, valid, rfl, ?_⟩
        rw [String.toList_ofList]
        exact units_of_charsOfUnits spelled
    · rw [refused] at done
      cases done
  · rintro ⟨gs, valid, rfl, units⟩
    have chars := charsOfUnits_units s.toList
    rw [decode, decodeUnits_groups valid, units]
    simp only [Bind.bind, Except.bind, chars]
    exact congrArg Except.ok String.ofList_toList

theorem offset_le_of_decode {text : List UInt8} {e : DecodeError}
    (failed : decode text = .error e) : e.offset ≤ text.length := by
  rw [decode] at failed
  rcases groups_or_refused 0 text with ⟨gs, valid, rfl⟩ | ⟨k, near, refused⟩
  · rw [decodeUnits_groups valid] at failed
    cases spelled : charsOfUnits (gs.map unit) with
    | none =>
      simp only [Bind.bind, Except.bind, spelled] at failed
      cases failed
      exact Nat.le_refl _
    | some cs =>
      simp only [Bind.bind, Except.bind, spelled] at failed
      cases failed
  · rw [refused] at failed
    cases failed
    simpa using near

theorem toNat_one (b : UInt8) : (one b).unit.toNat = b.toNat := UInt8.toNat_toUInt16 b

theorem isForbidden_of_mem {g : Group} (valid : g.Valid) {b : UInt8} (inside : b ∈ g.bytes) :
    isForbidden b = false := by
  have range : 0x01 ≤ b.toNat ∧ b.toNat ≤ 0xef := by
    cases g with
    | one c =>
      simp only [Valid, UInt8.le_iff_toNat_le, UInt8.reduceToNat] at valid
      rw [List.mem_singleton.1 inside]
      omega
    | two c d =>
      simp only [Valid, UInt8.le_iff_toNat_le, UInt8.reduceToNat] at valid
      simp only [bytes, List.mem_cons, List.not_mem_nil, or_false] at inside
      rcases inside with rfl | rfl <;> omega
    | three c d e =>
      simp only [Valid, UInt8.le_iff_toNat_le, UInt8.reduceToNat] at valid
      simp only [bytes, List.mem_cons, List.not_mem_nil, or_false] at inside
      rcases inside with rfl | rfl | rfl <;> omega
  simp only [isForbidden, Bool.or_eq_false_iff, beq_eq_false_iff_ne, ne_eq,
    decide_eq_false_iff_not, UInt8.le_iff_toNat_le, ← UInt8.toNat_inj, UInt8.reduceToNat]
  omega

theorem exists_encoded (u : UInt16) : ∃ g : Group, g.Valid ∧ g.unit = u ∧ g.bytes = encodeUnit u := by
  have decoded := decodeUnits_encoded [u] 0
  rw [List.flatMap_singleton] at decoded
  rcases groups_or_refused 0 (encodeUnit u) with ⟨gs, valid, spelled⟩ | ⟨k, -, refused⟩
  · rw [← spelled, decodeUnits_groups valid, Except.ok.injEq, List.map_eq_singleton_iff] at decoded
    obtain ⟨g, rfl, same⟩ := decoded
    rw [List.flatMap_singleton] at spelled
    exact ⟨g, valid g (List.mem_singleton_self g), same, spelled⟩
  · rw [refused] at decoded
    cases decoded

theorem length_encodeUnit_le {g : Group} (valid : g.Valid) :
    (encodeUnit g.unit).length ≤ g.bytes.length := by
  unfold encodeUnit
  dsimp only
  cases g with
  | one b =>
    simp only [Valid, UInt8.le_iff_toNat_le, UInt8.reduceToNat] at valid
    rw [toNat_one, if_pos valid]
    exact Nat.le_refl _
  | two b c =>
    have small : (two b c).unit.toNat ≤ 0x7ff := by
      rw [toNat_two]
      omega
    rw [if_pos small]
    split
    · exact Nat.le_succ 1
    · exact Nat.le_refl _
  | three b c d =>
    split
    · exact Nat.le_add_left 1 2
    · split
      · exact Nat.le_succ 2
      · exact Nat.le_refl _

theorem bytes_eq_of_unit_eq {g h : Group} (valid : g.Valid) (valid' : h.Valid)
    (same : g.unit = h.unit) (length : g.bytes.length = h.bytes.length) : g.bytes = h.bytes := by
  rw [← UInt16.toNat_inj] at same
  cases g with
  | one b =>
    cases h with
    | one b' =>
      rw [toNat_one, toNat_one, UInt8.toNat_inj] at same
      rw [same]
    | _ => cases length
  | two b c =>
    cases h with
    | two b' c' =>
      rw [toNat_two, toNat_two] at same
      simp only [Valid, UInt8.le_iff_toNat_le, UInt8.reduceToNat] at valid valid'
      have first : b = b' := UInt8.toNat_inj.1 (by omega)
      have second : c = c' := UInt8.toNat_inj.1 (by omega)
      rw [first, second]
    | _ => cases length
  | three b c d =>
    cases h with
    | three b' c' d' =>
      rw [toNat_three, toNat_three] at same
      simp only [Valid, UInt8.le_iff_toNat_le, UInt8.reduceToNat] at valid valid'
      have first : b = b' := UInt8.toNat_inj.1 (by omega)
      have second : c = c' := UInt8.toNat_inj.1 (by omega)
      have third : d = d' := UInt8.toNat_inj.1 (by omega)
      rw [first, second, third]
    | _ => cases length

theorem encodeUnit_eq_iff {g : Group} (valid : g.Valid) :
    encodeUnit g.unit = g.bytes ↔ g.Shortest := by
  constructor
  · intro written h valid' same
    rw [← written, ← same]
    exact length_encodeUnit_le valid'
  · intro shortest
    obtain ⟨h, valid', same, written⟩ := exists_encoded g.unit
    have le := length_encodeUnit_le valid
    have ge := shortest h valid' same
    rw [← written] at le ⊢
    exact bytes_eq_of_unit_eq valid' valid same (Nat.le_antisymm le ge)

theorem encoded_eq_iff {gs : List Group} (valid : ∀ g ∈ gs, g.Valid) :
    (gs.map unit).flatMap encodeUnit = gs.flatMap bytes ↔ ∀ g ∈ gs, g.Shortest := by
  have total (gs : List Group) (valid : ∀ g ∈ gs, g.Valid) :
      ((gs.map unit).flatMap encodeUnit).length ≤ (gs.flatMap bytes).length := by
    induction gs with
    | nil => exact Nat.le_refl _
    | cons g rest ih =>
      simp only [List.mem_cons, forall_eq_or_imp] at valid
      rw [List.map_cons, List.flatMap_cons, List.flatMap_cons, List.length_append,
        List.length_append]
      exact Nat.add_le_add (length_encodeUnit_le valid.1) (ih valid.2)
  induction gs with
  | nil => simp
  | cons g rest ih =>
    simp only [List.mem_cons, forall_eq_or_imp] at valid ⊢
    rw [List.map_cons, List.flatMap_cons, List.flatMap_cons]
    constructor
    · intro same
      -- No group gains bytes, so that none can lose any when the whole does not.
      have length := congrArg List.length same
      have first := length_encodeUnit_le valid.1
      have behind := total rest valid.2
      rw [List.length_append, List.length_append] at length
      obtain ⟨same, others⟩ := List.append_inj same (by omega)
      exact ⟨(encodeUnit_eq_iff valid.1).1 same, (ih valid.2).1 others⟩
    · rintro ⟨shortest, others⟩
      rw [(encodeUnit_eq_iff valid.1).2 shortest, (ih valid.2).2 others]

theorem Spell.encode_eq_iff {gs : List Group} {text : List UInt8} {s : String}
    (spell : Spell gs text s) : encode s = text ↔ ∀ g ∈ gs, g.Shortest := by
  rw [encode, ← spell.units, ← spell.bytes, encoded_eq_iff spell.valid]

theorem Spell.isForbidden {gs : List Group} {text : List UInt8} {s : String}
    (spell : Spell gs text s) : ∀ b ∈ text, isForbidden b = false := by
  intro b inside
  rw [← spell.bytes] at inside
  obtain ⟨g, among, inside⟩ := List.mem_flatMap.1 inside
  exact isForbidden_of_mem (spell.valid g among) inside

end Group

open ClassForge.Text.ModifiedUtf8.Group (Spell)

/-- Encoded text is decoded as it was and has no forbidden bytes. What is decoded are groups that
carry the units of the text; they too have no forbidden bytes, and are what the text is encoded as
when each of them is as short as can be. What is refused is so at a byte inside, or at the end. -/
theorem decode_exact :
    (∀ s, decode (encode s) = .ok s ∧ ∀ b ∈ encode s, isForbidden b = false) ∧
    (∀ text s, decode text = .ok s ↔ ∃ gs, Spell gs text s) ∧
    (∀ gs text s, Spell gs text s → (∀ b ∈ text, isForbidden b = false) ∧
      (encode s = text ↔ ∀ g ∈ gs, g.Shortest)) ∧
    ∀ text e, decode text = .error e → e.offset ≤ text.length :=
  ⟨fun s => ⟨decode_encode s, isForbidden_encode s⟩, fun _ _ => Group.decode_eq_ok_iff,
    fun _ _ _ spell => ⟨spell.isForbidden, spell.encode_eq_iff⟩,
    fun _ _ failed => Group.offset_le_of_decode failed⟩

/-- The letter A takes two bytes here, where one would be enough, and a zero takes its two. -/
theorem decode_exact_long :
    decode [0xc1, 0x81, 0xc0, 0x80] = .ok "A\x00" ∧ encode "A\x00" ≠ [0xc1, 0x81, 0xc0, 0x80] ∧
      decode [0x41, 0xe0] = .error ⟨2⟩ ∧ 2 ≤ [0x41, 0xe0].length := by
  obtain ⟨-, decodes, canonical, bounded⟩ := decode_exact
  have spell : Spell [.two 0xc1 0x81, .two 0xc0 0x80] [0xc1, 0x81, 0xc0, 0x80] "A\x00" := by
    exact ⟨by decide, rfl, by decide⟩
  have refused : decode [0x41, 0xe0] = .error ⟨2⟩ := rfl
  refine ⟨(decodes _ _).2 ⟨_, spell⟩, fun same => ?_, refused, bounded _ _ refused⟩
  have shortest := (canonical _ _ _ spell).2.1 same (.two 0xc1 0x81) List.mem_cons_self
  exact absurd (shortest (.one 0x41) (by decide) rfl) (by decide)

end ClassForge.Text.ModifiedUtf8
