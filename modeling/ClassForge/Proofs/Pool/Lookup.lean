import Mathlib.Data.List.Induction
import ClassForge.Pool.Basic

namespace ClassForge

theorem Bytes.ofU16_injective {a b : UInt16} (same : ofU16 a = ofU16 b) : a = b := by
  simp only [ofU16, List.cons.injEq, and_true] at same
  rw [← toU16_ofU16 a, ← toU16_ofU16 b, same.1, same.2]

theorem Bytes.ofU32_injective {a b : UInt32} (same : ofU32 a = ofU32 b) : a = b := by
  simp only [ofU32, List.cons.injEq, and_true] at same
  rw [← toU32_ofU32 a, ← toU32_ofU32 b, same.1, same.2.1, same.2.2.1, same.2.2.2]

theorem Entry.ofByte_tag_byte (e : Entry) : Tag.ofByte e.tag.byte = e.tag := by
  cases e with
  | member kind => cases kind <;> rfl
  | _ => rfl

theorem Entry.bytes_injective {a b : Entry} (same : a.bytes = b.bytes) : a = b := by
  simp only [bytes, List.cons.injEq] at same
  obtain ⟨tagByte, payload⟩ := same
  have tags : a.tag = b.tag := by rw [← ofByte_tag_byte a, ← ofByte_tag_byte b, tagByte]
  cases a <;> cases b <;> simp only [tag, reduceCtorEq, Tag.member.injEq] at tags
  all_goals simp only [Entry.payload] at payload
  case utf8.utf8 => rw [List.append_inj_right payload rfl]
  case methodHandle.methodHandle k i l j =>
    simp only [List.cons.injEq] at payload
    have kinds : some k = some l := by
      rw [← k.ofByte?_byte, ← l.ofByte?_byte, payload.1]
    cases kinds
    rw [Bytes.ofU16_injective payload.2]
  case member.member =>
    obtain ⟨first, second⟩ := List.append_inj payload rfl
    rw [tags, Bytes.ofU16_injective first, Bytes.ofU16_injective second]
  case integer.integer | float.float => rw [Bytes.ofU32_injective payload]
  case long.long | double.double =>
    obtain ⟨first, second⟩ := List.append_inj payload rfl
    rw [Bytes.ofU32_injective first, Bytes.ofU32_injective second]
  case nameAndType.nameAndType | dynamic.dynamic | invokeDynamic.invokeDynamic =>
    obtain ⟨first, second⟩ := List.append_inj payload rfl
    rw [Bytes.ofU16_injective first, Bytes.ofU16_injective second]
  all_goals rw [Bytes.ofU16_injective payload]

namespace Pool

/-- The least index whose slot holds the entry. -/
def First (p : Pool) (e : Entry) (i : Index) : Prop :=
  p.get? i = some e ∧ ∀ j, p.get? j = some e → i ≤ j

/-- What is looked up is found where it stands first. -/
def Indexed (p : Pool) : Prop := ∀ e i, p.find? e = some i ↔ p.First e i

theorem First.unique {p : Pool} {e : Entry} {i j : Index} (hi : p.First e i) (hj : p.First e j) :
    i = j := UInt16.le_antisymm (hi.2 j hj.1) (hj.2 i hi.1)

theorem exists_first {p : Pool} {e : Entry} {i : Index} (holds : p.get? i = some e) :
    ∃ first, p.First e first := by
  induction h : i.toNat using Nat.strongRecOn generalizing i with
  | ind n ih =>
    by_cases least : ∀ j, p.get? j = some e → i ≤ j
    · exact ⟨i, holds, least⟩
    · simp only [Classical.not_forall, UInt16.not_le] at least
      obtain ⟨j, hj, less⟩ := least
      exact ih j.toNat (by rw [← h]; exact UInt16.lt_iff_toNat_lt.1 less) hj rfl

theorem Indexed.find?_eq_none {p : Pool} (indexed : p.Indexed) {e : Entry} :
    p.find? e = none ↔ ∀ i, p.get? i ≠ some e := by
  constructor
  · intro absent i holds
    obtain ⟨first, hfirst⟩ := exists_first holds
    rw [(indexed e first).2 hfirst] at absent
    cases absent
  · intro absent
    cases found : p.find? e with
    | none => rfl
    | some i => exact absurd ((indexed e i).1 found).1 (absent i)

theorem get?_of_pos {p : Pool} {i : Index} (pos : 0 < i.toNat) :
    p.get? i = (p.slots.items[i.toNat - 1]?).join := by
  obtain ⟨n, hn⟩ := Nat.exists_eq_succ_of_ne_zero (Nat.ne_of_gt pos)
  simp only [get?, hn, OneIndexed.get?, Nat.succ_eq_add_one, Nat.add_sub_cancel]

theorem get?_zero_toNat {p : Pool} {i : Index} (zero : i.toNat = 0) : p.get? i = none := by
  simp [get?, zero]

theorem toNat_le_size {p : Pool} {i : Index} {e : Entry} (holds : p.get? i = some e) :
    0 < i.toNat ∧ i.toNat ≤ p.size := by
  by_cases zero : i.toNat = 0
  · rw [get?_zero_toNat zero] at holds
    cases holds
  · rw [get?_of_pos (by omega), Option.join_eq_some_iff] at holds
    have inside := (Array.getElem?_eq_some_iff.1 holds).1
    simp only [size, OneIndexed.size]
    omega

theorem get?_ofSlots {slots : List (Option Entry)} {i : Index} (pos : 0 < i.toNat) :
    (ofSlots slots).get? i = (slots[i.toNat - 1]?).join := by
  simp [get?_of_pos pos, ofSlots, OneIndexed.ofList]

theorem size_ofSlots (slots : List (Option Entry)) : (ofSlots slots).size = slots.length := by
  simp [size, OneIndexed.size, ofSlots, OneIndexed.ofList]

theorem get?_append (p : Pool) (e : Entry) (i : Index) :
    (p.append e).get? i = if i.toNat = p.size + 1 then some e else p.get? i := by
  by_cases zero : i.toNat = 0
  · simp [get?_zero_toNat zero, zero]
  · have hsize : p.size = p.slots.items.size := rfl
    rw [get?_of_pos (by omega), get?_of_pos (by omega), append]
    by_cases here : i.toNat = p.size + 1
    · rw [if_pos here, here, Nat.add_sub_cancel, hsize]
      split
      · rw [OneIndexed.push, OneIndexed.push, Array.getElem?_push_lt (by simp)]
        simp
      · rw [OneIndexed.push, Array.getElem?_push_size]
        rfl
    · rw [if_neg here]
      simp only [OneIndexed.push]
      by_cases inside : i.toNat - 1 < p.slots.items.size
      · split <;> simp only [Array.getElem?_push, Array.size_push] <;> grind
      · have beyond : p.slots.items[i.toNat - 1]? = none := Array.getElem?_eq_none (by omega)
        rw [beyond]
        split <;> simp only [Array.getElem?_push, Array.size_push] <;> grind

theorem size_append (p : Pool) (e : Entry) : (p.append e).size = p.size + e.width := by
  simp only [append, size, Entry.width]
  split <;> simp

theorem get?_truncate (p : Pool) (n : Nat) (i : Index) :
    (p.truncate n).get? i = if i.toNat ≤ n then p.get? i else none := by
  by_cases zero : i.toNat = 0
  · simp [get?_zero_toNat zero]
  · have hsize : p.size = p.slots.items.size := rfl
    rw [get?_of_pos (by omega), get?_of_pos (by omega), truncate]
    by_cases short : p.size ≤ n
    · rw [if_pos short]
      split
      · rfl
      · have beyond : p.slots.items[i.toNat - 1]? = none := Array.getElem?_eq_none (by omega)
        rw [beyond]
        rfl
    · rw [if_neg short]
      simp only [OneIndexed.truncate, Array.take_eq_extract, Array.getElem?_extract]
      split
      · rw [if_pos (by omega), Nat.zero_add]
      · rw [if_neg (by omega)]
        rfl

theorem size_truncate (p : Pool) (n : Nat) : (p.truncate n).size = min n p.size := by
  have hsize : p.size = p.slots.items.size := rfl
  rw [truncate]
  split
  · omega
  · simp [size, OneIndexed.size, OneIndexed.truncate]

theorem slots_truncate_ofSlots {front behind : List (Option Entry)} (cut : behind ≠ []) :
    ((ofSlots (front ++ behind)).truncate front.length).slots = .ofList front := by
  have more := List.length_pos_iff.2 cut
  have long : ¬(ofSlots (front ++ behind)).size ≤ front.length := by
    rw [size_ofSlots, List.length_append]
    omega
  rw [truncate, if_neg long]
  simp [OneIndexed.truncate, OneIndexed.ofList, ofSlots]

theorem find?_append (p : Pool) (e x : Entry) :
    (p.append e).find? x = if x = e then some (UInt16.ofNat (p.size + 1)) else p.find? x := by
  simp only [find?, append, Std.TreeMap.getElem?_insert, Std.LawfulEqCmp.compare_eq_iff_eq]
  by_cases same : x = e
  · simp [same]
  · have different : e.bytes ≠ x.bytes := fun h => same (Entry.bytes_injective h).symm
    simp [same, different]

theorem find?_truncate (p : Pool) (n : Nat) (x : Entry) (i : Index) :
    (p.truncate n).find? x = some i ↔ p.find? x = some i ∧ (i.toNat ≤ n ∨ p.size ≤ n) := by
  rw [truncate]
  split
  · rename_i short
    simp [short]
  · rename_i long
    simp [find?, Std.TreeMap.getElem?_filter, long]

theorem find?_ofSlots_concat (slots : List (Option Entry)) (slot : Option Entry) (x : Entry) :
    (ofSlots (slots ++ [slot])).find? x = ((ofSlots slots).find? x).or
      (if slot = some x then some (UInt16.ofNat (slots.length + 1)) else none) := by
  simp only [ofSlots, find?, OneIndexed.indexed, OneIndexed.ofList, OneIndexed.toList,
    List.zipIdx_append, List.map_append, List.foldl_append, Nat.zero_add, List.zipIdx_cons,
    List.zipIdx_nil, List.map_cons, List.map_nil, List.foldl_cons, List.foldl_nil]
  generalize List.foldl _ _ _ = lookup
  cases slot with
  | none => simp
  | some e =>
    rw [Std.TreeMap.getElem?_insertIfNew]
    by_cases same : e = x
    · subst same
      cases h : lookup[e.bytes]? with
      | none => simp [Std.TreeMap.mem_iff_isSome_getElem?, h]
      | some i => simp [Std.TreeMap.mem_iff_isSome_getElem?, h]
    · have different : e.bytes ≠ x.bytes := fun h => same (Entry.bytes_injective h)
      simp [same, different]

theorem find?_ofSlots_of_not_mem {slots : List (Option Entry)} {e : Entry}
    (absent : some e ∉ slots) : (ofSlots slots).find? e = none := by
  induction slots using List.reverseRecOn with
  | nil => rfl
  | append_singleton slots slot ih =>
    rw [List.mem_append, not_or, List.mem_singleton] at absent
    rw [find?_ofSlots_concat, ih absent.1, if_neg (Ne.symm absent.2), Option.none_or]

theorem Indexed.extend {p q : Pool} {n : Nat} {slot : Option Entry} (indexed : p.Indexed)
    (before : ∀ i e, p.get? i = some e → i.toNat < n) (small : n ≤ 65535)
    (slots : ∀ i, q.get? i = if i.toNat = n then slot else p.get? i)
    (found : ∀ e, q.find? e = (p.find? e).or (if slot = some e then some (UInt16.ofNat n) else none)) :
    q.Indexed := by
  intro e i
  have whole : (UInt16.ofNat n).toNat = n := by
    rw [UInt16.toNat_ofNat']
    omega
  rw [found]
  cases h : p.find? e with
  | some first =>
    have hfirst := (indexed e first).1 h
    have bound := before first e hfirst.1
    have kept : q.get? first = some e := by rw [slots, if_neg (by omega), hfirst.1]
    have least : q.First e first := by
      refine ⟨kept, fun j hj => ?_⟩
      rw [slots] at hj
      split at hj
      · rw [UInt16.le_iff_toNat_le]
        omega
      · exact hfirst.2 j hj
    simp only [Option.some_or, Option.some.injEq]
    constructor
    · intro same
      subst same
      exact least
    · exact least.unique
  | none =>
    -- Held by no slot before, the entry is first where it stands now.
    have absent := indexed.find?_eq_none.1 h
    have only : ∀ j, q.get? j = some e ↔ j = UInt16.ofNat n ∧ slot = some e := by
      intro j
      rw [slots, ← UInt16.toNat_inj, whole]
      split
      · simp [*]
      · simp [*]
    simp only [Option.none_or, Option.ite_none_right_eq_some, Option.some.injEq, First, only]
    constructor
    · intro parts
      obtain ⟨holds, rfl⟩ := parts
      exact ⟨⟨rfl, holds⟩, fun j hj => hj.1 ▸ UInt16.le_refl _⟩
    · intro parts
      obtain ⟨⟨rfl, holds⟩, -⟩ := parts
      exact ⟨holds, rfl⟩

theorem indexed_ofSlots {slots : List (Option Entry)} (small : slots.length ≤ 65535) :
    (ofSlots slots).Indexed := by
  -- Slots are entered from the first on, so the last one is what a step adds.
  induction slots using List.reverseRecOn with
  | nil =>
    have empty : ∀ i, (ofSlots []).get? i = none := by
      intro i
      by_cases zero : i.toNat = 0
      · exact get?_zero_toNat zero
      · simp [get?_ofSlots (show 0 < i.toNat by omega)]
    intro e i
    have missing : (ofSlots []).find? e = none := by
      simp [find?, ofSlots, OneIndexed.indexed, OneIndexed.ofList, OneIndexed.toList]
    simp [First, empty, missing]
  | append_singleton slots slot ih =>
    simp only [List.length_append, List.length_singleton] at small
    refine (ih (by omega)).extend ?_ small ?_
      (find?_ofSlots_concat slots slot)
    · intro i e holds
      have bound := toNat_le_size holds
      rw [size_ofSlots] at bound
      omega
    · intro i
      by_cases zero : i.toNat = 0
      · simp [get?_zero_toNat zero, zero]
      · rw [get?_ofSlots (by omega), get?_ofSlots (by omega), List.getElem?_append]
        by_cases last : i.toNat = slots.length + 1
        · simp [last]
        · rw [if_neg last]
          split
          · rfl
          · rw [List.getElem?_eq_none (by simp; omega), List.getElem?_eq_none (by omega)]

theorem Indexed.append {p : Pool} {e : Entry} (indexed : p.Indexed) (absent : p.find? e = none)
    (small : p.size + e.width ≤ 65535) : (p.append e).Indexed := by
  have wide := e.one_le_width
  refine indexed.extend ?_ (by omega) (get?_append p e) ?_
  · intro i x holds
    have bound := toNat_le_size holds
    omega
  · intro x
    rw [find?_append]
    by_cases same : x = e
    · subst same
      simp [absent]
    · have different : ¬some e = some x := fun h => same (Option.some.inj h).symm
      simp [same, different]

theorem Indexed.truncate {p : Pool} (indexed : p.Indexed) (n : Nat) : (p.truncate n).Indexed := by
  intro x i
  rw [find?_truncate, indexed x i]
  simp only [First, get?_truncate, Option.ite_none_right_eq_some]
  constructor
  · intro parts
    obtain ⟨⟨holds, least⟩, kept⟩ := parts
    have bound := toNat_le_size holds
    exact ⟨⟨by omega, holds⟩, fun j hj => least j hj.2⟩
  · intro parts
    obtain ⟨⟨kept, holds⟩, least⟩ := parts
    refine ⟨⟨holds, fun j hj => ?_⟩, .inl kept⟩
    by_cases inside : j.toNat ≤ n
    · exact least j ⟨inside, hj⟩
    · rw [UInt16.le_iff_toNat_le]
      omega

end Pool
end ClassForge
