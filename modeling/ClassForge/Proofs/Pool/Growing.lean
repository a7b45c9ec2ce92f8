import ClassForge.Format.ReadAttribute
import ClassForge.Proofs.Discipline
import ClassForge.Proofs.Format.PoolSpelling
import ClassForge.Proofs.Pool.Resolving
import ClassForge.Proofs.Text.ModifiedUtf8

namespace ClassForge

structure Pool.Sound (p : Pool) : Prop where
  indexed : p.Indexed
  small : p.size ≤ maxSlots
  laidOut : p.LaidOut
  linked : ∀ e, some e ∈ p.slots.toList → ∀ link ∈ e.references, p.Resolves link
  readable : ∀ e, some e ∈ p.slots.toList → e.Readable

def Pool.Extends (q p : Pool) : Prop := p.slots.toList <+: q.slots.toList

namespace Pool

variable {p q r : Pool}

theorem size_eq_length (p : Pool) : p.size = p.slots.toList.length := by
  simp [size, OneIndexed.size, OneIndexed.toList]

namespace Extends

theorem refl (p : Pool) : p.Extends p := List.prefix_refl _

theorem trans (first : q.Extends p) (second : r.Extends q) : r.Extends p :=
  List.IsPrefix.trans first second

theorem of_slots_eq (same : q.slots = p.slots) : q.Extends p :=
  show p.slots.toList <+: q.slots.toList from same ▸ List.prefix_refl p.slots.toList

theorem slot (extends_ : q.Extends p) {i : Nat} {slot : Option Entry}
    (holds : p.slots.get? i = some slot) : q.slots.get? i = some slot := by
  cases i with
  | zero => cases holds
  | succ i =>
    rw [slots_get?_succ] at holds ⊢
    obtain ⟨inside, -⟩ := List.getElem?_eq_some_iff.1 holds
    obtain ⟨new, hnew⟩ := extends_
    rw [← hnew, List.getElem?_append_left inside, holds]

theorem get? (extends_ : q.Extends p) {i : Index} {e : Entry} (holds : p.get? i = some e) :
    q.get? i = some e := by
  rw [Pool.get?, Option.join_eq_some_iff] at holds ⊢
  exact extends_.slot holds

theorem resolves (extends_ : q.Extends p) {link : Link} (resolves : p.Resolves link) :
    q.Resolves link := by
  rw [resolves_iff] at resolves ⊢
  obtain ⟨e, holds, accepted⟩ := resolves
  exact ⟨e, extends_.get? holds, accepted⟩

theorem size_le (extends_ : q.Extends p) : p.size ≤ q.size := by
  rw [size_eq_length, size_eq_length]
  exact extends_.length_le

theorem utf8At? (extends_ : q.Extends p) {i : Index} {text : String}
    (found : p.utf8At? i = some text) : q.utf8At? i = some text := by
  unfold Pool.utf8At? at found ⊢
  split at found
  · rename_i bytes holds
    rw [extends_.get? holds]
    exact found
  · cases found

theorem classNameAt? (extends_ : q.Extends p) {i : Index} {name : String}
    (found : p.classNameAt? i = some name) : q.classNameAt? i = some name := by
  unfold Pool.classNameAt? at found ⊢
  split at found
  · rename_i n holds
    rw [extends_.get? holds]
    exact extends_.utf8At? found
  · cases found

theorem nameAndTypeAt? (extends_ : q.Extends p) {i : Index} {pair : String × String}
    (found : p.nameAndTypeAt? i = some pair) : q.nameAndTypeAt? i = some pair := by
  unfold Pool.nameAndTypeAt? at found ⊢
  split at found
  · rename_i n d holds
    simp only [Option.bind_eq_bind, Option.bind_eq_some_iff] at found ⊢
    obtain ⟨name, hn, descriptor, hd, same⟩ := found
    rw [extends_.get? holds]
    simp only [Option.bind_eq_some_iff]
    exact ⟨name, extends_.utf8At? hn, descriptor, extends_.utf8At? hd, same⟩
  · cases found

theorem memberAt? (extends_ : q.Extends p) {i : Index} {m : MemberRef}
    (found : p.memberAt? i = some m) : q.memberAt? i = some m := by
  unfold Pool.memberAt? at found ⊢
  split at found
  · rename_i kind c nt holds
    simp only [Option.bind_eq_bind, Option.bind_eq_some_iff] at found
    obtain ⟨pair, hpair, owner, howner, same⟩ := found
    rw [extends_.get? holds]
    simp only [Option.bind_eq_bind, Option.bind_eq_some_iff]
    exact ⟨pair, extends_.nameAndTypeAt? hpair, owner, extends_.classNameAt? howner, same⟩
  · cases found

theorem literalAt? (extends_ : q.Extends p) {i : Index} {l : Literal}
    (found : p.literalAt? i = some l) : q.literalAt? i = some l := by
  cases h : p.get? i with
  | none => simp [Pool.literalAt?, h] at found
  | some e =>
    simp only [Pool.literalAt?, h, extends_.get? h] at found ⊢
    cases e with
    | string t =>
      simp only [Option.map_eq_some_iff] at found ⊢
      obtain ⟨s, hs, same⟩ := found
      exact ⟨s, extends_.utf8At? hs, same⟩
    | _ => exact found

end Extends

theorem slots_truncate (extends_ : q.Extends p) : (q.truncate p.size).slots = p.slots := by
  obtain ⟨new, hnew⟩ := extends_
  rw [Pool.truncate]
  split
  · rename_i short
    have none : new = [] := by
      rw [size_eq_length, size_eq_length, ← hnew, List.length_append] at short
      exact List.length_eq_zero_iff.1 (by omega)
    rw [none, List.append_nil] at hnew
    exact congrArg OneIndexed.mk (Array.toList_inj.1 hnew.symm)
  · apply congrArg OneIndexed.mk
    apply Array.toList_inj.1
    have first : q.slots.items.toList = p.slots.items.toList ++ new := hnew.symm
    rw [Array.take_eq_extract, Array.toList_extract, List.extract_eq_take_drop, List.drop_zero,
      first, Nat.sub_zero, size_eq_length]
    exact List.take_left

theorem toList_append (p : Pool) (e : Entry) :
    (p.append e).slots.toList = p.slots.toList ++ e.slots := by
  rw [append, Entry.slots]
  split <;> simp [OneIndexed.push, OneIndexed.toList]

theorem extends_append (p : Pool) (e : Entry) : (p.append e).Extends p := by
  rw [Extends, toList_append]
  exact List.prefix_append _ _

theorem laidOut_iff : p.LaidOut ↔ ∃ es : List Entry, p.slots.toList = es.flatMap Entry.slots := by
  constructor
  · intro laidOut
    exact laidOut.exists_entries
  · intro parts
    obtain ⟨es, hes⟩ := parts
    have whole : p.slots = (ofSlots (es.flatMap Entry.slots)).slots := by
      rw [← hes]
      rfl
    have laidOut := laidOut_ofSlots es
    rwa [LaidOut, ← whole] at laidOut

namespace Sound

theorem empty : ({} : Pool).Sound where
  indexed := indexed_ofSlots (by decide : ([] : List (Option Entry)).length ≤ 65535)
  small := by decide
  laidOut := laidOut_iff.2 ⟨[], rfl⟩
  linked := by
    intro e inside
    cases inside
  readable := by
    intro e inside
    cases inside

theorem of_slots_eq (sound : p.Sound) (same : q.slots = p.slots) (indexed : q.Indexed) :
    q.Sound where
  indexed := indexed
  small := by
    have small := sound.small
    rwa [size, ← same] at small
  laidOut := by
    have laidOut := sound.laidOut
    rwa [LaidOut, ← same] at laidOut
  linked := by
    intro e inside link reference
    rw [same] at inside
    exact (Extends.of_slots_eq same).resolves (sound.linked e inside link reference)
  readable := by
    rw [same]
    exact sound.readable

theorem append (sound : p.Sound) {e : Entry} (absent : p.find? e = none)
    (room : p.size + e.width ≤ maxSlots) (linked : ∀ link ∈ e.references, p.Resolves link)
    (readable : e.Readable) : (p.append e).Sound := by
  have bound : maxSlots = 65534 := rfl
  have held : ∀ x, some x ∈ (p.append e).slots.toList → some x ∈ p.slots.toList ∨ x = e := by
    intro x inside
    rw [toList_append, List.mem_append] at inside
    rcases inside with before | new
    · exact .inl before
    · right
      unfold Entry.slots at new
      split at new <;> simpa using new
  refine ⟨sound.indexed.append absent (by omega), ?_, ?_, ?_, ?_⟩
  · rw [size_append]
    exact room
  · obtain ⟨es, hes⟩ := laidOut_iff.1 sound.laidOut
    refine laidOut_iff.2 ⟨es ++ [e], ?_⟩
    rw [toList_append, hes, List.flatMap_append, List.flatMap_singleton]
  · intro x inside link reference
    apply (extends_append p e).resolves
    rcases held x inside with before | rfl
    · exact sound.linked x before link reference
    · exact linked link reference
  · intro x inside
    rcases held x inside with before | rfl
    · exact sound.readable x before
    · exact readable

theorem truncate (sound : p.Sound) (sound' : q.Sound) (extends_ : q.Extends p) :
    (q.truncate p.size).Sound ∧ (q.truncate p.size).slots = p.slots :=
  ⟨sound.of_slots_eq (slots_truncate extends_) (sound'.indexed.truncate _), slots_truncate extends_⟩

end Sound

def growing : Discipline Pool where
  Holds := Sound
  Onward p q := q.Extends p
  refl := Extends.refl
  trans := Extends.trans

/-- Disciplines by which pools only grow, and an entry may be put in when its references lead to
what is there. -/
class Admits (D : Discipline Pool) : Prop where
  extends_ {p q : Pool} (onward : D.Onward p q) : q.Extends p
  intern {p : Pool} {e : Entry} (linked : ∀ link ∈ e.references, p.Resolves link)
    (readable : e.Readable) : D.Ensures (intern e) p (fun i q => q.get? i = some e)

section Requests

open Discipline

/-- An entry is found, or added behind all others, by any discipline that asks for right lookups and
takes one entry more. -/
theorem ensures_added {D : Discipline Pool} {e : Entry} (indexed : D.Holds p → p.Indexed)
    (added : D.Holds p → p.find? e = none → p.size + e.width ≤ maxSlots →
      D.Holds (p.append e) ∧ D.Onward p (p.append e)) :
    D.Ensures (intern e) p (fun i q => q.get? i = some e) := by
  constructor
  intro holds
  unfold intern
  cases h : p.find? e with
  | some i => exact ⟨holds, D.refl p, ((indexed holds e i).1 h).1⟩
  | none =>
    by_cases full : maxSlots < p.size + e.width
    · simp only [full, if_true]
      exact ⟨holds, D.refl p⟩
    · simp only [full, if_false]
      obtain ⟨stays, onward⟩ := added holds h (Nat.not_lt.1 full)
      refine ⟨stays, onward, ?_⟩
      have wide := e.one_le_width
      have bound : maxSlots = 65534 := rfl
      rw [get?_append, UInt16.toNat_ofNat', if_pos (by omega)]

instance : Admits growing where
  extends_ := id
  intern {p e} linked readable := ensures_added Sound.indexed fun sound absent room =>
    ⟨sound.append absent room linked readable, extends_append p e⟩

theorem utf8At?_of_get? {i : Index} {text : String}
    (holds : p.get? i = some (.utf8 (Text.ModifiedUtf8.encode text))) :
    p.utf8At? i = some text := by
  rw [utf8At?, holds]
  exact congrArg Except.toOption (Text.ModifiedUtf8.decode_encode text)

theorem resolves_of_utf8At? {i : Index} {text : String} (found : p.utf8At? i = some text) :
    p.Resolves (i, [.utf8]) := by
  unfold utf8At? at found
  split at found
  · rename_i bytes holds
    exact resolves_iff.2 ⟨_, holds, by simp [Entry.tag]⟩
  · cases found

theorem resolves_of_classNameAt? {i : Index} {name : String} (found : p.classNameAt? i = some name) :
    p.Resolves (i, [.classRef]) := by
  unfold classNameAt? at found
  split at found
  · rename_i n holds
    exact resolves_iff.2 ⟨_, holds, by simp [Entry.tag]⟩
  · cases found

theorem resolves_of_nameAndTypeAt? {i : Index} {pair : String × String}
    (found : p.nameAndTypeAt? i = some pair) : p.Resolves (i, [.nameAndType]) := by
  unfold nameAndTypeAt? at found
  split at found
  · rename_i n d holds
    exact resolves_iff.2 ⟨_, holds, by simp [Entry.tag]⟩
  · cases found

theorem resolves_of_literalAt? {i : Index} {l : Literal} (found : p.literalAt? i = some l) :
    p.Resolves (i, Reader.loadable) := by
  cases h : p.get? i with
  | none => simp [literalAt?, h] at found
  | some e =>
    refine resolves_iff.2 ⟨e, h, ?_⟩
    cases e <;> simp [literalAt?, h] at found <;> simp [Entry.tag, Reader.loadable]

variable {D : Discipline Pool} [Admits D]

theorem ensures_utf8 (text : String) : D.Ensures (utf8 text) p
    (fun i q => q.get? i = some (.utf8 (Text.ModifiedUtf8.encode text))) := by
  unfold utf8
  dsimp only
  split
  · exact Ensures.throw _
  · rename_i short
    exact Admits.intern (by simp [Entry.references])
      ⟨Nat.not_lt.1 short, Text.ModifiedUtf8.isForbidden_encode text⟩

theorem ensures_text (text : String) :
    D.Ensures (utf8 text) p (fun i q => q.utf8At? i = some text) :=
  (ensures_utf8 text).mono fun _ _ _ _ holds => utf8At?_of_get? holds

theorem ensures_linked {e : Entry} {gives : Index → Pool → Prop}
    (linked : ∀ link ∈ e.references, p.Resolves link) (readable : e.Readable)
    (reads : ∀ i q, q.Extends p → q.get? i = some e → gives i q) :
    D.Ensures (intern e) p gives :=
  (Admits.intern linked readable).mono fun i q _ onward holds =>
    reads i q (Admits.extends_ onward) holds

theorem ensures_classRef (name : String) : D.Ensures (classRef name) p
    (fun i q => q.classNameAt? i = some (internalName name)) := by
  unfold classRef
  refine (ensures_text (internalName name)).bind fun n q _ _ found => ?_
  apply ensures_linked
  · simp only [Entry.references, List.mem_singleton, forall_eq]
    exact resolves_of_utf8At? found
  · exact True.intro
  · intro i r onward holds
    simp only [classNameAt?, holds]
    exact onward.utf8At? found

theorem ensures_string (value : String) : D.Ensures (string value) p
    (fun i q => q.literalAt? i = some (.string value)) := by
  unfold string
  refine (ensures_text value).bind fun n q _ _ found => ?_
  apply ensures_linked
  · simp only [Entry.references, List.mem_singleton, forall_eq]
    exact resolves_of_utf8At? found
  · exact True.intro
  · intro i r onward holds
    simp only [literalAt?, holds, onward.utf8At? found, Option.map_some]

theorem ensures_nameAndType (name descriptor : String) :
    D.Ensures (nameAndType name descriptor) p
      (fun i q => q.nameAndTypeAt? i = some (name, descriptor)) := by
  unfold nameAndType
  refine (ensures_text name).bind fun n q _ _ named => ?_
  refine (ensures_text descriptor).bind fun d r _ onward typed => ?_
  have named' : r.utf8At? n = some name := (Admits.extends_ onward).utf8At? named
  apply ensures_linked
  · simp only [Entry.references, List.mem_cons, List.not_mem_nil, or_false, forall_eq_or_imp,
      forall_eq]
    exact ⟨resolves_of_utf8At? named', resolves_of_utf8At? typed⟩
  · exact True.intro
  · intro i s onward holds
    simp only [nameAndTypeAt?, holds, onward.utf8At? named', onward.utf8At? typed,
      Option.bind_eq_bind, Option.bind_some, Option.pure_def]

theorem ensures_member (kind : MemberKind) (owner name descriptor : String) :
    D.Ensures (member kind owner name descriptor) p
      (fun i q => q.memberAt? i = some ⟨internalName owner, name, descriptor⟩) := by
  unfold member
  refine (ensures_classRef owner).bind fun c q _ _ owned => ?_
  refine (ensures_nameAndType name descriptor).bind fun nt r _ onward typed => ?_
  have owned' : r.classNameAt? c = some (internalName owner) := (Admits.extends_ onward).classNameAt? owned
  apply ensures_linked
  · simp only [Entry.references, List.mem_cons, List.not_mem_nil, or_false, forall_eq_or_imp,
      forall_eq]
    exact ⟨resolves_of_classNameAt? owned', resolves_of_nameAndTypeAt? typed⟩
  · exact True.intro
  · intro i s onward holds
    simp only [memberAt?, holds, onward.nameAndTypeAt? typed, onward.classNameAt? owned',
      Option.bind_eq_bind, Option.bind_some, Option.pure_def]

theorem joinHalves_halves (bits : UInt64) : joinHalves (highHalf bits) (lowHalf bits) = bits := by
  have bound := bits.toNat_lt
  have high : (highHalf bits).toNat = bits.toNat / 4294967296 := by
    rw [highHalf, UInt32.toNat_ofNat']
    omega
  have low : (lowHalf bits).toNat = bits.toNat % 4294967296 := by
    rw [lowHalf, UInt32.toNat_ofNat']
  rw [joinHalves, high, low, Nat.div_add_mod' bits.toNat 4294967296, UInt64.ofNat_toNat]

theorem ensures_literal (l : Literal) : D.Ensures (literal l) p
    (fun i q => q.literalAt? i = some l) := by
  cases l with
  | string value => exact ensures_string value
  | int v | float bits =>
    apply ensures_linked
    · simp [Entry.references]
    · exact True.intro
    · intro i q _ holds
      simp [literalAt?, holds]
  | long v | double bits =>
    apply ensures_linked
    · simp [Entry.references]
    · exact True.intro
    · intro i q _ holds
      simp [literalAt?, holds, joinHalves_halves]

theorem ensures_methodType (descriptor : String) :
    D.Ensures (methodType descriptor) p Ensures.Anything := by
  unfold methodType
  refine (ensures_text descriptor).bind fun n q _ _ found => ?_
  apply ensures_linked
  · simp only [Entry.references, List.mem_singleton, forall_eq]
    exact resolves_of_utf8At? found
  · exact True.intro
  · exact fun _ _ _ _ => True.intro

theorem ensures_methodHandle (kind : ReferenceKind) (target : Index) :
    D.Ensures (methodHandle kind target) p Ensures.Anything := by
  unfold methodHandle
  refine Ensures.get.bind fun here q _ _ same => ?_
  obtain ⟨rfl, rfl⟩ := same
  dsimp only
  split
  · rename_i fits
    rw [tagAt?, Option.any_map, Option.any_eq_true] at fits
    obtain ⟨e, holds, accepted⟩ := fits
    apply ensures_linked
    · simp only [Entry.references, List.mem_singleton, forall_eq]
      exact resolves_iff.2 ⟨e, holds, by simpa using accepted⟩
    · exact True.intro
    · exact fun _ _ _ _ => True.intro
  · exact Ensures.throw _

theorem ensures_integersFrom (first : Int32) (n : Nat) :
    D.Ensures (integersFrom first n) p Ensures.Anything := by
  induction n generalizing first p with
  | zero => exact Ensures.pure none fun _ => True.intro
  | succ n ih =>
    unfold integersFrom
    refine (ensures_literal (.int first)).bind fun i q _ _ _ => ?_
    exact (ih (first + 1)).andThen fun last r => Ensures.pure _ fun _ => True.intro

theorem ensures_answer (request : Request) :
    D.Ensures request.answer p Ensures.Anything := by
  cases request with
  | utf8 text => exact (ensures_utf8 text).anything
  | classRef name => exact (ensures_classRef name).anything
  | literal value => exact (ensures_literal value).anything
  | nameAndType name descriptor => exact (ensures_nameAndType name descriptor).anything
  | member kind owner name descriptor => exact (ensures_member kind owner name descriptor).anything
  | methodType descriptor => exact ensures_methodType descriptor
  | methodHandle kind target => exact ensures_methodHandle kind target

end Requests
end Pool
end ClassForge
