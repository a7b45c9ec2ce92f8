import ClassForge.Proofs.Format.ClassSpelling
import ClassForge.Proofs.Pool.Resolving

namespace ClassForge

def Entry.numbered (first : Nat) : List Entry → List (Index × Entry)
  | [] => []
  | e :: rest => (UInt16.ofNat first, e) :: numbered (first + e.slots.length) rest

theorem Entry.accepted_ne_nil {e : Entry} {link : Link} (reference : link ∈ e.references) :
    link.2 ≠ [] := by
  cases e with
  | methodHandle kind target => cases kind <;> simp_all [references, ReferenceKind.targets]
  | _ => simp_all [references] <;> grind

theorem Entry.slots_length_pos (e : Entry) : 0 < e.slots.length := by
  unfold slots
  split <;> exact Nat.succ_pos _

namespace Pool

theorem entries_of_zipIdx (es : List Entry) (first : Nat) :
    ((es.flatMap Entry.slots).zipIdx first).filterMap
      (fun x => x.1.map (UInt16.ofNat (x.2 + 1), ·)) = Entry.numbered (first + 1) es := by
  induction es generalizing first with
  | nil => rfl
  | cons e rest ih =>
    have behind := ih (first + e.slots.length)
    rw [List.flatMap_cons, List.zipIdx_append, List.filterMap_append, behind, Entry.numbered,
      Nat.add_right_comm]
    unfold Entry.slots
    split <;> rfl

theorem entries_ofSlots (es : List Entry) :
    (ofSlots (es.flatMap Entry.slots)).entries = Entry.numbered 1 es := by
  rw [← entries_of_zipIdx es 0, entries, OneIndexed.indexed, List.filterMap_map]
  rfl

theorem numbered_append (before after : List Entry) (first : Nat) :
    Entry.numbered first (before ++ after) = Entry.numbered first before ++
      Entry.numbered (first + (before.flatMap Entry.slots).length) after := by
  induction before generalizing first with
  | nil => rfl
  | cons e rest ih =>
    simp only [List.cons_append, Entry.numbered, ih, List.flatMap_cons, List.length_append,
      Nat.add_assoc]

theorem snd_mem_of_numbered {es : List Entry} {first : Nat} {x : Index × Entry}
    (inside : x ∈ Entry.numbered first es) : x.2 ∈ es := by
  induction es generalizing first with
  | nil => cases inside
  | cons e rest ih =>
    rcases List.mem_cons.1 inside with rfl | inside
    · exact List.mem_cons_self
    · exact List.mem_cons_of_mem e (ih inside)

/-- The reference of the entry at the index leads nowhere, and is the first of the entry that does.
No entry at a smaller index has such a reference. -/
structure FirstBroken (p : Pool) (slot : Index) (e : Entry) (link : Link) : Prop where
  holds : p.get? slot = some e
  broken : ¬p.Resolves link
  own : ∃ good more, e.references = good ++ link :: more ∧ ∀ l ∈ good, p.Resolves l
  before : ∀ i x, i < slot → p.get? i = some x → ∀ l ∈ x.references, p.Resolves l

variable {es before after : List Entry} {e : Entry} {slot index : Index} {expected : Tag}
  {others : List Tag}

theorem some_mem_slots {x : Entry} : some x ∈ es.flatMap Entry.slots ↔ x ∈ es := by
  have mem_slots (y : Entry) : some x ∈ y.slots ↔ x = y := by
    unfold Entry.slots
    split <;> simp
  simp only [List.mem_flatMap, mem_slots, exists_eq_right']

theorem eq_of_slot {x : Entry} {i : Nat} (holds : x.slots[i]? = some (some e)) : i = 0 ∧ x = e := by
  unfold Entry.slots at holds
  rcases i with _ | _ | i <;> split at holds <;> simp_all

theorem split_at_slot {i : Nat} (holds : (es.flatMap Entry.slots)[i]? = some (some e)) :
    ∃ before after, es = before ++ e :: after ∧ (before.flatMap Entry.slots).length = i := by
  induction es generalizing i with
  | nil => cases holds
  | cons x rest ih =>
    rw [List.flatMap_cons] at holds
    by_cases inside : i < x.slots.length
    · rw [List.getElem?_append_left inside] at holds
      rcases eq_of_slot holds with ⟨rfl, rfl⟩
      exact ⟨[], rest, rfl, rfl⟩
    · rw [List.getElem?_append_right (by omega)] at holds
      obtain ⟨before, after, rfl, length⟩ := ih holds
      refine ⟨x :: before, after, rfl, ?_⟩
      rw [List.flatMap_cons, List.length_append, length]
      omega

theorem get?_ofSlots_eq_some {slots : List (Option Entry)} :
    (ofSlots slots).get? slot = some e ↔
      ∃ i, slot.toNat = i + 1 ∧ slots[i]? = some (some e) := by
  constructor
  · intro holds
    obtain ⟨positive, -⟩ := toNat_le_size holds
    rw [get?_ofSlots positive, Option.join_eq_some_iff] at holds
    exact ⟨slot.toNat - 1, by omega, holds⟩
  · intro found
    obtain ⟨i, number, holds⟩ := found
    rw [get?_ofSlots (by omega), number, Nat.add_sub_cancel, holds, Option.join_some]

theorem exists_slot (short : (es.flatMap Entry.slots).length ≤ 65534)
    (split : es = before ++ e :: after) :
    ∃ slot : Index, slot.toNat = 1 + (before.flatMap Entry.slots).length ∧
      (ofSlots (es.flatMap Entry.slots)).get? slot = some e := by
  have head : e.slots[0]? = some (some e) := by
    unfold Entry.slots
    split <;> rfl
  have slots : es.flatMap Entry.slots =
      before.flatMap Entry.slots ++ (e.slots ++ after.flatMap Entry.slots) := by
    rw [split, List.flatMap_append, List.flatMap_cons]
  have number : (UInt16.ofNat (1 + (before.flatMap Entry.slots).length)).toNat =
      1 + (before.flatMap Entry.slots).length := by
    rw [slots, List.length_append, List.length_append] at short
    rw [UInt16.toNat_ofNat']
    omega
  refine ⟨_, number, get?_ofSlots_eq_some.2 ⟨_, number.trans (Nat.add_comm _ _), ?_⟩⟩
  rw [slots, List.getElem?_append_right (Nat.le_refl _), Nat.sub_self,
    List.getElem?_append_left e.slots_length_pos, head]

theorem exists_first_failing {α : Type} {P : α → Prop} {xs : List α} (fails : ¬∀ x ∈ xs, P x) :
    ∃ good x more, xs = good ++ x :: more ∧ ¬P x ∧ ∀ y ∈ good, P y := by
  induction xs with
  | nil => exact absurd (by simp) fails
  | cons x rest ih =>
    by_cases passes : P x
    · have others : ¬∀ y ∈ rest, P y := fun all => fails (List.forall_mem_cons.2 ⟨passes, all⟩)
      obtain ⟨good, y, more, rfl, bad, before⟩ := ih others
      exact ⟨x :: good, y, more, rfl, bad, List.forall_mem_cons.2 ⟨passes, before⟩⟩
    · exact ⟨[], x, rest, rfl, passes, by simp⟩

theorem exists_firstBroken (short : (es.flatMap Entry.slots).length ≤ 65534)
    (broken : ¬∀ e ∈ es, ∀ link ∈ e.references,
      (ofSlots (es.flatMap Entry.slots)).Resolves link) :
    ∃ slot e index expected others,
      (ofSlots (es.flatMap Entry.slots)).FirstBroken slot e (index, expected :: others) := by
  obtain ⟨before, e, after, split, bad, passed⟩ := exists_first_failing broken
  obtain ⟨good, ⟨index, accepted⟩, more, own, bad, passed'⟩ := exists_first_failing bad
  have asked : accepted ≠ [] := by
    have inside : (index, accepted) ∈ e.references := by simp [own]
    exact Entry.accepted_ne_nil inside
  obtain ⟨expected, others, rfl⟩ := List.exists_cons_of_ne_nil asked
  obtain ⟨slot, number, holds⟩ := exists_slot short split
  refine ⟨slot, e, index, expected, others, holds, bad, ⟨good, more, own, passed'⟩, ?_⟩
  intro i x smaller holds
  obtain ⟨j, index, holds⟩ := get?_ofSlots_eq_some.1 holds
  have inside : j < (before.flatMap Entry.slots).length := by
    have := UInt16.lt_iff_toNat_lt.1 smaller
    omega
  rw [split, List.flatMap_append, List.getElem?_append_left inside] at holds
  exact passed x (some_mem_slots.1 (List.mem_of_getElem? holds))

theorem FirstBroken.exists_split (short : (es.flatMap Entry.slots).length ≤ 65534) {link : Link}
    (first : (ofSlots (es.flatMap Entry.slots)).FirstBroken slot e link) :
    ∃ before after, es = before ++ e :: after ∧
      slot.toNat = 1 + (before.flatMap Entry.slots).length ∧
      ∀ x ∈ before, ∀ l ∈ x.references, (ofSlots (es.flatMap Entry.slots)).Resolves l := by
  obtain ⟨i, number, holds⟩ := get?_ofSlots_eq_some.1 first.holds
  obtain ⟨before, after, split, rfl⟩ := split_at_slot holds
  refine ⟨before, after, split, by omega, fun x inside => ?_⟩
  obtain ⟨front, back, rfl⟩ := List.append_of_mem inside
  rw [List.append_assoc, List.cons_append] at split
  obtain ⟨j, number', holds'⟩ := exists_slot short split
  refine first.before j x ?_ holds'
  rw [UInt16.lt_iff_toNat_lt, number, number', List.flatMap_append, List.flatMap_cons,
    List.length_append, List.length_append]
  have room := x.slots_length_pos
  omega

theorem FirstBroken.brokenLink? (short : (es.flatMap Entry.slots).length ≤ 65534)
    (first : (ofSlots (es.flatMap Entry.slots)).FirstBroken slot e (index, expected :: others)) :
    (ofSlots (es.flatMap Entry.slots)).brokenLink? = some
      ⟨slot, index, expected, (ofSlots (es.flatMap Entry.slots)).tagAt? index⟩ := by
  obtain ⟨before, after, split, number, resolved⟩ := first.exists_split short
  obtain ⟨good, more, own, passed⟩ := first.own
  have fails := mt any_tagAt?_iff.1 first.broken
  have entries := entries_ofSlots es
  generalize ofSlots (es.flatMap Entry.slots) = p at *
  have passes (referrer : Index) {link : Link} (resolves : p.Resolves link) :
      (if (p.tagAt? link.1).any (link.2.contains ·) then none
        else some (⟨referrer, link.1, link.2.headD .utf8, p.tagAt? link.1⟩ : LinkFault)) = none :=
    if_pos (any_tagAt?_iff.2 resolves)
  rw [split, numbered_append, Entry.numbered, ← number, UInt16.ofNat_toNat] at entries
  refine List.findSome?_eq_some_iff.2 ⟨_, _, _, entries, ?_, ?_⟩
  · refine List.findSome?_eq_some_iff.2 ⟨good, (index, expected :: others), more, own, ?_, ?_⟩
    · exact if_neg fails
    · exact fun link inside => passes _ (passed link inside)
  · intro x inside
    refine List.findSome?_eq_none_iff.2 fun link inside' => ?_
    exact passes x.1 (resolved _ (snd_mem_of_numbered inside) link inside')

end Pool

namespace Reader

theorem all_entry_iff {es : List Entry} {us : List UInt8} :
    Spelling.all Spelling.entry es us ↔ (∀ e ∈ es, e.Readable) ∧ us = es.flatMap Entry.bytes := by
  induction es generalizing us with
  | nil => simp [Spelling.all]
  | cons e rest ih =>
    simp only [Spelling.all, ih, Spelling.entry, List.forall_mem_cons, List.flatMap_cons]
    constructor
    · intro spelled
      obtain ⟨_, _, ⟨readable, rfl⟩, ⟨others, rfl⟩, rfl⟩ := spelled
      exact ⟨⟨readable, others⟩, rfl⟩
    · intro spelled
      obtain ⟨⟨readable, others⟩, rfl⟩ := spelled
      exact ⟨_, _, ⟨readable, rfl⟩, ⟨others, rfl⟩, rfl⟩

theorem bind_of_ok {α β : Type} {r : Reader α} {k : α → Reader β} {c c' : Cursor} {a : α}
    (read : r c = .ok (a, c')) : (r >>= k) c = k a c' := by
  change (r c >>= fun y => k y.1 y.2) = _
  rw [read]
  rfl

def placed (start : Nat) : List Entry → PlacedSlots
  | [] => []
  | e :: rest => e.slots.map (start, ·) ++ placed (start + e.bytes.length) rest

theorem placed_append (before after : List Entry) (start : Nat) :
    placed start (before ++ after) =
      placed start before ++ placed (start + (before.flatMap Entry.bytes).length) after := by
  induction before generalizing start with
  | nil => rfl
  | cons e rest ih =>
    simp only [List.cons_append, placed, ih, List.flatMap_cons, List.length_append,
      List.append_assoc, Nat.add_assoc]

theorem map_snd_placed (es : List Entry) (start : Nat) :
    (placed start es).map (·.2) = es.flatMap Entry.slots := by
  induction es generalizing start with
  | nil => rfl
  | cons e rest ih =>
    rw [placed, List.map_append, List.map_map, ih, List.flatMap_cons]
    exact congrArg (· ++ _) (List.map_id _)

theorem length_placed (es : List Entry) (start : Nat) :
    (placed start es).length = (es.flatMap Entry.slots).length := by
  rw [← map_snd_placed es start, List.length_map]

theorem placed_behind (before after : List Entry) (e : Entry) (start : Nat) :
    ((placed start (before ++ e :: after)).map (·.1))[(before.flatMap Entry.slots).length]? =
      some (start + (before.flatMap Entry.bytes).length) := by
  have passed : ((placed start before).map (·.1)).length = (before.flatMap Entry.slots).length := by
    rw [List.length_map, length_placed]
  rw [placed_append, List.map_append, List.getElem?_append_right (Nat.le_of_eq passed), passed,
    Nat.sub_self, placed, Entry.slots]
  split <;> rfl

theorem entries_go_placed {es : List Entry} (readable : ∀ e ∈ es, e.Readable) (total start : Nat)
    (rest : List UInt8) (read : PlacedSlots) :
    entries.go total (es.flatMap Entry.slots).length read
        ⟨start, es.flatMap Entry.bytes ++ rest⟩ =
      .ok (read.reverse ++ placed start es, ⟨start + (es.flatMap Entry.bytes).length, rest⟩) := by
  induction es generalizing start read with
  | nil =>
    simp only [List.flatMap_nil, List.length_nil, placed, List.append_nil]
    rfl
  | cons e es ih =>
    rw [List.forall_mem_cons] at readable
    have first : entry ⟨start, e.bytes ++ (es.flatMap Entry.bytes ++ rest)⟩ =
        .ok (e, ⟨start + e.bytes.length, es.flatMap Entry.bytes ++ rest⟩) :=
      (Follows.entry _ _ _).2 ⟨e.bytes, ⟨readable.1, rfl⟩, rfl, rfl⟩
    have others := ih readable.2 (start + e.bytes.length)
    rw [List.flatMap_cons, List.flatMap_cons, List.length_append, List.append_assoc, placed]
    by_cases wide : e.isWide = true
    · have slots : e.slots = [some e, none] := if_pos wide
      rw [slots, List.length_cons, List.length_singleton, Nat.add_comm, entries.go, bind_of_ok rfl,
        bind_of_ok first, if_pos wide]
      dsimp only
      rw [others]
      simp [Nat.add_assoc]
    · have slots : e.slots = [some e] := if_neg wide
      rw [slots, List.length_singleton, Nat.add_comm, entries.go, bind_of_ok rfl,
        bind_of_ok first, if_neg wide, others]
      simp [Nat.add_assoc]

/-- The header of a class file and the entries of its pool. Where their references lead is left
open. -/
def opening : Reader (UInt16 × UInt16 × PlacedSlots) := do
  magic
  let start ← offset
  let minor ← u16
  let major ← u16
  if major < oldestMajor ∨ newestMajor < major then
    failAt start (.unsupportedVersion major minor)
  else
    let start ← offset
    let count ← u16
    if count = 0 then failAt start (.badPoolCount 0)
    else
      let placed ← entries (count.toNat - 1)
      return (minor, major, placed)

def linking (placed : PlacedSlots) : Reader Pool :=
  let p := Pool.ofSlots (placed.map (·.2))
  match p.brokenLink? with
  | some link =>
    failAt ((placed.map (·.1)).toArray.getD (link.referrer.toNat - 1) 0) (linkReason link)
  | none => return p

theorem classFile_eq : classFile = (do
    let (minor, major, placed) ← opening
    let p ← linking placed
    after (·.push (.readPool p.size)) (classBody minor major p)) := by
  unfold classFile opening pool linking
  simp only [bind_assoc]
  refine congrArg _ (funext fun _ => congrArg _ (funext fun start => congrArg _ (funext fun minor =>
    congrArg _ (funext fun major => ?_))))
  split
  · rfl
  · simp only [bind_assoc]
    refine congrArg _ (funext fun start => congrArg _ (funext fun count => ?_))
    split
    · rfl
    · simp only [bind_assoc]
      rfl

end Reader

namespace ClassFile

open Reader (opening placed)

/-- The bytes are those of a header, of the number of slots, and of entries one behind the other
that can be read. -/
structure Opens (minor major : UInt16) (entries : List Entry) (rest bytes : List UInt8) :
    Prop where
  version : Reader.oldestMajor ≤ major ∧ major ≤ Reader.newestMajor
  readable : ∀ e ∈ entries, e.Readable
  few : (entries.flatMap Entry.slots).length ≤ 65534
  bytes : bytes = Bytes.ofU32 Reader.magicNumber ++ (Bytes.ofU16 minor ++ (Bytes.ofU16 major ++
    (Bytes.ofU16 (UInt16.ofNat ((entries.flatMap Entry.slots).length + 1)) ++
      (entries.flatMap Entry.bytes ++ rest))))

variable {minor major : UInt16} {es : List Entry} {rest bytes : List UInt8}

theorem Opens.opening (opens : Opens minor major es rest bytes) : opening ⟨0, bytes⟩ =
    .ok ((minor, major, placed 10 es), ⟨10 + (es.flatMap Entry.bytes).length, rest⟩) := by
  have count : (UInt16.ofNat ((es.flatMap Entry.slots).length + 1)).toNat =
      (es.flatMap Entry.slots).length + 1 := by
    have few := opens.few
    rw [UInt16.toNat_ofNat']
    omega
  have positive : UInt16.ofNat ((es.flatMap Entry.slots).length + 1) ≠ 0 := by
    intro zero
    rw [zero] at count
    cases count
  have u16 (n : UInt16) (place : Nat) (us : List UInt8) :
      Reader.u16 ⟨place, Bytes.ofU16 n ++ us⟩ = .ok (n, ⟨place + 2, us⟩) :=
    (Reader.Follows.u16 _ _ _).2 ⟨_, rfl, rfl, rfl⟩
  have magic (us : List UInt8) : Reader.magic ⟨0, Bytes.ofU32 Reader.magicNumber ++ us⟩ =
      .ok ((), ⟨4, us⟩) := (Reader.Follows.magic _ _ _).2 ⟨_, rfl, rfl, rfl⟩
  have version : ¬(major < Reader.oldestMajor ∨ Reader.newestMajor < major) := by
    simpa only [not_or, UInt16.not_lt] using opens.version
  rw [opens.bytes, Reader.opening, Reader.bind_of_ok (magic _), Reader.bind_of_ok rfl,
    Reader.bind_of_ok (u16 minor _ _), Reader.bind_of_ok (u16 major _ _), if_neg version,
    Reader.bind_of_ok rfl, Reader.bind_of_ok (u16 _ _ _), if_neg positive, count,
    Nat.add_sub_cancel, Reader.entries,
    Reader.bind_of_ok (Reader.entries_go_placed opens.readable _ _ rest [])]
  rfl

theorem exists_opens {read : Reader.PlacedSlots} {left : Cursor}
    (opened : opening ⟨0, bytes⟩ = .ok ((minor, major, read), left)) :
    ∃ es, Opens minor major es left.bytes bytes := by
  obtain ⟨_, c₁, first, opened⟩ := Reader.bind_eq_ok.1 opened
  obtain ⟨_, _, here, opened⟩ := Reader.bind_eq_ok.1 opened
  cases here
  obtain ⟨_, c₂, second, opened⟩ := Reader.bind_eq_ok.1 opened
  obtain ⟨_, c₃, third, opened⟩ := Reader.bind_eq_ok.1 opened
  obtain ⟨us, rfl, magic, -⟩ := (Reader.Follows.magic _ _ _).1 first
  obtain ⟨us, rfl, minor', -⟩ := (Reader.Follows.u16 _ _ _).1 second
  obtain ⟨us, rfl, major', -⟩ := (Reader.Follows.u16 _ _ _).1 third
  split at opened
  · cases opened
  · rename_i version
    obtain ⟨_, _, here, opened⟩ := Reader.bind_eq_ok.1 opened
    cases here
    obtain ⟨count, c₄, fourth, opened⟩ := Reader.bind_eq_ok.1 opened
    obtain ⟨us, rfl, count', -⟩ := (Reader.Follows.u16 _ _ _).1 fourth
    split at opened
    · cases opened
    · rename_i positive
      obtain ⟨read', c₅, last, opened⟩ := Reader.bind_eq_ok.1 opened
      cases opened
      obtain ⟨us, ⟨length, es, taken, spelled⟩, entries, -⟩ :=
        (Reader.Follows.entries _ _ _ _).1 (Reader.map_eq_ok.2 ⟨_, last, rfl⟩)
      obtain ⟨readable, rfl⟩ := Reader.all_entry_iff.1 spelled
      have nonzero : count.toNat ≠ 0 := fun zero => positive (UInt16.toNat_inj.1 zero)
      have bound := count.toNat_lt
      have slots : (es.flatMap Entry.slots).length = count.toNat - 1 := by rw [← taken, length]
      refine ⟨es, by simpa only [not_or, UInt16.not_lt] using version, readable, by omega, ?_⟩
      have next : count.toNat - 1 + 1 = count.toNat := by omega
      rw [slots, next, UInt16.ofNat_toNat, ← entries, ← count', ← major', ← minor', ← magic]

theorem Opens.classFile (opens : Opens minor major es rest bytes) :
    Reader.classFile ⟨0, bytes⟩ = (do
      let p ← Reader.linking (placed 10 es)
      Reader.after (·.push (.readPool p.size)) (Reader.classBody minor major p))
        ⟨10 + (es.flatMap Entry.bytes).length, rest⟩ := by
  rw [Reader.classFile_eq, Reader.bind_of_ok opens.opening]

theorem Opens.parse_broken (opens : Opens minor major es rest bytes) {slot index : Index}
    {e : Entry} {expected : Tag} {others : List Tag}
    (first : (Pool.ofSlots (es.flatMap Entry.slots)).FirstBroken slot e
      (index, expected :: others)) :
    ∃ before after, es = before ++ e :: after ∧
      slot.toNat = 1 + (before.flatMap Entry.slots).length ∧
      bytes[10 + (before.flatMap Entry.bytes).length]? = some e.tag.byte ∧
      parse bytes = .error (.malformedClass (10 + (before.flatMap Entry.bytes).length)
        (((Pool.ofSlots (es.flatMap Entry.slots)).tagAt? index).elim (.noEntry index)
          (.wrongTag index expected))) := by
  have fault := first.brokenLink? opens.few
  obtain ⟨before, after, split, number, -⟩ := first.exists_split opens.few
  refine ⟨before, after, split, number, ?_, ?_⟩
  · have before_tag : bytes = (Bytes.ofU32 Reader.magicNumber ++ Bytes.ofU16 minor ++
        Bytes.ofU16 major ++ Bytes.ofU16 (UInt16.ofNat ((es.flatMap Entry.slots).length + 1)) ++
        before.flatMap Entry.bytes) ++
        (e.tag.byte :: (e.payload ++ after.flatMap Entry.bytes ++ rest)) := by
      rw [opens.bytes]
      simp [split, Entry.bytes]
    rw [before_tag, List.getElem?_append_right (by rw [List.length_append]; exact Nat.le_refl _),
      List.length_append]
    exact congrArg _ (Nat.sub_self _)
  · have place : ((placed 10 es).map (·.1)).toArray.getD (slot.toNat - 1) 0 =
        10 + (before.flatMap Entry.bytes).length := by
      rw [number, Nat.add_sub_cancel_left, split, Array.getD_eq_getD_getElem?,
        List.getElem?_toArray, Reader.placed_behind, Option.getD_some]
    have linked : Reader.linking (placed 10 es) = Reader.failAt
        (10 + (before.flatMap Entry.bytes).length)
        (((Pool.ofSlots (es.flatMap Entry.slots)).tagAt? index).elim (.noEntry index)
          (.wrongTag index expected)) := by
      rw [Reader.linking, Reader.map_snd_placed, fault]
      dsimp only
      rw [place, Reader.linkReason]
      cases (Pool.ofSlots (es.flatMap Entry.slots)).tagAt? index <;> rfl
    rw [parse, read, opens.classFile, linked]
    rfl

/-- What becomes of the pool of the entries. The first reference that leads nowhere is told with
what it leads to, at the tag of the entry that holds it. Where every reference leads somewhere,
before its entry or behind it, the pool is accepted and the rest of the class is read. -/
structure LinksChecked (minor major : UInt16) (entries : List Entry) (left : Cursor)
    (bytes : List UInt8) (p : Pool) : Prop where
  pool : p = Pool.ofSlots (entries.flatMap Entry.slots)
  resolved_or_broken : (∀ e ∈ entries, ∀ link ∈ e.references, p.Resolves link) ∨
    ∃ slot e index expected others, p.FirstBroken slot e (index, expected :: others)
  broken {slot index : Index} {e : Entry} {expected : Tag} {others : List Tag}
    (first : p.FirstBroken slot e (index, expected :: others)) : ∃ before after,
      entries = before ++ e :: after ∧ slot.toNat = 1 + (before.flatMap Entry.slots).length ∧
      bytes[10 + (before.flatMap Entry.bytes).length]? = some e.tag.byte ∧
      parse bytes = .error (.malformedClass (10 + (before.flatMap Entry.bytes).length)
        ((p.tagAt? index).elim (.noEntry index) (.wrongTag index expected)))
  resolved (all : ∀ e ∈ entries, ∀ link ∈ e.references, p.Resolves link) :
    Reader.classFile ⟨0, bytes⟩ =
      Reader.after (·.push (.readPool p.size)) (Reader.classBody minor major p) left

theorem links_checked {read : Reader.PlacedSlots} {left : Cursor}
    (opened : opening ⟨0, bytes⟩ = .ok ((minor, major, read), left)) :
    ∃ entries p, Opens minor major entries left.bytes bytes ∧
      LinksChecked minor major entries left bytes p := by
  obtain ⟨es, opens⟩ := exists_opens opened
  refine ⟨es, _, opens, rfl, ?_, opens.parse_broken, fun all => ?_⟩
  · by_cases all : ∀ e ∈ es, ∀ link ∈ e.references,
        (Pool.ofSlots (es.flatMap Entry.slots)).Resolves link
    · exact .inl all
    · exact .inr (Pool.exists_firstBroken opens.few all)
  · have unbroken : (Pool.ofSlots (es.flatMap Entry.slots)).brokenLink? = none := by
      refine Pool.brokenLink?_eq_none.2 fun e inside => all e (Pool.some_mem_slots.1 ?_)
      exact inside
    have linked (c : Cursor) : Reader.linking (placed 10 es) c =
        .ok (Pool.ofSlots (es.flatMap Entry.slots), c) := by
      rw [Reader.linking, Reader.map_snd_placed, unbroken]
      rfl
    obtain ⟨-, same⟩ := Prod.mk.inj (Except.ok.inj (opens.opening.symm.trans opened))
    rw [opens.classFile, Reader.bind_of_ok (linked _), same]

/-- A reference to a number, behind an entry that fills two slots. -/
def brokenBehindWide : List UInt8 :=
  [0xca, 0xfe, 0xba, 0xbe, 0, 0, 0, 52, 0, 5, 5, 0, 0, 0, 0, 0, 0, 0, 7, 7, 0, 4, 3, 0, 0, 0, 9]

theorem links_checked_behind_wide :
    opening ⟨0, brokenBehindWide⟩ = .ok ((0, 52, [(10, some (.long 0 7)), (10, none),
      (19, some (.classRef 4)), (22, some (.integer 9))]), ⟨27, []⟩) ∧
    parse brokenBehindWide = .error (.malformedClass 19 (.wrongTag 4 .utf8 .integer)) ∧
    ∃ entries p, Opens 0 52 entries [] brokenBehindWide ∧
      LinksChecked 0 52 entries ⟨27, []⟩ brokenBehindWide p := by
  have opened : opening ⟨0, brokenBehindWide⟩ = .ok ((0, 52, [(10, some (.long 0 7)), (10, none),
      (19, some (.classRef 4)), (22, some (.integer 9))]), ⟨27, []⟩) := rfl
  exact ⟨opened, rfl, links_checked opened⟩

end ClassFile
end ClassForge
