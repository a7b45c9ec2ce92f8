import ClassForge.Proofs.Format.AttributeWriting
import ClassForge.Proofs.Pool.Changes

namespace ClassForge

namespace Writer

open Outcome

variable {p : Pool}

theorem spelled_of_attributes (indexed : p.Indexed) {as : List Attribute} {us : List UInt8}
    (readable : ∀ b ∈ Attribute.nestedAll as, b.Readable p) (written : attributes p as = .ok us) :
    Spelling.table (Attribute.Spelled p.get?) as us := by
  simp only [attributes, guard_eq_ok, bind_eq_ok, pure_eq_ok, Nat.not_lt] at written
  obtain ⟨few, parts, hparts, rfl⟩ := written
  have inside := allSpelled_of_attributeParts indexed as readable hparts
  exact ⟨few, parts, (Attribute.allSpelled_iff _ _ _).1 inside, rfl⟩

theorem spelled_of_member (indexed : p.Indexed) {m : Member} {us : List UInt8}
    (readable : ∀ b ∈ Attribute.nestedAll m.attributes, b.Readable p)
    (written : member p m = .ok us) : Spelling.member p.get? m us := by
  simp only [member, bind_eq_ok, pure_eq_ok] at written
  obtain ⟨n, hn, d, hd, v, hv, rfl⟩ := written
  exact ⟨n, d, v, (index_spells p _ _ _).1 hn, (index_spells p _ _ _).1 hd,
    spelled_of_attributes indexed readable hv, rfl⟩

theorem spelled_of_members (indexed : p.Indexed) {name : Table} {ms : List Member}
    {us : List UInt8}
    (readable : ∀ m ∈ ms, ∀ b ∈ Attribute.nestedAll m.attributes, b.Readable p)
    (written : table name (member p) ms = .ok us) :
    Spelling.table (Spelling.member p.get?) ms us := by
  have exactly := table_spells name (F := fun m us => member p m = .ok us) fun _ _ => Iff.rfl
  exact Spelling.table_mono (fun m hm _ hu => spelled_of_member indexed (readable m hm) hu)
    ((exactly ms us).1 written)

end Writer

namespace ClassFile

def everyAttribute (c : ClassFile) : List Attribute :=
  (c.fields ++ c.methods).flatMap (fun m => Attribute.nestedAll m.attributes) ++
    Attribute.nestedAll c.attributes

structure Readable (c : ClassFile) : Prop where
  oldest : Reader.oldestMajor ≤ c.major
  newest : c.major ≤ Reader.newestMajor
  laidOut : c.pool.LaidOut
  linked : c.pool.brokenLink? = none
  clean : ∀ bs, some (Entry.utf8 bs) ∈ c.pool.slots.toList →
    ∀ b ∈ bs, Text.ModifiedUtf8.isForbidden b = false
  members : c.MembersReadable
  attributes : ∀ a ∈ c.everyAttribute, a.Readable c.pool

/-- The class file with its pool as it is read back. -/
def reread (c : ClassFile) : ClassFile := { c with pool := .ofSlots c.pool.slots.toList }

theorem same_reread (c : ClassFile) : c.reread.same c = true := by
  have slots : (Pool.ofSlots c.pool.slots.toList).slots = c.pool.slots := rfl
  simp [same, reread, Pool.same, slots]

end ClassFile

open Outcome ClassFile

theorem Writer.pool_spelled {p : Pool} {us : List UInt8} (laidOut : p.LaidOut)
    (linked : p.brokenLink? = none)
    (clean : ∀ bs, some (Entry.utf8 bs) ∈ p.slots.toList →
      ∀ b ∈ bs, Text.ModifiedUtf8.isForbidden b = false)
    (written : Writer.pool p = .ok us) : Spelling.pool (.ofSlots p.slots.toList) us := by
  obtain ⟨es, hes⟩ := laidOut.exists_entries
  obtain ⟨small, v, hv, rfl⟩ := (Writer.pool_eq_ok p).1 written
  have size : p.slots.toList.length = p.size := by simp [Pool.size, OneIndexed.size, OneIndexed.toList]
  rw [hes, Pool.filterMap_slots] at hv
  refine ⟨p.slots.toList, v, rfl, by rw [size]; exact small, ⟨es, hes, ?_⟩, linked, by rw [size]⟩
  refine Spelling.all_mono (fun e he u hu => ⟨?_, hu.2⟩) hv
  cases e with
  | utf8 bs =>
    refine ⟨hu.1 bs rfl, clean bs ?_⟩
    rw [hes]
    exact List.mem_flatMap.2 ⟨_, he, List.mem_singleton.2 rfl⟩
  | _ => exact True.intro

theorem ClassFile.parts_of_write {c : ClassFile} {bytes : List UInt8} (indexed : c.pool.Indexed)
    (written : c.write = .ok bytes) (laidOut : c.pool.LaidOut) (linked : c.pool.brokenLink? = none)
    (clean : ∀ bs, some (Entry.utf8 bs) ∈ c.pool.slots.toList →
      ∀ b ∈ bs, Text.ModifiedUtf8.isForbidden b = false)
    (attributes : ∀ a ∈ c.everyAttribute, a.Readable c.pool) :
    ∃ poolBytes body, Spelling.pool c.reread.pool poolBytes ∧
      Spelling.classBody c.reread.pool.get? c.reread body ∧
      bytes = Bytes.ofU32 Reader.magicNumber ++ Bytes.ofU16 c.minor ++ Bytes.ofU16 c.major ++
        poolBytes ++ body := by
  simp only [write, Writer.classFile, bind_eq_ok, pure_eq_ok] at written
  obtain ⟨poolBytes, hpool, this, hthis, super, hsuper, interfaces, hinterfaces, fields, hfields,
    methods, hmethods, attributes', hattributes, rfl⟩ := written
  simp only [everyAttribute, List.mem_append, List.mem_flatMap] at attributes
  have ofFields : ∀ m ∈ c.fields, ∀ b ∈ Attribute.nestedAll m.attributes, b.Readable c.pool :=
    fun m hm b hb => attributes b (.inl ⟨m, .inl hm, hb⟩)
  have ofMethods : ∀ m ∈ c.methods, ∀ b ∈ Attribute.nestedAll m.attributes, b.Readable c.pool :=
    fun m hm b hb => attributes b (.inl ⟨m, .inr hm, hb⟩)
  have ofClass : ∀ b ∈ Attribute.nestedAll c.attributes, b.Readable c.pool :=
    fun b hb => attributes b (.inr hb)
  refine ⟨poolBytes, _, Writer.pool_spelled laidOut linked clean hpool,
    ⟨this, super, interfaces, fields, methods, attributes',
      (Writer.index_spells _ _ _ _).1 hthis, (Writer.indexOrZero_spells _ _ _ _).1 hsuper,
      (Writer.table_spells _ (Writer.index_spells _ _) _ _).1 hinterfaces,
      Writer.spelled_of_members indexed ofFields hfields,
      Writer.spelled_of_members indexed ofMethods hmethods,
      Writer.spelled_of_attributes indexed ofClass hattributes, rfl⟩, ?_⟩
  simp [reread]

theorem ClassFile.spelled_of_write {c : ClassFile} {bytes : List UInt8} (indexed : c.pool.Indexed)
    (written : c.write = .ok bytes) (readable : c.Readable) : c.reread.Spelled bytes := by
  obtain ⟨poolBytes, body, hpool, hbody, rfl⟩ := parts_of_write indexed written readable.laidOut
    readable.linked readable.clean readable.attributes
  exact ⟨readable.oldest, readable.newest, readable.members, poolBytes, body, hpool, hbody, rfl⟩

/-- Reading undoes writing, unless the pool was given more slots than there are indices. -/
theorem ClassFile.parse_write {c : ClassFile} {given : Nat} {bytes : List UInt8}
    (reached : Pool.Reached given c.pool) (few : given ≤ 65535) (written : c.write = .ok bytes)
    (readable : c.Readable) : ∃ d, parse bytes = .ok d ∧ d.same c = true := by
  -- The pool of `c` may be built in any way, and is read back as if made of its slots.
  have indexed := (reached.agreeing few).indexed
  exact ⟨c.reread, parse_eq_ok.2 (spelled_of_write indexed written readable), same_reread c⟩

namespace ClassFile

/-- A class with one method, whose code lies inside its own handler. -/
def guarded : ClassFile where
  minor := 0
  major := 52
  pool := .ofSlots ([.utf8 [65], .classRef 1, .utf8 [109], .long 0 1, .utf8 [40, 41, 86],
    .utf8 Attribute.Kind.code.bytes].flatMap Entry.slots)
  access := 33
  thisClass := 2
  superClass := 0
  interfaces := []
  fields := []
  methods := [⟨9, 3, 6, [.code ⟨1, 0, [0xb1], [⟨0, 1, 0, 2⟩], []⟩]⟩]
  attributes := []

theorem readable_guarded : guarded.Readable where
  oldest := by decide
  newest := by decide
  laidOut := Pool.laidOut_ofSlots _
  linked := by decide +kernel
  clean := by
    intro bs member
    simp [guarded, Pool.ofSlots, OneIndexed.ofList, OneIndexed.toList, Entry.slots,
      Entry.isWide] at member
    rcases member with rfl | rfl | rfl | rfl <;> decide +kernel
  members := by
    refine ⟨by simp [guarded], ?_⟩
    intro m hm
    obtain rfl := List.mem_singleton.1 hm
    exact ⟨⟨"m", by rfl⟩, "()V", by rfl, by decide +kernel⟩
  attributes := by
    intro a ha
    obtain rfl := List.mem_singleton.1 ha
    intro h hh
    obtain rfl := List.mem_singleton.1 hh
    decide

theorem parse_write_guarded : ∃ bytes d, guarded.write = .ok bytes ∧ parse bytes = .ok d ∧
    d.same guarded = true := by
  obtain ⟨bytes, written⟩ : ∃ bytes, guarded.write = .ok bytes := ⟨_, rfl⟩
  obtain ⟨d, read, same⟩ := parse_write (.ofSlots _) (by decide) written readable_guarded
  exact ⟨bytes, d, written, read, same⟩

def threeEntries : List Entry := [.utf8 [67], .classRef 1, .utf8 [120]]

def marked (pool : Pool) (a : Attribute) : ClassFile where
  minor := 0
  major := 52
  pool := pool
  access := 33
  thisClass := 2
  superClass := 0
  interfaces := []
  fields := []
  methods := []
  attributes := [a]

def syntheticName : Entry := .utf8 Attribute.Kind.synthetic.bytes

/-- What is left when the name of an attribute is cut off, and empty slots in front of it. -/
def cutOff (empty : Nat) : Pool :=
  .truncate (.ofSlots (threeEntries.map some ++ (List.replicate empty none ++ [some syntheticName]))) 3

variable {n : Nat}

theorem slots_cutOff (n : Nat) : (cutOff n).slots = .ofList (threeEntries.map some) :=
  Pool.slots_truncate_ofSlots (by simp)

theorem reached_cutOff (n : Nat) (a : Attribute) :
    Pool.Reached (n + 4) (marked (cutOff n) a).pool := by
  have length : (threeEntries.map some ++ (List.replicate n none ++ [some syntheticName])).length =
      n + 4 := by
    simp [threeEntries]
  exact length ▸ (Pool.Reached.ofSlots _).change (.truncate 3)

/-- An index that wraps around to one in front of the cut is still found. -/
theorem find?_cutOff (wraps : UInt16.ofNat (n + 4) = 3) :
    (cutOff n).find? syntheticName = some 3 := by
  refine (Pool.find?_truncate ..).2 ⟨?_, .inl (by decide)⟩
  have absent : some syntheticName ∉ threeEntries.map some ++ List.replicate n none := by
    rw [List.mem_append, not_or]
    refine ⟨by decide, fun inside => ?_⟩
    cases List.eq_of_mem_replicate inside
  have last : (threeEntries.map some ++ List.replicate n none).length + 1 = n + 4 := by
    simp [threeEntries]
  rw [← List.append_assoc, Pool.find?_ofSlots_concat, Pool.find?_ofSlots_of_not_mem absent,
    if_pos rfl, last, wraps]
  rfl

theorem write_marked {p : Pool} (slots : p.slots = .ofList (threeEntries.map some))
    (found : p.find? syntheticName = some 3) : (marked p .synthetic).write =
      (marked (.ofSlots (threeEntries.map some)) (.other 3 [])).write := by
  have named : Writer.name p .synthetic =
      Writer.name (.ofSlots (threeEntries.map some)) (.other 3 []) := by
    rw [syntheticName] at found
    simp only [Writer.name, Attribute.kind?, Option.bind_some, found]
    rfl
  obtain ⟨_, lookup⟩ := p
  subst slots
  simp only [write, Writer.classFile, marked, Writer.attributes, Writer.attributeParts, named]
  rfl

theorem readable_marked {p : Pool} (slots : p.slots = .ofList (threeEntries.map some)) :
    (marked p .synthetic).Readable := by
  have linked : (Pool.ofSlots (threeEntries.map some)).brokenLink? = none := by decide +kernel
  obtain ⟨_, lookup⟩ := p
  subst slots
  refine ⟨(by decide : Reader.oldestMajor ≤ 52), (by decide : 52 ≤ Reader.newestMajor),
    Pool.laidOut_ofSlots threeEntries, linked, ?_, ⟨by simp [marked], by simp [marked]⟩, ?_⟩
  · intro bs member
    simp [marked, threeEntries, OneIndexed.ofList, OneIndexed.toList] at member
    rcases member with rfl | rfl <;> decide +kernel
  · intro a ha
    obtain rfl := List.mem_singleton.1 ha
    exact True.intro

theorem misread_marked {p : Pool} (slots : p.slots = .ofList (threeEntries.map some))
    (found : p.find? syntheticName = some 3) : ∃ bytes d, (marked p .synthetic).write = .ok bytes ∧
      parse bytes = .ok d ∧ d.same (marked p .synthetic) = false := by
  obtain ⟨bytes, written⟩ : ∃ bytes,
      (marked (.ofSlots (threeEntries.map some)) (.other 3 [])).write = .ok bytes := ⟨_, rfl⟩
  have reads : (parse bytes).toOption.any (fun d => d.attributes == [.other 3 []]) = true := by
    cases written
    decide +kernel
  obtain ⟨d, read, other⟩ := Outcome.exists_of_any reads
  have different : (d.attributes == (marked p .synthetic).attributes) = false := by
    rw [eq_of_beq other]
    rfl
  refine ⟨bytes, d, (write_marked slots found).trans written, read, ?_⟩
  rw [same, different, Bool.and_false]

/-- In a pool that was given more slots than there are indices, a name that was cut off can be
found where another one stands. -/
theorem parse_write_cutOff : let c := marked (cutOff 65535) .synthetic
    Pool.Reached 65539 c.pool ∧ c.Readable ∧
      ∃ bytes d, c.write = .ok bytes ∧ parse bytes = .ok d ∧ d.same c = false :=
  ⟨reached_cutOff 65535 .synthetic, readable_marked (slots_cutOff 65535),
    misread_marked (slots_cutOff 65535) (find?_cutOff (by decide))⟩

end ClassFile
end ClassForge
