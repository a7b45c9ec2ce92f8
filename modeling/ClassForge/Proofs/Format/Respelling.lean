import ClassForge.Proofs.Format.Links
import ClassForge.Proofs.Format.NamePlaces

namespace ClassForge

/-- Bytes from `start` on, the names at some places in them, and the same bytes with these names
by their first index. -/
inductive Respelled (p : Pool) :
    Nat → List (Nat × Attribute.Kind) → List UInt8 → List UInt8 → Prop where
  | same (start : Nat) (us : List UInt8) : Respelled p start [] us us
  | name (start : Nat) {k : Attribute.Kind} {i j : Index} (holds : p.get? i = some (.utf8 k.bytes))
    (first : p.First (.utf8 k.bytes) j) :
    Respelled p start [(start, k)] (Bytes.ofU16 i) (Bytes.ofU16 j)
  | append {start next : Nat} {P Q : List (Nat × Attribute.Kind)} {us us' vs vs' : List UInt8}
    (left : Respelled p start P us us') (behind : next = start + us.length)
    (right : Respelled p next Q vs vs') : Respelled p start (P ++ Q) (us ++ vs) (us' ++ vs')

namespace Respelled

variable {p : Pool} {start : Nat} {P : List (Nat × Attribute.Kind)} {us us' : List UInt8}

theorem length_eq (respelled : Respelled p start P us us') : us'.length = us.length := by
  induction respelled with
  | same => rfl
  | name => rfl
  | append _ _ _ left right => rw [List.length_append, List.length_append, left, right]

theorem before (ws : List UInt8) {next : Nat} (behind : next = start + ws.length)
    (respelled : Respelled p next P us us') : Respelled p start P (ws ++ us) (ws ++ us') :=
  append (same start ws) behind respelled

theorem after (ws : List UInt8) (respelled : Respelled p start P us us') :
    Respelled p start P (us ++ ws) (us' ++ ws) := by
  have longer := append respelled rfl (same _ ws)
  rwa [List.append_nil] at longer

theorem drop_left {vs : List UInt8} {n : Nat} {i : Index}
    (here : (us.drop n).take 2 = Bytes.ofU16 i) : ((us ++ vs).drop n).take 2 = Bytes.ofU16 i := by
  have length := congrArg List.length here
  rw [List.length_take, List.length_drop, Bytes.length_ofU16] at length
  rw [List.drop_append_of_le_length (by omega), List.take_append_of_le_length, here]
  rw [List.length_drop]
  omega

theorem drop_right {vs : List UInt8} (n : Nat) : (us ++ vs).drop (us.length + n) = vs.drop n := by
  rw [List.drop_append, List.drop_eq_nil_of_le (by omega), List.nil_append,
    Nat.add_sub_cancel_left]

theorem at_place (respelled : Respelled p start P us us') {o : Nat} {k : Attribute.Kind}
    (place : (o, k) ∈ P) : ∃ n i j, o = start + n ∧ (us.drop n).take 2 = Bytes.ofU16 i ∧
      (us'.drop n).take 2 = Bytes.ofU16 j ∧ p.get? i = some (.utf8 k.bytes) ∧
      p.First (.utf8 k.bytes) j := by
  induction respelled with
  | same => cases place
  | name start holds first =>
    obtain ⟨rfl, rfl⟩ := Prod.mk.inj (List.mem_singleton.1 place)
    exact ⟨0, _, _, rfl, rfl, rfl, holds, first⟩
  | append left behind right ihl ihr =>
    rename_i start next P Q us us' vs vs'
    have length := left.length_eq
    rcases List.mem_append.1 place with inLeft | inRight
    · obtain ⟨n, i, j, rfl, before, after, holds, first⟩ := ihl inLeft
      exact ⟨n, i, j, rfl, drop_left before, drop_left after, holds, first⟩
    · obtain ⟨n, i, j, rfl, before, after, holds, first⟩ := ihr inRight
      refine ⟨us.length + n, i, j, by omega, ?_, ?_, holds, first⟩
      · rw [drop_right, before]
      · rw [← length, drop_right, after]

theorem exists_place (respelled : Respelled p start P us us') {n : Nat} (differ : us'[n]? ≠ us[n]?) :
    ∃ o k, (o, k) ∈ P ∧ (start + n = o ∨ start + n = o + 1) ∧
      ∃ i j, i ≠ j ∧ p.get? i = some (.utf8 k.bytes) ∧ p.get? j = some (.utf8 k.bytes) := by
  induction respelled generalizing n with
  | same => exact absurd rfl differ
  | name start holds first =>
    rename_i k i j
    have other : i ≠ j := by
      intro eq
      rw [eq] at differ
      exact differ rfl
    refine ⟨start, k, List.mem_singleton.2 rfl, ?_, i, j, other, holds, first.1⟩
    match n with
    | 0 => exact .inl rfl
    | 1 => exact .inr rfl
    | _ + 2 => exact absurd rfl differ
  | append left behind right ihl ihr =>
    rename_i start next P Q us us' vs vs'
    have length := left.length_eq
    rw [List.getElem?_append, List.getElem?_append, length] at differ
    split at differ
    · obtain ⟨o, k, place, here, several⟩ := ihl differ
      exact ⟨o, k, List.mem_append_left _ place, here, several⟩
    · obtain ⟨o, k, place, here, several⟩ := ihr differ
      exact ⟨o, k, List.mem_append_right _ place, by omega, several⟩

end Respelled

namespace Attribute

variable {p : Pool}

theorem readable_of_named {a : Attribute} {i : Index} (named : a.Named p.get? i) (flat : ∀ body, a ≠ .code body) :
    a.Readable p := by
  cases a with
  | code body => exact absurd rfl (flat body)
  | other own content =>
    obtain ⟨rfl, bs, hbs, unknown⟩ := named
    intro bs' hbs'
    rw [hbs] at hbs'
    cases hbs'
    exact unknown
  | _ => exact True.intro

theorem Stands.readable {a : Attribute} (stands : a.Stands p) : a.Readable p := by
  obtain ⟨name, content, named, spelled⟩ := stands
  cases a with
  | code body =>
    simp only [contentSpelled] at spelled
    exact spelled.2.2.1
  | _ => exact readable_of_named named (by simp)

end Attribute

namespace Writer

open Outcome

variable {p : Pool}

theorem name_respelled (indexed : p.Indexed) {a : Attribute} {i : Index}
    (named : a.Named p.get? i) : ∃ written, name p a = .ok written ∧ ∀ start,
      Respelled p start (a.kind?.map fun k => (start, k)).toList (Bytes.ofU16 i) written := by
  cases a with
  | other own content =>
    obtain ⟨rfl, bs, hbs, -⟩ := named
    exact ⟨Bytes.ofU16 i, name_eq_ok.2 ⟨i, rfl, rfl, bs, hbs⟩, fun start => .same start _⟩
  | _ =>
    obtain ⟨k, kind, holds⟩ := named
    obtain ⟨j, first⟩ := Pool.exists_first holds
    refine ⟨Bytes.ofU16 j, name_eq_ok.2 ⟨j, rfl, k, kind, (indexed _ _).2 first⟩, fun start => ?_⟩
    rw [kind]
    exact .name start holds first

mutual

theorem content_respelled (indexed : p.Indexed) (a : Attribute) {us : List UInt8}
    (spelled : a.contentSpelled p.get? us) : ∃ written, content p a = .ok written ∧
      ∀ start, Respelled p start (a.innerNames start) us written := by
  match a with
  | .code ⟨maxStack, maxLocals, bytes, handlers, inner⟩ =>
    simp only [Attribute.contentSpelled] at spelled
    obtain ⟨some, short, -, few, v, w, hv, hw, rfl⟩ := spelled
    obtain ⟨w', written, respelled⟩ := parts_respelled indexed inner hw
    have ofHandlers := Spelling.table_length Spelling.handler_length hv
    refine ⟨_, content_code_eq_ok.2 ⟨some, short, few, v, w', hv, written, rfl⟩, fun start => ?_⟩
    refine (respelled _).before _ ?_
    simp only [List.length_append, Bytes.length_ofU16, Bytes.length_ofU32, ofHandlers]
    omega
  | .constantValue _ | .stackMap _ | .exceptions _ | .synthetic | .signature _ | .sourceFile _
  | .lineNumbers _ | .localVariables _ | .deprecated | .other .. =>
    exact ⟨us, (content_flat (by simp) us).2 spelled, fun start => .same start us⟩

theorem parts_respelled (indexed : p.Indexed) (as : List Attribute) {us : List UInt8}
    (spelled : Attribute.allSpelled p.get? as us) : ∃ written, attributeParts p as [] = .ok written ∧
      ∀ start, Respelled p start (Attribute.namePlaces start as) us written := by
  match as with
  | [] =>
    simp only [Attribute.allSpelled] at spelled
    subst spelled
    exact ⟨[], rfl, fun start => .same start []⟩
  | a :: rest =>
    simp only [Attribute.allSpelled] at spelled
    obtain ⟨i, body, v, named, short, hbody, hv, rfl⟩ := spelled
    obtain ⟨n', hn, ofName⟩ := name_respelled indexed named
    obtain ⟨body', hbody', ofBody⟩ := content_respelled indexed a hbody
    obtain ⟨v', hv', ofRest⟩ := parts_respelled indexed rest hv
    have length := (ofBody 0).length_eq
    have size := Attribute.contentSpelled_length a hbody
    refine ⟨_, attributeParts_cons_eq_ok.2 ⟨n', body', v', hn, hbody', by omega, hv', rfl⟩,
      fun start => ?_⟩
    rw [length]
    have ofFront := (ofName start).after (Bytes.ofU32 (UInt32.ofNat body.length))
    refine (ofFront.append ?_ (ofBody (start + 6))).append ?_ (ofRest _)
    · rfl
    · simp only [List.length_append, Bytes.length_ofU16, Bytes.length_ofU32, size]
      omega

end

theorem attributes_respelled (indexed : p.Indexed) {as : List Attribute} {us : List UInt8}
    (spelled : Spelling.table (Attribute.Spelled p.get?) as us) :
    ∃ written, attributes p as = .ok written ∧
      ∀ start, Respelled p start (Attribute.namePlaces (start + 2) as) us written := by
  obtain ⟨few, v, hv, rfl⟩ := spelled
  obtain ⟨v', written, respelled⟩ := parts_respelled indexed as ((Attribute.allSpelled_iff _ _ _).2 hv)
  refine ⟨Bytes.ofU16 (UInt16.ofNat as.length) ++ v', ?_, fun start => ?_⟩
  · simp only [attributes, guard_eq_ok, bind_eq_ok, pure_eq_ok, Nat.not_lt]
    exact ⟨few, v', written, rfl⟩
  · exact (respelled (start + 2)).before _ rfl

theorem member_respelled (indexed : p.Indexed) {m : Member} {us : List UInt8}
    (spelled : Spelling.member p.get? m us) : ∃ written, member p m = .ok written ∧
      ∀ start, Respelled p start (Attribute.namePlaces (start + 8) m.attributes) us written := by
  obtain ⟨n, d, v, hn, hd, hv, rfl⟩ := spelled
  obtain ⟨v', written, respelled⟩ := attributes_respelled indexed hv
  refine ⟨Bytes.ofU16 m.access ++ n ++ d ++ v', ?_, fun start => ?_⟩
  · simp only [member, bind_eq_ok, pure_eq_ok, index_spells p _ m.name, index_spells p _ m.descriptor]
    exact ⟨n, hn, d, hd, v', written, rfl⟩
  · refine (respelled (start + 6)).before _ ?_
    rw [List.length_append, List.length_append, Spelling.index_length _ _ hn,
      Spelling.index_length _ _ hd]
    rfl

theorem allMembers_respelled (indexed : p.Indexed) (ms : List Member) {us : List UInt8}
    (spelled : Spelling.all (Spelling.member p.get?) ms us) :
    ∃ written, Spelling.all (fun m u => member p m = .ok u) ms written ∧
      ∀ start, Respelled p start (Member.namePlaces start ms) us written := by
  induction ms generalizing us with
  | nil => exact ⟨us, spelled, fun start => .same start us⟩
  | cons m rest ih =>
    obtain ⟨u, v, hu, hv, rfl⟩ := spelled
    obtain ⟨u', written, ofMember⟩ := member_respelled indexed hu
    obtain ⟨v', written', ofRest⟩ := ih hv
    have size := Spelling.member_length m u hu
    refine ⟨u' ++ v', ⟨u', v', written, written', rfl⟩, fun start => ?_⟩
    exact (ofMember start).append (by rw [size, Nat.add_assoc]) (ofRest _)

theorem members_respelled (indexed : p.Indexed) (name : Table) {ms : List Member} {us : List UInt8}
    (spelled : Spelling.table (Spelling.member p.get?) ms us) :
    ∃ written, table name (member p) ms = .ok written ∧
      ∀ start, Respelled p start (Member.namePlaces (start + 2) ms) us written := by
  obtain ⟨few, v, hv, rfl⟩ := spelled
  obtain ⟨v', written, respelled⟩ := allMembers_respelled indexed ms hv
  have exactly := table_spells name (F := fun m us => member p m = .ok us) fun _ _ => Iff.rfl
  exact ⟨_, (exactly ms _).2 ⟨few, v', written, rfl⟩, fun start => (respelled (start + 2)).before _ rfl⟩

theorem pool_written {us : List UInt8} (spelled : Spelling.pool p us) : pool p = .ok us := by
  obtain ⟨taken, v, rfl, short, ⟨es, rfl, hes⟩, -, rfl⟩ := spelled
  have slots : (Pool.ofSlots (es.flatMap Entry.slots)).slots.toList = es.flatMap Entry.slots := rfl
  rw [pool_eq_ok, Pool.size_ofSlots, slots, Pool.filterMap_slots]
  refine ⟨short, v, Spelling.all_mono (fun e _ u hu => ⟨?_, hu.2⟩) hes, rfl⟩
  intro bs same
  subst same
  exact hu.1.1

end Writer

namespace ClassFile

open Outcome

theorem members_readable {p : Pool} {ms : List Member} {us : List UInt8}
    (spelled : Spelling.table (Spelling.member p.get?) ms us) :
    ∀ m ∈ ms, ∀ b ∈ Attribute.nestedAll m.attributes, b.Readable p := by
  intro m hm b hb
  exact (stand_of_members spelled m hm b hb).readable

theorem exists_respelled {c : ClassFile} {bytes : List UInt8} (spelled : c.Spelled bytes) :
    ∃ written, c.write = .ok written ∧ c.Spelled written ∧
      Respelled c.pool 0 c.namePlaces bytes written := by
  obtain ⟨oldest, newest, readable, poolBytes, _, hpool, ⟨this, super, interfaces, fields, methods,
    attributes, hthis, hsuper, hinterfaces, hfields, hmethods, hattributes, rfl⟩, rfl⟩ := spelled
  have indexed : c.pool.Indexed := by
    obtain ⟨taken, -, same, short, -⟩ := hpool
    rw [same]
    exact Pool.indexed_ofSlots (by omega)
  obtain ⟨fields', writtenFields, ofFields⟩ := Writer.members_respelled indexed .fields hfields
  obtain ⟨methods', writtenMethods, ofMethods⟩ := Writer.members_respelled indexed .methods hmethods
  obtain ⟨attributes', writtenAttributes, ofAttributes⟩ :=
    Writer.attributes_respelled indexed hattributes
  have nestedReadable : ∀ b ∈ Attribute.nestedAll c.attributes, b.Readable c.pool := by
    intro b hb
    exact (Attribute.stand_of_table hattributes b hb).readable
  -- No attribute stands before the first field, so up to there nothing differs.
  let front := Bytes.ofU32 Reader.magicNumber ++ Bytes.ofU16 c.minor ++ Bytes.ofU16 c.major ++
    poolBytes ++ (Bytes.ofU16 c.access ++ this ++ super ++ interfaces)
  have written : c.write = .ok (front ++ fields' ++ methods' ++ attributes') := by
    simp only [write, Writer.classFile, bind_eq_ok, pure_eq_ok]
    exact ⟨poolBytes, Writer.pool_written hpool, this, (Writer.index_spells _ _ _ _).2 hthis, super,
      (Writer.indexOrZero_spells _ _ _ _).2 hsuper, interfaces,
      (Writer.table_spells _ (Writer.index_spells _ _) _ _).2 hinterfaces, fields', writtenFields,
      methods', writtenMethods, attributes', writtenAttributes, by simp [front]⟩
  refine ⟨_, written, ⟨oldest, newest, readable, poolBytes, _, hpool, ⟨this, super, interfaces,
    fields', methods', attributes', hthis, hsuper, hinterfaces,
    Writer.spelled_of_members indexed (members_readable hfields) writtenFields,
    Writer.spelled_of_members indexed (members_readable hmethods) writtenMethods,
    Writer.spelled_of_attributes indexed nestedReadable writtenAttributes, rfl⟩, ?_⟩, ?_⟩
  · simp [front]
  · have bytes : Bytes.ofU32 Reader.magicNumber ++ Bytes.ofU16 c.minor ++ Bytes.ofU16 c.major ++
        poolBytes ++ (Bytes.ofU16 c.access ++ this ++ super ++ interfaces ++ fields ++ methods ++
          attributes) = front ++ fields ++ methods ++ attributes := by simp [front]
    have frontLength : front.length = 18 + (c.pool.slots.toList.filterMap id).foldr
        (fun e n => e.bytes.length + n) 0 + 2 * c.interfaces.length := by
      simp only [front, List.length_append, Bytes.length_ofU16, Bytes.length_ofU32,
        Spelling.pool_length hpool, Spelling.index_length _ _ hthis, hsuper.2,
        Spelling.table_length Spelling.index_length hinterfaces]
      omega
    rw [bytes]
    refine (((ofFields _).before front ?_).append ?_ (ofMethods _)).append ?_ (ofAttributes _)
    · rw [frontLength, Nat.zero_add]
    · rw [List.length_append, frontLength, Spelling.members_length hfields]
      omega
    · rw [List.length_append, List.length_append, frontLength, Spelling.members_length hfields,
        Spelling.members_length hmethods]
      omega

/-- Writing undoes reading. Bytes differ only where a known attribute is named by an index while
the pool holds the name several times. There stands the first index of the name afterwards. -/
theorem write_parse {bytes : List UInt8} {c : ClassFile} (read : parse bytes = .ok c) :
    ∃ written, c.write = .ok written ∧ written.length = bytes.length ∧ parse written = .ok c ∧
      (∀ o k, (o, k) ∈ c.namePlaces → ∃ i first, (bytes.drop o).take 2 = Bytes.ofU16 i ∧
        c.pool.get? i = some (.utf8 k.bytes) ∧ (written.drop o).take 2 = Bytes.ofU16 first ∧
        c.pool.First (.utf8 k.bytes) first) ∧
      (∀ n, written[n]? ≠ bytes[n]? → ∃ o k, (o, k) ∈ c.namePlaces ∧ (n = o ∨ n = o + 1) ∧
        ∃ i j, i ≠ j ∧ c.pool.get? i = some (.utf8 k.bytes) ∧
          c.pool.get? j = some (.utf8 k.bytes)) ∧
      ((∀ o k, (o, k) ∈ c.namePlaces → ∀ i j, c.pool.get? i = some (.utf8 k.bytes) →
        c.pool.get? j = some (.utf8 k.bytes) → i = j) → written = bytes) := by
  obtain ⟨written, hwrite, spelled, respelled⟩ := exists_respelled (parse_eq_ok.1 read)
  have differing : ∀ n, written[n]? ≠ bytes[n]? → ∃ o k, (o, k) ∈ c.namePlaces ∧
      (n = o ∨ n = o + 1) ∧ ∃ i j, i ≠ j ∧ c.pool.get? i = some (.utf8 k.bytes) ∧
        c.pool.get? j = some (.utf8 k.bytes) := by
    intro n differ
    have place := respelled.exists_place differ
    rwa [Nat.zero_add] at place
  refine ⟨written, hwrite, respelled.length_eq, parse_eq_ok.2 spelled, ?_, differing, ?_⟩
  · intro o k place
    obtain ⟨n, i, j, here, before, after, holds, first⟩ := respelled.at_place place
    rw [Nat.zero_add] at here
    exact ⟨i, j, here ▸ before, holds, here ▸ after, first⟩
  · intro once
    apply List.ext_getElem?
    intro n
    by_cases same : written[n]? = bytes[n]?
    · exact same
    · obtain ⟨o, k, place, -, i, j, other, hi, hj⟩ := differing n same
      exact absurd (once o k place i j hi hj) other

/-- An empty class with one attribute, named by the second of two equal entries. -/
def twiceNamed : ClassFile where
  minor := 0
  major := 52
  pool := .ofSlots [some (.utf8 [65]), some (.classRef 1),
    some (.utf8 Attribute.Kind.synthetic.bytes), some (.utf8 Attribute.Kind.synthetic.bytes)]
  access := 33
  thisClass := 2
  superClass := 0
  interfaces := []
  fields := []
  methods := []
  attributes := [.synthetic]

theorem write_parse_twiceNamed : ∃ written, twiceNamed.write = .ok written ∧
    written.length = 61 ∧ parse written = .ok twiceNamed := by
  have read : parse ([0xCA, 0xFE, 0xBA, 0xBE, 0, 0, 0, 52, 0, 5, 1, 0, 1, 65, 7, 0, 1] ++
      [1, 0, 9, 83, 121, 110, 116, 104, 101, 116, 105, 99] ++
      [1, 0, 9, 83, 121, 110, 116, 104, 101, 116, 105, 99] ++
      [0, 33, 0, 2, 0, 0, 0, 0, 0, 0, 0, 0, 0, 1, 0, 4, 0, 0, 0, 0]) = .ok twiceNamed := by rfl
  obtain ⟨written, hwrite, length, again, -⟩ := write_parse read
  exact ⟨written, hwrite, length, again⟩

end ClassFile
end ClassForge
