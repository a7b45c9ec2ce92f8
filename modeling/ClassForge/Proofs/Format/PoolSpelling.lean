import ClassForge.Format.ReadPool
import ClassForge.Proofs.Format.Spelling
import ClassForge.Proofs.Pool.Lookup
import ClassForge.Proofs.Pool.Slots

namespace ClassForge

/-- What only reading asks of an entry: the length of text fits two bytes, and no byte of it is
forbidden. -/
def Entry.Readable : Entry → Prop
  | .utf8 bytes => bytes.length ≤ 65535 ∧ ∀ b ∈ bytes, Text.ModifiedUtf8.isForbidden b = false
  | _ => True

theorem Tag.byte_ofByte (b : UInt8) : (Tag.ofByte b).byte = b := by
  unfold Tag.ofByte
  split <;> rfl

theorem ReferenceKind.ofByte?_eq_some {b : UInt8} {k : ReferenceKind} :
    ofByte? b = some k ↔ k.byte = b := by
  constructor
  · intro found
    unfold ofByte? at found
    split at found <;> cases found <;> rfl
  · intro same
    rw [← same, ofByte?_byte]

namespace Spelling

def entry : Spelling Entry := fun e us => e.Readable ∧ us = e.bytes

def slots : Spelling (List (Option Entry)) := fun taken us =>
  ∃ es, taken = es.flatMap Entry.slots ∧ all entry es us

def pool : Spelling Pool := fun p us =>
  ∃ taken v, p = Pool.ofSlots taken ∧ taken.length ≤ 65534 ∧ slots taken v ∧
    p.brokenLink? = none ∧ us = Bytes.ofU16 (UInt16.ofNat (taken.length + 1)) ++ v

end Spelling

namespace Reader.Follows

open Spelling

theorem textBytes : Follows textBytes (fun bs us =>
    (Entry.utf8 bs).Readable ∧ us = Bytes.ofU16 (UInt16.ofNat bs.length) ++ bs) := by
  have read : Follows Reader.textBytes (Spelling.u16.andThen fun length =>
      (raw length.toNat).andThen fun bytes bs us =>
        (∀ b ∈ bytes, Text.ModifiedUtf8.isForbidden b = false) ∧ bs = bytes ∧ us = []) := by
    refine Follows.u16.bind fun length => Follows.offset fun start =>
      (Follows.take length.toNat).bind fun bytes => ?_
    cases h : bytes.findIdx? Text.ModifiedUtf8.isForbidden with
    | none =>
      have clean := List.findIdx?_eq_none_iff.1 h
      exact (Follows.pure bytes).congr fun bs us => by simp only [nothing, and_iff_right clean]
    | some i =>
      have found := List.findIdx?_eq_some_iff_getElem.1 h
      obtain ⟨inside, forbidden, -⟩ := found
      refine (Follows.failAt _ _).congr fun bs us => ?_
      simp only [never, false_iff, not_and]
      intro clean
      rw [clean _ (List.getElem_mem inside)] at forbidden
      cases forbidden
  refine read.congr fun bs us => ?_
  rw [andThen_u16, Entry.Readable]
  constructor
  · intro spelled
    obtain ⟨length, _, ⟨_, _, _, ⟨rfl, hlength⟩, ⟨clean, rfl, rfl⟩, rfl⟩, rfl⟩ := spelled
    have bound := length.toNat_lt
    refine ⟨⟨by omega, clean⟩, ?_⟩
    rw [hlength, UInt16.ofNat_toNat, List.append_nil]
  · intro spelled
    obtain ⟨⟨short, clean⟩, rfl⟩ := spelled
    have whole : (UInt16.ofNat bs.length).toNat = bs.length := by
      rw [UInt16.toNat_ofNat']
      omega
    exact ⟨UInt16.ofNat bs.length, _, ⟨bs, bs, [], ⟨rfl, whole.symm⟩, ⟨clean, rfl, rfl⟩, by simp⟩, rfl⟩

theorem referenceKind : Follows referenceKind (fun (k : ReferenceKind) us => us = [k.byte]) := by
  refine (Follows.offset fun start => Follows.u8.bind
    (G := fun b (k : ReferenceKind) us => k.byte = b ∧ us = []) fun b => ?_).congr fun k us => ?_
  · cases h : ReferenceKind.ofByte? b with
    | none =>
      refine (Follows.failAt _ _).congr fun k us => ?_
      simp [never, ← ReferenceKind.ofByte?_eq_some, h]
    | some kind =>
      refine (Follows.pure kind).congr fun k us => ?_
      rw [← ReferenceKind.ofByte?_eq_some, h, Option.some.injEq, nothing, eq_comm]
  · rw [andThen_byte]
    simp

theorem wrappedPair {α β γ : Type} {r : Reader α} {s : Reader β} {F : Spelling α} {G : Spelling β}
    (first : Follows r F) (second : Follows s G) (f : α → β → γ) :
    Follows (r >>= fun a => s >>= fun b => Pure.pure (f a b))
      (fun c us => ∃ a b u v, c = f a b ∧ F a u ∧ G b v ∧ us = u ++ v) := by
  refine (first.bind fun a => second.wrapped (f a)).congr fun c us => ?_
  constructor
  · intro spelled
    obtain ⟨a, u, v, hu, ⟨b, hv, same⟩, bytes⟩ := spelled
    exact ⟨a, b, u, v, same, hu, hv, bytes⟩
  · intro spelled
    obtain ⟨a, b, u, v, same, hu, hv, bytes⟩ := spelled
    exact ⟨a, u, v, hu, ⟨b, hv, same⟩, bytes⟩

theorem entry : Follows entry Spelling.entry := by
  refine (Follows.offset fun start => Follows.u8.bind
    (G := fun b (e : Entry) us => e.Readable ∧ e.tag = Tag.ofByte b ∧ us = e.payload)
      fun b => ?_).congr fun e us => ?_
  · cases h : Tag.ofByte b with
    | utf8 =>
      refine (textBytes.wrapped Entry.utf8).congr fun e us => ?_
      cases e <;> simp [Entry.Readable, Entry.tag, Entry.payload]
    | classRef =>
      refine (Follows.u16.wrapped Entry.classRef).congr fun e us => ?_
      cases e <;> simp [Spelling.u16, Entry.Readable, Entry.tag, Entry.payload]
    | string =>
      refine (Follows.u16.wrapped Entry.string).congr fun e us => ?_
      cases e <;> simp [Spelling.u16, Entry.Readable, Entry.tag, Entry.payload]
    | methodType =>
      refine (Follows.u16.wrapped Entry.methodType).congr fun e us => ?_
      cases e <;> simp [Spelling.u16, Entry.Readable, Entry.tag, Entry.payload]
    | moduleRef =>
      refine (Follows.u16.wrapped Entry.moduleRef).congr fun e us => ?_
      cases e <;> simp [Spelling.u16, Entry.Readable, Entry.tag, Entry.payload]
    | packageRef =>
      refine (Follows.u16.wrapped Entry.packageRef).congr fun e us => ?_
      cases e <;> simp [Spelling.u16, Entry.Readable, Entry.tag, Entry.payload]
    | integer =>
      refine (Follows.u32.wrapped Entry.integer).congr fun e us => ?_
      cases e <;> simp [Spelling.u32, Entry.Readable, Entry.tag, Entry.payload]
    | float =>
      refine (Follows.u32.wrapped Entry.float).congr fun e us => ?_
      cases e <;> simp [Spelling.u32, Entry.Readable, Entry.tag, Entry.payload]
    | long =>
      refine (Follows.u32.wrappedPair Follows.u32 Entry.long).congr fun e us => ?_
      cases e <;> simp [Spelling.u32, Entry.Readable, Entry.tag, Entry.payload]
    | double =>
      refine (Follows.u32.wrappedPair Follows.u32 Entry.double).congr fun e us => ?_
      cases e <;> simp [Spelling.u32, Entry.Readable, Entry.tag, Entry.payload]
    | member kind =>
      refine (Follows.u16.wrappedPair Follows.u16 (Entry.member kind)).congr fun e us => ?_
      cases e <;> simp [Spelling.u16, Entry.Readable, Entry.tag, Entry.payload]
    | nameAndType =>
      refine (Follows.u16.wrappedPair Follows.u16 Entry.nameAndType).congr fun e us => ?_
      cases e <;> simp [Spelling.u16, Entry.Readable, Entry.tag, Entry.payload]
    | dynamic =>
      refine (Follows.u16.wrappedPair Follows.u16 Entry.dynamic).congr fun e us => ?_
      cases e <;> simp [Spelling.u16, Entry.Readable, Entry.tag, Entry.payload]
    | invokeDynamic =>
      refine (Follows.u16.wrappedPair Follows.u16 Entry.invokeDynamic).congr fun e us => ?_
      cases e <;> simp [Spelling.u16, Entry.Readable, Entry.tag, Entry.payload]
    | methodHandle =>
      refine (referenceKind.wrappedPair Follows.u16 Entry.methodHandle).congr fun e us => ?_
      cases e <;> simp [Spelling.u16, Entry.Readable, Entry.tag, Entry.payload]
    | unknown other =>
      refine (Follows.failAt _ _).congr fun e us => ?_
      cases e <;> simp [never, Entry.tag]
  · rw [andThen_byte]
    simp only [Spelling.entry, Entry.bytes]
    constructor
    · intro spelled
      obtain ⟨b, v, ⟨readable, tag, rfl⟩, rfl⟩ := spelled
      rw [tag, Tag.byte_ofByte]
      exact ⟨readable, rfl⟩
    · intro spelled
      obtain ⟨readable, rfl⟩ := spelled
      exact ⟨e.tag.byte, e.payload, ⟨readable, (Entry.ofByte_tag_byte e).symm, rfl⟩, rfl⟩

theorem entries_go (total n : Nat) (read : PlacedSlots) :
    Follows (List.map (·.2) <$> entries.go total n read) (fun taken us => ∃ es,
      taken = (read.reverse.map (·.2)) ++ es.flatMap Entry.slots ∧
        (es.flatMap Entry.slots).length = n ∧ all Spelling.entry es us) := by
  -- A wide entry fills two slots at once, so one step back is not enough.
  induction n using Nat.strongRecOn generalizing read with
  | ind n ih =>
    cases n with
    | zero =>
      refine (Follows.pure _).congr fun taken us => ?_
      simp only [nothing]
      constructor
      · intro spelled
        obtain ⟨rfl, rfl⟩ := spelled
        exact ⟨[], by simp, rfl, rfl⟩
      · intro spelled
        obtain ⟨es, rfl, none, hes⟩ := spelled
        cases es with
        | nil => exact ⟨by simp, hes⟩
        | cons e rest =>
          simp only [List.flatMap_cons, List.length_append, Entry.slots] at none
          split at none <;> simp at none
    | succ n =>
      have step : Follows (List.map (·.2) <$> entries.go total (n + 1) read)
          (Spelling.entry.andThen fun e taken us => ∃ es,
            taken = (read.reverse.map (·.2)) ++ e.slots ++ es.flatMap Entry.slots ∧
              e.slots.length + (es.flatMap Entry.slots).length = n + 1 ∧
                all Spelling.entry es us) := by
        rw [entries.go]
        simp only [map_bind]
        refine Follows.offset fun start => Follows.entry.bind fun e => ?_
        by_cases wide : e.isWide = true
        · simp only [wide, if_true, Entry.slots]
          cases n with
          | zero =>
            intro c taken c'
            rw [map_eq_ok]
            constructor
            · intro spelled
              obtain ⟨_, failed, -⟩ := spelled
              cases failed
            · intro spelled
              obtain ⟨_, ⟨es, -, length, -⟩, -⟩ := spelled
              simp only [List.length_cons, List.length_nil] at length
              omega
          | succ n =>
            refine (ih n (by omega) _).congr fun taken us => exists_congr fun es => ?_
            have size : ([some e, none].length + (es.flatMap Entry.slots).length = n + 1 + 1) ↔
                (es.flatMap Entry.slots).length = n := by
              simp only [List.length_cons, List.length_nil]
              omega
            rw [size]
            simp
        · simp only [wide, Bool.false_eq_true, if_false, Entry.slots]
          refine (ih n (by omega) _).congr fun taken us => exists_congr fun es => ?_
          have size : ([some e].length + (es.flatMap Entry.slots).length = n + 1) ↔
              (es.flatMap Entry.slots).length = n := by
            simp only [List.length_cons, List.length_nil]
            omega
          rw [size]
          simp
      refine step.congr fun taken us => ?_
      constructor
      · intro spelled
        obtain ⟨e, u, v, hu, ⟨es, rfl, length, hv⟩, rfl⟩ := spelled
        exact ⟨e :: es, by simp, by simpa using length, u, v, hu, hv, rfl⟩
      · intro spelled
        obtain ⟨es, rfl, length, hes⟩ := spelled
        cases es with
        | nil => cases length
        | cons e es =>
          obtain ⟨u, v, hu, hv, rfl⟩ := hes
          exact ⟨e, u, v, hu, ⟨es, by simp, by simpa using length, hv⟩, rfl⟩

theorem entries (n : Nat) : Follows (List.map (·.2) <$> entries n)
    (fun taken us => taken.length = n ∧ slots taken us) := by
  refine (entries_go n n []).congr fun taken us => ?_
  constructor
  · intro spelled
    obtain ⟨es, rfl, length, hes⟩ := spelled
    exact ⟨by simpa using length, es, by simp, hes⟩
  · intro spelled
    obtain ⟨length, es, rfl, hes⟩ := spelled
    exact ⟨es, by simp, length, hes⟩

theorem pool : Follows pool Spelling.pool := by
  have read : Follows Reader.pool (Spelling.u16.andThen fun count p us => ¬count = 0 ∧
      (Spelling.andThen (fun taken us => taken.length = count.toNat - 1 ∧ slots taken us)
        fun taken p us => (Pool.ofSlots taken).brokenLink? = none ∧ p = Pool.ofSlots taken ∧
          us = []) p us) := by
    refine Follows.offset fun start => Follows.u16.bind fun count => guarded ?_
    -- Places are part of what `entries` gives, but only reasons to fail mention them.
    refine Follows.bindView (entries (count.toNat - 1)) fun placed => ?_
    dsimp only
    cases (Pool.ofSlots (placed.map (·.2))).brokenLink? with
    | none => exact (Follows.pure _).congr fun p us => by simp only [nothing, true_and]
    | some link => exact (Follows.failAt _ _).congr fun p us => by simp [never]
  refine read.congr fun p us => ?_
  rw [andThen_u16]
  constructor
  · intro spelled
    obtain ⟨count, _, ⟨positive, taken, v, _, ⟨length, hv⟩, ⟨linked, rfl, rfl⟩, rfl⟩, rfl⟩ := spelled
    have bound := count.toNat_lt
    have nonzero : count.toNat ≠ 0 := fun zero => positive (UInt16.toNat_inj.1 zero)
    have next : count.toNat - 1 + 1 = count.toNat := by omega
    refine ⟨taken, v, rfl, by omega, hv, linked, ?_⟩
    rw [length, next, UInt16.ofNat_toNat, List.append_nil]
  · intro spelled
    obtain ⟨taken, v, rfl, short, hv, linked, rfl⟩ := spelled
    have whole : (UInt16.ofNat (taken.length + 1)).toNat = taken.length + 1 := by
      rw [UInt16.toNat_ofNat']
      omega
    refine ⟨UInt16.ofNat (taken.length + 1), v, ⟨?_, taken, v, [], ⟨?_, hv⟩,
      ⟨linked, rfl, rfl⟩, by simp⟩, rfl⟩
    · intro zero
      rw [zero] at whole
      cases whole
    · rw [whole, Nat.add_sub_cancel]

end Reader.Follows
end ClassForge
