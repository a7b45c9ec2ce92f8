import ClassForge.Format.ReadClass
import ClassForge.Proofs.Format.AttributeSpelling
import ClassForge.Proofs.Format.PoolSpelling

namespace ClassForge

/-- What only reading asks of a member: its name and its descriptor decode, and the descriptor is
accepted. -/
def Member.Readable (p : Pool) (accepts : String → Bool) (m : Member) : Prop :=
  (∃ name, p.utf8At? m.name = some name) ∧
    ∃ descriptor, p.utf8At? m.descriptor = some descriptor ∧ accepts descriptor = true

namespace Spelling

def member (entryAt : Index → Option Entry) : Spelling Member := fun m us =>
  ∃ n d v, index entryAt [.utf8] m.name n ∧ index entryAt [.utf8] m.descriptor d ∧
    table (Attribute.Spelled entryAt) m.attributes v ∧ us = Bytes.ofU16 m.access ++ n ++ d ++ v

def classBody (entryAt : Index → Option Entry) : Spelling ClassFile := fun c us =>
  ∃ this super interfaces fields methods attributes,
    index entryAt [.classRef] c.thisClass this ∧
    indexOrZero entryAt [.classRef] c.superClass super ∧
    table (index entryAt [.classRef]) c.interfaces interfaces ∧
    table (member entryAt) c.fields fields ∧ table (member entryAt) c.methods methods ∧
    table (Attribute.Spelled entryAt) c.attributes attributes ∧
    us = Bytes.ofU16 c.access ++ this ++ super ++ interfaces ++ fields ++ methods ++ attributes

end Spelling

namespace ClassFile

open Spelling

def MembersReadable (c : ClassFile) : Prop :=
  (∀ m ∈ c.fields, m.Readable c.pool Reader.acceptsField) ∧
    ∀ m ∈ c.methods, m.Readable c.pool Reader.acceptsMethod

/-- The format of class files. -/
def Spelled : Spelling ClassFile := fun c us =>
  Reader.oldestMajor ≤ c.major ∧ c.major ≤ Reader.newestMajor ∧ c.MembersReadable ∧
    ∃ poolBytes body, Spelling.pool c.pool poolBytes ∧ classBody c.pool.get? c body ∧
      us = Bytes.ofU32 Reader.magicNumber ++ Bytes.ofU16 c.minor ++ Bytes.ofU16 c.major ++
        poolBytes ++ body

end ClassFile

namespace Reader.Follows

open Spelling

theorem magic : Follows magic (fun _ us => us = Bytes.ofU32 magicNumber) := by
  refine Follows.orElse (Follows.expect _) ((Follows.offset fun start =>
    Follows.u32.bind fun m => Follows.failAt start (.badMagic m)).congr fun _ us => ?_)
  simp [andThen, never]

variable (p : Pool)

theorem text : Follows (text p) (fun x us =>
    index p.get? [.utf8] x.1 us ∧ p.utf8At? x.1 = some x.2) := by
  refine (Follows.offset fun start => (indexOf p .utf8).bind
    (G := fun i (x : Index × String) us => (x.1 = i ∧ p.utf8At? i = some x.2) ∧ us = []) fun i => ?_).congr
      fun x us => ?_
  · cases h : p.utf8At? i with
    | none => exact (Follows.failAt _ _).congr fun x us => by simp [never]
    | some s =>
      refine (Follows.pure (i, s)).congr fun x us => ?_
      simp only [nothing, Prod.ext_iff, Option.some.injEq, eq_comm (a := s)]
  · constructor
    · intro spelled
      obtain ⟨_, _, _, hi, ⟨⟨rfl, decoded⟩, rfl⟩, rfl⟩ := spelled
      exact ⟨by simpa using hi, decoded⟩
    · intro spelled
      obtain ⟨hi, decoded⟩ := spelled
      exact ⟨x.1, us, [], hi, ⟨⟨rfl, decoded⟩, rfl⟩, by simp⟩

theorem member (accepts : String → Bool) : Follows (member p accepts)
    (fun m us => Spelling.member p.get? m us ∧ m.Readable p accepts) := by
  have read : Follows (Reader.member p accepts) (Spelling.u16.andThen fun access =>
      (Spelling.andThen (fun (x : Index × String) us =>
        index p.get? [.utf8] x.1 us ∧ p.utf8At? x.1 = some x.2) fun name =>
      (Spelling.andThen (fun (x : Index × String) us =>
        index p.get? [.utf8] x.1 us ∧ p.utf8At? x.1 = some x.2) fun descriptor m us =>
      accepts descriptor.2 = true ∧ (Spelling.table (Attribute.Spelled p.get?)).andThen
        (fun attributes => nothing ⟨access, name.1, descriptor.1, attributes⟩) m us))) := by
    refine Follows.u16.bind fun access => (text p).bind fun name => Follows.offset fun start =>
      (text p).bind fun descriptor => ?_
    dsimp only
    split
    · rename_i accepted
      refine ((attributes_follows p).bind fun attributes => Follows.pure _).congr fun m us => ?_
      rw [and_iff_right accepted]
    · rename_i refused
      exact (Follows.failAt _ _).congr fun m us => by simp [never, refused]
  refine read.congr fun m us => ?_
  rw [andThen_u16]
  constructor
  · intro spelled
    obtain ⟨_, _, ⟨name, n, _, ⟨hn, decoded⟩, ⟨descriptor, d, _, ⟨hd, decoded'⟩, ⟨accepted,
      attributes, v, _, hv, ⟨rfl, rfl⟩, rfl⟩, rfl⟩, rfl⟩, rfl⟩ := spelled
    exact ⟨⟨n, d, v, hn, hd, hv, by simp⟩, ⟨_, decoded⟩, _, decoded', accepted⟩
  · intro spelled
    obtain ⟨⟨n, d, v, hn, hd, hv, rfl⟩, ⟨name, decoded⟩, descriptor, decoded', accepted⟩ := spelled
    exact ⟨m.access, _, ⟨(m.name, name), n, _, ⟨hn, decoded⟩, ⟨(m.descriptor, descriptor), d, _,
      ⟨hd, decoded'⟩, ⟨accepted, m.attributes, v, [], hv, ⟨rfl, rfl⟩, rfl⟩, rfl⟩, rfl⟩, by simp⟩

theorem members (accepts : String → Bool) : Follows (members p accepts)
    (fun ms us => Spelling.table (Spelling.member p.get?) ms us ∧
      ∀ m ∈ ms, m.Readable p accepts) := by
  refine (Follows.u16.bind fun n => many (member p accepts) _ n.toNat).congr fun ms us => ?_
  rw [andThen_u16, ← table_and, table_iff]

theorem classBody (minor major : UInt16) : Follows (classBody minor major p) (fun c us =>
    c.minor = minor ∧ c.major = major ∧ c.pool = p ∧ c.MembersReadable ∧
      Spelling.classBody p.get? c us) := by
  have read : Follows (Reader.classBody minor major p) (Spelling.u16.andThen fun access =>
      (index p.get? [.classRef]).andThen fun this =>
      (Spelling.indexOrZero p.get? [.classRef]).andThen fun super =>
      (Spelling.table (index p.get? [.classRef])).andThen fun interfaces =>
      Spelling.andThen (fun ms us => Spelling.table (Spelling.member p.get?) ms us ∧
        ∀ m ∈ ms, m.Readable p acceptsField) fun fields =>
      Spelling.andThen (fun ms us => Spelling.table (Spelling.member p.get?) ms us ∧
        ∀ m ∈ ms, m.Readable p acceptsMethod) fun methods =>
      (Spelling.table (Attribute.Spelled p.get?)).andThen fun attributes =>
        nothing ⟨minor, major, p, access, this, super, interfaces, fields, methods, attributes⟩) :=
    Follows.u16.bind fun _ => (indexOf p .classRef).bind fun _ => (indexOrZero p .classRef).bind
      fun _ => (table (indexOf p .classRef)).bind fun _ => (members p acceptsField).bind fun _ =>
        Follows.after <| (members p acceptsMethod).bind fun _ =>
          Follows.after <| (attributes_follows p).bind fun _ => Follows.pure _
  refine read.congr fun c us => ?_
  rw [andThen_u16]
  constructor
  · intro spelled
    obtain ⟨_, _, ⟨_, this, _, hthis, ⟨_, super, _, hsuper, ⟨_, is, _, his, ⟨_, fs, _,
      ⟨hfs, fields⟩, ⟨_, ms, _, ⟨hms, methods⟩, ⟨_, as, _, has, ⟨rfl, rfl⟩, rfl⟩, rfl⟩, rfl⟩, rfl⟩,
      rfl⟩, rfl⟩, rfl⟩ := spelled
    exact ⟨rfl, rfl, rfl, ⟨fields, methods⟩, this, super, is, fs, ms, as, hthis, hsuper, his, hfs,
      hms, has, by simp⟩
  · intro spelled
    obtain ⟨rfl, rfl, rfl, ⟨fields, methods⟩, this, super, is, fs, ms, as, hthis, hsuper, his, hfs,
      hms, has, rfl⟩ := spelled
    exact ⟨c.access, _, ⟨_, this, _, hthis, ⟨_, super, _, hsuper, ⟨_, is, _, his, ⟨_, fs, _,
      ⟨hfs, fields⟩, ⟨_, ms, _, ⟨hms, methods⟩, ⟨_, as, [], has, ⟨rfl, rfl⟩, rfl⟩, rfl⟩, rfl⟩, rfl⟩,
      rfl⟩, rfl⟩, by simp⟩

theorem classFile : Follows classFile ClassFile.Spelled := by
  have read : Follows Reader.classFile
      (Spelling.andThen (fun (_ : Unit) us => us = Bytes.ofU32 magicNumber) fun _ =>
      Spelling.u16.andThen fun minor => Spelling.u16.andThen fun major c us =>
        ¬(major < oldestMajor ∨ newestMajor < major) ∧ Spelling.pool.andThen (fun p c us =>
          c.minor = minor ∧ c.major = major ∧ c.pool = p ∧ c.MembersReadable ∧
            Spelling.classBody p.get? c us) c us) :=
    Follows.magic.bind fun _ => Follows.offset fun _ => Follows.u16.bind fun minor =>
      Follows.u16.bind fun major => Follows.guarded <| Follows.pool.bind fun p =>
        Follows.after (classBody p minor major)
  refine read.congr fun c us => ?_
  simp only [andThen, Spelling.u16, not_or, UInt16.not_lt]
  constructor
  · intro spelled
    obtain ⟨_, _, _, rfl, ⟨_, _, _, rfl, ⟨_, _, _, rfl, ⟨⟨old, new⟩, _, poolBytes, body, hpool,
      ⟨rfl, rfl, rfl, members, hbody⟩, rfl⟩, rfl⟩, rfl⟩, rfl⟩ := spelled
    exact ⟨old, new, members, poolBytes, body, hpool, hbody, by simp⟩
  · intro spelled
    obtain ⟨old, new, members, poolBytes, body, hpool, hbody, rfl⟩ := spelled
    exact ⟨(), _, _, rfl, ⟨c.minor, _, _, rfl, ⟨c.major, _, _, rfl, ⟨⟨old, new⟩, c.pool, poolBytes,
      body, hpool, ⟨rfl, rfl, rfl, members, hbody⟩, rfl⟩, rfl⟩, rfl⟩, by simp⟩

end Reader.Follows

namespace ClassFile

/-- Reading accepts the bytes that spell a class file, and no others. -/
theorem parse_eq_ok {bytes : List UInt8} {c : ClassFile} :
    parse bytes = .ok c ↔ c.Spelled bytes := by
  rw [← Reader.Follows.classFile.usesUp 0 bytes c, parse, read]
  cases Reader.classFile ⟨0, bytes⟩ with
  | error f => simp
  | ok x =>
    obtain ⟨d, ⟨place, left⟩⟩ := x
    cases left <;> simp

end ClassFile
end ClassForge
