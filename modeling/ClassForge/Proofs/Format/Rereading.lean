import ClassForge.Proofs.ClassBuilder.Histories

namespace ClassForge

namespace Reader.Follows

variable {α : Type} {r : Reader α} {F : Spelling α} {a b : α} {us vs rest rest' : List UInt8}

theorem unambiguous (follows : Follows r F) (left : F a us) (right : F b vs)
    (same : us ++ rest = vs ++ rest') : a = b ∧ rest = rest' := by
  have first := (follows ⟨0, us ++ rest⟩ a ⟨us.length, rest⟩).2 ⟨us, left, rfl, (Nat.zero_add _).symm⟩
  have second := (follows ⟨0, us ++ rest⟩ b ⟨vs.length, rest'⟩).2
    ⟨vs, right, same, (Nat.zero_add _).symm⟩
  rw [first, Except.ok.injEq, Prod.mk.injEq, Cursor.mk.injEq] at second
  exact ⟨second.1, second.2.2⟩

end Reader.Follows

namespace ClassFile

open Spelling

def MembersNamed (c : ClassFile) : Prop :=
  ∀ m ∈ c.fields ++ c.methods, m.Readable c.pool fun _ => true

theorem MembersReadable.named {c : ClassFile} (readable : c.MembersReadable) : c.MembersNamed := by
  intro m inside
  have loose : ∃ accepts, m.Readable c.pool accepts := by
    rcases List.mem_append.1 inside with field | method
    · exact ⟨_, readable.1 m field⟩
    · exact ⟨_, readable.2 m method⟩
  obtain ⟨_, name, descriptor, typed, -⟩ := loose
  exact ⟨name, descriptor, typed, rfl⟩

variable {c d : ClassFile} {us vs : List UInt8}

theorem classBody_unambiguous (pool : c.pool = d.pool) (minor : c.minor = d.minor)
    (major : c.major = d.major) (named : c.MembersNamed) (named' : d.MembersNamed)
    (left : classBody c.pool.get? c us) (right : classBody d.pool.get? d us) : c = d := by
  obtain ⟨minor', major', p, access, thisClass, superClass, interfaces, fields, methods,
    attributes⟩ := c
  dsimp only at pool minor major left
  subst pool minor major
  obtain ⟨this, super, is, fs, ms, as, hthis, hsuper, his, hfs, hms, has, rfl⟩ := left
  obtain ⟨this', super', is', fs', ms', as', hthis', hsuper', his', hfs', hms', has', same⟩ := right
  simp only [List.append_assoc] at same
  simp only [MembersNamed, List.mem_append] at named named'
  obtain ⟨rfl, rest₁⟩ := Reader.Follows.u16.unambiguous (a := access) (b := d.access) rfl rfl same
  obtain ⟨rfl, rest₂⟩ := (Reader.Follows.indexOf d.pool .classRef).unambiguous hthis hthis' rest₁
  obtain ⟨rfl, rest₃⟩ :=
    (Reader.Follows.indexOrZero d.pool .classRef).unambiguous hsuper hsuper' rest₂
  obtain ⟨rfl, rest₄⟩ := (Reader.Follows.table
    (Reader.Follows.indexOf d.pool .classRef)).unambiguous his his' rest₃
  obtain ⟨rfl, rest₅⟩ := (Reader.Follows.members d.pool fun _ => true).unambiguous
    ⟨hfs, fun m inside => named m (.inl inside)⟩ ⟨hfs', fun m inside => named' m (.inl inside)⟩ rest₄
  obtain ⟨rfl, rest₆⟩ := (Reader.Follows.members d.pool fun _ => true).unambiguous
    ⟨hms, fun m inside => named m (.inr inside)⟩ ⟨hms', fun m inside => named' m (.inr inside)⟩ rest₅
  rw [← List.append_nil as, ← List.append_nil as'] at rest₆
  obtain ⟨rfl, -⟩ := (Reader.attributes_follows (p := d.pool)).unambiguous has has' rest₆
  rfl

theorem reread_of_parse {bytes : List UInt8} (sound : c.pool.Sound) (named : c.MembersNamed)
    (attributes : ∀ a ∈ c.everyAttribute, a.Readable c.pool) (written : c.write = .ok bytes)
    (read : parse bytes = .ok d) : d = c.reread := by
  obtain ⟨poolBytes, body, hpool, hbody, same⟩ := parts_of_write sound.indexed written sound.laidOut
    (Pool.brokenLink?_eq_none.2 sound.linked)
    (fun bs inside => (sound.readable _ inside).2) attributes
  obtain ⟨-, -, readable, poolBytes', body', hpool', hbody', same'⟩ := parse_eq_ok.1 read
  rw [same] at same'
  simp only [List.append_assoc] at same'
  obtain ⟨-, rest₁⟩ := Reader.Follows.magic.unambiguous (a := ()) (b := ()) rfl rfl same'
  obtain ⟨minor, rest₂⟩ :=
    Reader.Follows.u16.unambiguous (a := c.minor) (b := d.minor) rfl rfl rest₁
  obtain ⟨major, rest₃⟩ :=
    Reader.Follows.u16.unambiguous (a := c.major) (b := d.major) rfl rfl rest₂
  obtain ⟨pool, rest₄⟩ := Reader.Follows.pool.unambiguous hpool hpool' rest₃
  rw [← rest₄] at hbody'
  exact (classBody_unambiguous pool minor major named readable.named hbody hbody').symm

end ClassFile

namespace ClassBuilder.Makes

variable {accepts : String → Bool} {c : ClassBuilder} {m d : ClassFile} {bytes : List UInt8}

theorem readable_attributes (makes : c.Makes m) (sound : c.Sound accepts) :
    ∀ a ∈ m.everyAttribute, a.Readable m.pool := by
  intro a inside
  obtain ⟨name, -, named⟩ := makes.named_of_mem sound inside
  cases a with
  | code body => exact ((makes.built sound _ inside).code body rfl).1.2.2
  | _ => exact Attribute.readable_of_named named (by simp)

/-- Types of fields are not looked at when a class is built, but reading finds it as it was. -/
theorem reread_of_parse (makes : c.Makes m) (sound : c.Sound accepts) (written : m.write = .ok bytes)
    (read : ClassFile.parse bytes = .ok d) : d = m.reread := by
  refine ClassFile.reread_of_parse (makes.pool ▸ sound.pool) (fun x inside => ?_)
    (makes.readable_attributes sound) written read
  have loose : ∃ accepts, x.Readable m.pool accepts :=
    (makes.member_built sound inside).elim (fun built => ⟨_, built.readable⟩)
      fun built => ⟨_, built.readable⟩
  obtain ⟨_, name, descriptor, typed, -⟩ := loose
  exact ⟨name, descriptor, typed, rfl⟩

end ClassBuilder.Makes
end ClassForge
