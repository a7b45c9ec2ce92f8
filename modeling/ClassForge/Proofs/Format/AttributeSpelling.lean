import ClassForge.Format.ReadAttribute
import ClassForge.Proofs.Format.Spelling

namespace ClassForge

def Handler.Within (length : Nat) (h : Handler) : Prop :=
  h.start < h.stop ∧ h.stop.toNat ≤ length ∧ h.handler.toNat < length

instance (length : Nat) (h : Handler) : Decidable (h.Within length) :=
  inferInstanceAs (Decidable (_ ∧ _))

namespace Spelling

variable (entryAt : Index → Option Entry)

def Leads (accepted : List Tag) (i : Index) : Prop := ∃ e, entryAt i = some e ∧ e.tag ∈ accepted

variable {entryAt} in
theorem leads_utf8 {i : Index} : Leads entryAt [.utf8] i ↔ ∃ bs, entryAt i = some (.utf8 bs) := by
  constructor
  · intro parts
    obtain ⟨e, he, tag⟩ := parts
    cases e <;> simp [Entry.tag] at tag
    exact ⟨_, he⟩
  · intro parts
    obtain ⟨bs, he⟩ := parts
    exact ⟨_, he, by simp [Entry.tag]⟩

def index (accepted : List Tag) : Spelling Index := fun i us =>
  Leads entryAt accepted i ∧ us = Bytes.ofU16 i

def indexOrZero (accepted : List Tag) : Spelling Index := fun i us =>
  (i = 0 ∨ Leads entryAt accepted i) ∧ us = Bytes.ofU16 i

def handler : Spelling Handler := fun h us =>
  ∃ v, indexOrZero entryAt [.classRef] h.catchType v ∧
    us = Bytes.ofU16 h.start ++ Bytes.ofU16 h.stop ++ Bytes.ofU16 h.handler ++ v

def verificationType : Spelling VerificationType
  | .object c, us => ∃ v, index entryAt [.classRef] c v ∧ us = 7 :: v
  | .uninitialized o, us => us = 8 :: Bytes.ofU16 o
  | t, us => us = [t.byte]

def frameRest : Spelling Frame
  | .same _, us => us = []
  | .sameLocalsOneItem _ t, us => verificationType entryAt t us
  | .sameLocalsOneItemExtended d t, us =>
    ∃ v, verificationType entryAt t v ∧ us = Bytes.ofU16 d ++ v
  | .chop d _, us | .sameExtended d, us => us = Bytes.ofU16 d
  | .append d locals, us => ∃ v, all (verificationType entryAt) locals v ∧ us = Bytes.ofU16 d ++ v
  | .full d locals stack, us =>
    ∃ v w, table (verificationType entryAt) locals v ∧ table (verificationType entryAt) stack w ∧
      us = Bytes.ofU16 d ++ v ++ w

def frame : Spelling Frame := fun f us =>
  ∃ type v, f.type? = some type ∧ frameRest entryAt f v ∧ us = type :: v

def lineNumber : Spelling LineNumber := fun l us =>
  us = Bytes.ofU16 l.start ++ Bytes.ofU16 l.line

def localVariable : Spelling LocalVariable := fun l us =>
  ∃ n d, index entryAt [.utf8] l.name n ∧ index entryAt [.utf8] l.descriptor d ∧
    us = Bytes.ofU16 l.start ++ Bytes.ofU16 l.length ++ n ++ d ++ Bytes.ofU16 l.slot

end Spelling

namespace Attribute

variable (entryAt : Index → Option Entry)

/-- The index leads to a name of the attribute. One whose content is kept as bytes has a name that
is none of the known ones. -/
def Named (a : Attribute) (name : Index) : Prop :=
  match a with
  | .other own _ => name = own ∧ ∃ bs, entryAt name = some (.utf8 bs) ∧ Kind.ofBytes? bs = none
  | a => ∃ k, a.kind? = some k ∧ entryAt name = some (.utf8 k.bytes)

theorem exists_utf8_of_named (a : Attribute) {name : Index} (named : a.Named entryAt name) :
    ∃ bs, entryAt name = some (.utf8 bs) := by
  cases a with
  | other own content =>
    obtain ⟨-, bs, hname, -⟩ := named
    exact ⟨bs, hname⟩
  | _ =>
    obtain ⟨k, -, hname⟩ := named
    exact ⟨k.bytes, hname⟩

open Spelling

mutual

def contentSpelled : Spelling Attribute
  | .constantValue i, us => index entryAt Reader.loadable i us
  | .code ⟨maxStack, maxLocals, bytes, handlers, inner⟩, us =>
    0 < bytes.length ∧ bytes.length ≤ 65535 ∧ (∀ h ∈ handlers, h.Within bytes.length) ∧
      inner.length ≤ 65535 ∧ ∃ v w, Spelling.table (handler entryAt) handlers v ∧
        allSpelled inner w ∧
        us = Bytes.ofU16 maxStack ++ Bytes.ofU16 maxLocals ++
          Bytes.ofU32 (UInt32.ofNat bytes.length) ++ bytes ++ v ++
          Bytes.ofU16 (UInt16.ofNat inner.length) ++ w
  | .stackMap frames, us => Spelling.table (frame entryAt) frames us
  | .exceptions thrown, us => Spelling.table (index entryAt [.classRef]) thrown us
  | .synthetic, us | .deprecated, us => us = []
  | .signature i, us | .sourceFile i, us => index entryAt [.utf8] i us
  | .lineNumbers lines, us => Spelling.table lineNumber lines us
  | .localVariables scopes, us => Spelling.table (localVariable entryAt) scopes us
  | .other _ content, us => us = content

def allSpelled : Spelling (List Attribute)
  | [], us => us = []
  | a :: rest, us => ∃ name content v,
    a.Named entryAt name ∧ content.length < 4294967296 ∧ contentSpelled a content ∧
      allSpelled rest v ∧
      us = Bytes.ofU16 name ++ Bytes.ofU32 (UInt32.ofNat content.length) ++ content ++ v

end

def Spelled : Spelling Attribute := fun a us => ∃ name content,
  a.Named entryAt name ∧ content.length < 4294967296 ∧ contentSpelled entryAt a content ∧
    us = Bytes.ofU16 name ++ Bytes.ofU32 (UInt32.ofNat content.length) ++ content

theorem allSpelled_iff (as : List Attribute) (us : List UInt8) :
    allSpelled entryAt as us ↔ all (Spelled entryAt) as us := by
  induction as generalizing us with
  | nil => simp [allSpelled, all]
  | cons a rest ih =>
    simp only [allSpelled, all, ih, Spelled]
    constructor
    · intro parts
      obtain ⟨name, content, v, hname, hlength, hcontent, hv, rfl⟩ := parts
      exact ⟨_, v, ⟨name, content, hname, hlength, hcontent, rfl⟩, hv, rfl⟩
    · intro parts
      obtain ⟨_, v, ⟨name, content, hname, hlength, hcontent, rfl⟩, hv, rfl⟩ := parts
      exact ⟨name, content, v, hname, hlength, hcontent, hv, rfl⟩

mutual

def nesting : Attribute → Nat
  | .code ⟨_, _, _, _, inner⟩ => nestings inner + 1
  | .constantValue _ | .stackMap _ | .exceptions _ | .synthetic | .signature _ | .sourceFile _
  | .lineNumbers _ | .localVariables _ | .deprecated | .other .. => 1

def nestings : List Attribute → Nat
  | [] => 0
  | a :: rest => max a.nesting (nestings rest)

end

theorem nestings_le_iff (as : List Attribute) (depth : Nat) :
    nestings as ≤ depth ↔ ∀ a ∈ as, a.nesting ≤ depth := by
  induction as with
  | nil => simp [nestings]
  | cons a rest ih => simp only [nestings, Nat.max_le, ih, List.mem_cons, forall_eq_or_imp]

mutual

theorem nesting_le_length (a : Attribute) {us : List UInt8} (spelled : contentSpelled entryAt a us) :
    a.nesting ≤ us.length + 1 := by
  match a with
  | .code ⟨_, _, bytes, handlers, inner⟩ =>
    simp only [contentSpelled] at spelled
    obtain ⟨-, -, -, -, v, w, -, hw, rfl⟩ := spelled
    have inside := nestings_le_length inner hw
    simp only [nesting, List.length_append, Bytes.length_ofU16, Bytes.length_ofU32]
    omega
  | .constantValue _ | .stackMap _ | .exceptions _ | .synthetic | .signature _ | .sourceFile _
  | .lineNumbers _ | .localVariables _ | .deprecated | .other .. => simp [nesting]

theorem nestings_le_length (as : List Attribute) {us : List UInt8}
    (spelled : allSpelled entryAt as us) : nestings as ≤ us.length := by
  match as with
  | [] => simp [nestings]
  | a :: rest =>
    simp only [allSpelled] at spelled
    obtain ⟨name, content, v, -, -, hcontent, hv, rfl⟩ := spelled
    have first := nesting_le_length a hcontent
    have others := nestings_le_length rest hv
    simp only [nestings, List.length_append, Bytes.length_ofU16, Bytes.length_ofU32]
    omega

end

namespace Kind

theorem bytes_injective (k l : Kind) (same : k.bytes = l.bytes) : k = l := by
  cases k <;> cases l <;> first | rfl | (exact absurd same (by decide))

theorem ofBytes?_eq_some {bs : List UInt8} {k : Kind} : ofBytes? bs = some k ↔ k.bytes = bs := by
  constructor
  · intro found
    simpa using List.find?_some found
  · intro same
    subst same
    cases found : ofBytes? k.bytes with
    | none => simpa using List.find?_eq_none.1 found k (mem_all k)
    | some l =>
      have same : l.bytes = k.bytes := by simpa using List.find?_some found
      rw [bytes_injective l k same]

end Kind
end Attribute

theorem FrameTag.ofByte_eq (b : UInt8) :
    (b ≤ 63 ∧ ofByte b = .same b) ∨ (64 ≤ b ∧ b ≤ 127 ∧ ofByte b = .sameLocalsOneItem b) ∨
      (128 ≤ b ∧ b ≤ 246 ∧ ofByte b = .reserved b) ∨
      (b = 247 ∧ ofByte b = .sameLocalsOneItemExtended) ∨
      (248 ≤ b ∧ b ≤ 250 ∧ ofByte b = .chop b) ∨ (b = 251 ∧ ofByte b = .sameExtended) ∨
      (252 ≤ b ∧ b ≤ 254 ∧ ofByte b = .append b) ∨ (b = 255 ∧ ofByte b = .full) := by
  rw [ofByte]
  split
  · exact .inl ⟨‹_›, rfl⟩
  · right
    split
    · exact .inl ⟨by grind, ‹_›, rfl⟩
    · right
      split
      · exact .inl ⟨by grind, ‹_›, rfl⟩
      · right
        split
        · exact .inl ⟨‹_›, rfl⟩
        · right
          split
          · exact .inl ⟨by grind, ‹_›, rfl⟩
          · right
            split
            · exact .inl ⟨‹_›, rfl⟩
            · right
              split
              · exact .inl ⟨by grind, ‹_›, rfl⟩
              · exact .inr ⟨by grind, rfl⟩

theorem Frame.type?_eq_some {f : Frame} {b : UInt8} : f.type? = some b ↔
    match f with
    | .same delta => b = delta ∧ b ≤ 63
    | .sameLocalsOneItem delta _ => 64 ≤ b ∧ b ≤ 127 ∧ delta = b - 64
    | .sameLocalsOneItemExtended .. => b = 247
    | .chop _ count => 248 ≤ b ∧ b ≤ 250 ∧ count = 251 - b
    | .sameExtended _ => b = 251
    | .append _ locals => 252 ≤ b ∧ b ≤ 254 ∧ locals.length = b.toNat - 251
    | .full .. => b = 255 := by
  cases f with
  | append _ locals =>
    simp only [type?, Option.ite_none_right_eq_some, Option.some.injEq, UInt8.le_iff_toNat_le,
      ← UInt8.toNat_inj, UInt8.toNat_ofNat', UInt8.reduceToNat]
    have bound := b.toNat_lt
    omega
  | _ =>
    simp only [type?, Option.ite_none_right_eq_some, Option.some.injEq]
    grind

namespace Reader.Follows

open Spelling

variable {α : Type}

theorem table {r : Reader α} {F : Spelling α} (follows : Follows r F) :
    Follows (table r) (Spelling.table F) := by
  refine (Follows.u16.bind fun n => times follows n.toNat).congr fun xs us => ?_
  rw [andThen_u16, table_iff]

variable (p : Pool)

theorem checkTag (place : Nat) (i : Index) (tag : Tag) :
    Follows (checkTag p place i tag) (fun _ us => Leads p.get? [tag] i ∧ us = []) := by
  unfold Reader.checkTag Pool.tagAt? Leads
  cases p.get? i with
  | none => exact (Follows.failAt _ _).congr (by simp [never])
  | some e =>
    simp only [Option.map_some]
    split
    · rename_i same
      exact (Follows.pure ()).congr (by simp [nothing, same])
    · rename_i other
      exact (Follows.failAt _ _).congr (by simp [never, other])

theorem indexOf (tag : Tag) : Follows (indexOf p tag) (index p.get? [tag]) := by
  refine (Follows.offset fun place => Follows.u16.bind fun i =>
    (checkTag p place i tag).bind fun _ => Follows.pure i).congr fun i us => ?_
  simp only [andThen, Spelling.u16, nothing, index]
  constructor
  · intro parts
    obtain ⟨_, _, _, rfl, ⟨_, _, _, ⟨leads, rfl⟩, ⟨rfl, rfl⟩, rfl⟩, rfl⟩ := parts
    exact ⟨leads, by simp⟩
  · intro parts
    obtain ⟨leads, rfl⟩ := parts
    exact ⟨i, _, [], rfl, ⟨(), [], [], ⟨leads, rfl⟩, ⟨rfl, rfl⟩, rfl⟩, by simp⟩

theorem indexOrZero (tag : Tag) :
    Follows (indexOrZero p tag) (Spelling.indexOrZero p.get? [tag]) := by
  refine (Follows.offset fun place => Follows.u16.bind
    (G := fun i j us => (i = 0 ∨ Leads p.get? [tag] i) ∧ j = i ∧ us = []) fun i => ?_).congr
      fun i us => ?_
  · split
    · rename_i zero
      exact (Follows.pure i).congr (by simp [nothing, zero])
    · rename_i other
      refine ((checkTag p place i tag).bind fun _ => Follows.pure i).congr fun j us => ?_
      simp only [andThen, nothing, other, false_or]
      constructor
      · intro parts
        obtain ⟨_, _, _, ⟨leads, rfl⟩, ⟨rfl, rfl⟩, rfl⟩ := parts
        exact ⟨leads, rfl, rfl⟩
      · intro parts
        obtain ⟨leads, rfl, rfl⟩ := parts
        exact ⟨(), [], [], ⟨leads, rfl⟩, ⟨rfl, rfl⟩, rfl⟩
  · simp only [andThen, Spelling.u16, Spelling.indexOrZero]
    constructor
    · intro parts
      obtain ⟨_, _, _, rfl, ⟨leads, rfl, rfl⟩, rfl⟩ := parts
      exact ⟨leads, by simp⟩
    · intro parts
      obtain ⟨leads, rfl⟩ := parts
      exact ⟨i, _, [], rfl, ⟨leads, rfl, rfl⟩, by simp⟩

theorem handler (length : Nat) :
    Follows (handler p length) (fun h us => Spelling.handler p.get? h us ∧ h.Within length) := by
  have read : Follows (Reader.handler p length) (Spelling.u16.andThen fun start =>
      Spelling.u16.andThen fun stop => Spelling.u16.andThen fun first =>
        (Spelling.indexOrZero p.get? [.classRef]).andThen fun caught h us =>
          ¬(stop ≤ start ∨ length < stop.toNat ∨ length ≤ first.toNat) ∧
            nothing ⟨start, stop, first, caught⟩ h us) :=
    Follows.offset fun _ => Follows.u16.bind fun _ => Follows.u16.bind fun _ =>
      Follows.u16.bind fun _ => (indexOrZero p .classRef).bind fun _ => guarded (Follows.pure _)
  refine read.congr fun h us => ?_
  simp only [andThen_u16, Spelling.handler]
  constructor
  · intro parts
    obtain ⟨_, _, ⟨_, _, ⟨_, _, ⟨caught, v, _, hv, ⟨inside, rfl, rfl⟩, rfl⟩, rfl⟩, rfl⟩, rfl⟩ := parts
    refine ⟨⟨v, hv, by simp⟩, ?_⟩
    simp only [Handler.Within]
    grind
  · intro parts
    obtain ⟨⟨v, hv, rfl⟩, inside⟩ := parts
    simp only [Handler.Within] at inside
    exact ⟨h.start, _, ⟨h.stop, _, ⟨h.handler, _, ⟨h.catchType, v, [], hv,
      ⟨by grind, rfl, rfl⟩, rfl⟩, rfl⟩, rfl⟩, by simp⟩

theorem lineNumber : Follows lineNumber Spelling.lineNumber := by
  refine (Follows.u16.bind fun start => Follows.u16.bind fun line => Follows.pure _).congr
    fun l us => ?_
  simp only [andThen, Spelling.u16, nothing, Spelling.lineNumber]
  constructor
  · intro parts
    obtain ⟨_, _, _, rfl, ⟨_, _, _, rfl, ⟨rfl, rfl⟩, rfl⟩, rfl⟩ := parts
    simp
  · intro same
    subst same
    exact ⟨l.start, _, _, rfl, ⟨l.line, _, [], rfl, ⟨rfl, rfl⟩, rfl⟩, by simp⟩

theorem localVariable : Follows (localVariable p) (Spelling.localVariable p.get?) := by
  refine (Follows.u16.bind fun start => Follows.u16.bind fun length => (indexOf p .utf8).bind
    fun name => (indexOf p .utf8).bind fun descriptor => Follows.u16.bind fun slot =>
      Follows.pure _).congr fun l us => ?_
  simp only [andThen, Spelling.u16, nothing, Spelling.localVariable]
  constructor
  · intro parts
    obtain ⟨_, _, _, rfl, ⟨_, _, _, rfl, ⟨_, n, _, hn, ⟨_, d, _, hd, ⟨_, _, _, rfl, ⟨rfl, rfl⟩,
      rfl⟩, rfl⟩, rfl⟩, rfl⟩, rfl⟩ := parts
    exact ⟨n, d, hn, hd, by simp⟩
  · intro parts
    obtain ⟨n, d, hn, hd, rfl⟩ := parts
    exact ⟨l.start, _, _, rfl, ⟨l.length, _, _, rfl, ⟨l.name, n, _, hn, ⟨l.descriptor, d, _, hd,
      ⟨l.slot, _, [], rfl, ⟨rfl, rfl⟩, rfl⟩, rfl⟩, rfl⟩, rfl⟩, by simp⟩

theorem verificationType :
    Follows (verificationType p) (Spelling.verificationType p.get?) := by
  refine (Follows.offset fun place => Follows.u8.bind
    (G := fun b t us => Spelling.verificationType p.get? t (b :: us)) fun b => ?_).congr
      fun t us => ?_
  · split
    case h_8 =>
      refine ((indexOf p .classRef).bind fun c => Follows.pure _).congr fun t us => ?_
      cases t <;> simp [andThen_nothing, Spelling.verificationType, VerificationType.byte]
    case h_9 =>
      refine (Follows.u16.bind fun o => Follows.pure _).congr fun t us => ?_
      cases t <;>
        simp [andThen_nothing, Spelling.u16, Spelling.verificationType, VerificationType.byte]
    case h_10 =>
      refine (Follows.failAt _ _).congr fun t us => ?_
      cases t <;> simp_all [never, Spelling.verificationType, VerificationType.byte]
    all_goals
      refine (Follows.pure _).congr fun t us => ?_
      cases t <;> simp [nothing, Spelling.verificationType, VerificationType.byte]
  · rw [andThen_byte]
    constructor
    · intro parts
      obtain ⟨b, v, hv, rfl⟩ := parts
      exact hv
    · intro spelled
      cases us with
      | nil => cases t <;> simp [Spelling.verificationType] at spelled
      | cons b v => exact ⟨b, v, spelled, rfl⟩

theorem frame : Follows (frame p) (Spelling.frame p.get?) := by
  refine (Follows.offset fun place => Follows.u8.bind
    (G := fun b f us => f.type? = some b ∧ frameRest p.get? f us) fun b => ?_).congr
      fun f us => ?_
  · rcases FrameTag.ofByte_eq b with ⟨range, tag⟩ | ⟨low, high, tag⟩ | ⟨low, high, tag⟩ |
      ⟨rfl, tag⟩ | ⟨low, high, tag⟩ | ⟨rfl, tag⟩ | ⟨low, high, tag⟩ | ⟨rfl, tag⟩
    all_goals simp only [tag]
    · refine (Follows.pure _).congr fun f us => ?_
      cases f <;> simp [nothing, frameRest, Frame.type?_eq_some] <;> grind
    · refine ((verificationType p).bind fun t => Follows.pure _).congr fun f us => ?_
      rw [andThen_nothing]
      cases f <;> simp [frameRest, Frame.type?_eq_some] <;> grind
    · refine (Follows.failAt _ _).congr fun f us => ?_
      cases f <;> simp [never, Frame.type?_eq_some] <;> grind
    · refine (Follows.u16.bind fun d => (verificationType p).bind fun t =>
        Follows.pure _).congr fun f us => ?_
      simp only [andThen_u16, andThen_nothing]
      cases f with
      | sameLocalsOneItemExtended delta item =>
        simp only [frameRest, Frame.type?_eq_some, true_and]
        constructor
        · rintro ⟨_, v, ⟨_, spelled, same⟩, rfl⟩
          cases same
          exact ⟨v, spelled, rfl⟩
        · rintro ⟨v, spelled, rfl⟩
          exact ⟨delta, v, ⟨item, spelled, rfl⟩, rfl⟩
      | _ => simp [frameRest, Frame.type?_eq_some]
    · refine (Follows.u16.bind fun d => Follows.pure _).congr fun f us => ?_
      rw [andThen_nothing]
      cases f <;> simp [Spelling.u16, frameRest, Frame.type?_eq_some] <;> grind
    · refine (Follows.u16.bind fun d => Follows.pure _).congr fun f us => ?_
      rw [andThen_nothing]
      cases f <;> simp [Spelling.u16, frameRest, Frame.type?_eq_some]
    · refine (Follows.u16.bind fun d => (times (verificationType p) _).bind fun locals =>
        Follows.pure _).congr fun f us => ?_
      simp only [andThen_u16, andThen_nothing]
      cases f <;> simp [frameRest, Frame.type?_eq_some] <;> grind
    · have types := table (verificationType p)
      have tables := Follows.u16.bind fun d => types.bind fun locals => types.bind fun stack =>
        Follows.pure (Frame.full d locals stack)
      simp only [Reader.table, bind_assoc] at tables
      refine tables.congr fun f us => ?_
      rw [andThen_u16]
      cases f with
      | full d locals stack =>
        simp only [Frame.type?_eq_some, frameRest, true_and]
        constructor
        · intro parts
          obtain ⟨_, _, ⟨_, v, _, hv, ⟨_, w, _, hw, ⟨same, rfl⟩, rfl⟩, rfl⟩, rfl⟩ := parts
          cases same
          exact ⟨v, w, hv, hw, by simp⟩
        · intro parts
          obtain ⟨v, w, hv, hw, rfl⟩ := parts
          exact ⟨d, _, ⟨locals, v, _, hv, ⟨stack, w, [], hw, ⟨rfl, rfl⟩, rfl⟩, rfl⟩, by simp⟩
      | _ => simp [andThen, nothing, Frame.type?_eq_some]
  · simp only [andThen_byte, Spelling.frame]
    constructor
    · intro parts
      obtain ⟨b, v, ⟨hb, hv⟩, rfl⟩ := parts
      exact ⟨b, v, hb, hv, rfl⟩
    · intro parts
      obtain ⟨b, v, hb, hv, rfl⟩ := parts
      exact ⟨b, v, ⟨hb, hv⟩, rfl⟩

theorem constantValue : Follows (constantValue p) (index p.get? loadable) := by
  refine (Follows.offset fun place => Follows.u16.bind
    (G := fun i j us => Leads p.get? loadable i ∧ j = i ∧ us = []) fun i => ?_).congr
      fun i us => ?_
  · unfold Pool.tagAt? Leads
    cases p.get? i with
    | none => exact (Follows.failAt _ _).congr (by simp [never])
    | some e =>
      simp only [Option.map_some, List.contains_iff_mem]
      split
      · rename_i found
        exact (Follows.pure i).congr (by simp [nothing, found])
      · rename_i other
        exact (Follows.failAt _ _).congr (by simp [never, other])
  · rw [andThen_u16]
    constructor
    · intro parts
      obtain ⟨_, _, ⟨leads, rfl, rfl⟩, rfl⟩ := parts
      exact ⟨leads, by simp⟩
    · intro parts
      obtain ⟨leads, rfl⟩ := parts
      exact ⟨i, [], ⟨leads, rfl, rfl⟩, by simp⟩

theorem attributesBy {one : Reader Attribute} {F : Spelling Attribute} (follows : Follows one F) :
    Follows (attributesBy p one) (Spelling.table F) := by
  refine (Follows.u16.bind fun n => many follows _ n.toNat).congr fun as us => ?_
  rw [andThen_u16, table_iff]

theorem code {one : Reader Attribute} {F : Spelling Attribute} (follows : Follows one F) :
    Follows (code p one) (fun body us => 0 < body.bytes.length ∧ body.bytes.length ≤ 65535 ∧
      (∀ h ∈ body.handlers, h.Within body.bytes.length) ∧ ∃ v w,
        Spelling.table (Spelling.handler p.get?) body.handlers v ∧
        Spelling.table F body.attributes w ∧
        us = Bytes.ofU16 body.maxStack ++ Bytes.ofU16 body.maxLocals ++
          Bytes.ofU32 (UInt32.ofNat body.bytes.length) ++ body.bytes ++ v ++ w) := by
  have read : Follows (Reader.code p one) (Spelling.u16.andThen fun maxStack =>
      Spelling.u16.andThen fun maxLocals => Spelling.u32.andThen fun length body us =>
        ¬(length = 0 ∨ 65535 < length.toNat) ∧ (raw length.toNat).andThen (fun bytes =>
          (Spelling.table fun h us =>
            Spelling.handler p.get? h us ∧ h.Within length.toNat).andThen fun handlers =>
              (Spelling.table F).andThen fun attributes =>
                nothing ⟨maxStack, maxLocals, bytes, handlers, attributes⟩) body us) :=
    Follows.u16.bind fun _ => Follows.u16.bind fun _ => Follows.offset fun _ =>
      Follows.u32.bind fun length => guarded <| (take length.toNat).bind fun _ =>
        (table (handler p length.toNat)).bind fun _ => (attributesBy p follows).bind fun _ =>
          Follows.pure _
  refine read.congr fun body us => ?_
  rw [andThen_u16]
  constructor
  · intro parts
    obtain ⟨_, _, ⟨_, _, _, rfl, ⟨length, _, _, rfl, ⟨bounds, bytes, _, _, ⟨rfl, hbytes⟩,
      ⟨handlers, v, _, hv, ⟨attributes, w, _, hw, ⟨rfl, rfl⟩, rfl⟩, rfl⟩, rfl⟩, rfl⟩, rfl⟩, rfl⟩ := parts
    obtain ⟨hv, within⟩ := (table_and _ _).1 hv
    rw [← UInt32.toNat_inj, UInt32.toNat_zero, ← hbytes] at bounds
    rw [← hbytes] at within
    simp only [not_or, Nat.not_lt] at bounds
    refine ⟨Nat.pos_of_ne_zero bounds.1, bounds.2, within, v, w, hv, hw, ?_⟩
    simp [hbytes, UInt32.ofNat_toNat]
  · intro parts
    obtain ⟨positive, short, within, v, w, hv, hw, rfl⟩ := parts
    have whole : (UInt32.ofNat body.bytes.length).toNat = body.bytes.length := by
      rw [UInt32.toNat_ofNat']
      omega
    refine ⟨body.maxStack, _, ⟨body.maxLocals, _, _, rfl, ⟨UInt32.ofNat body.bytes.length, _, _,
      rfl, ⟨?_, body.bytes, _, _, ⟨rfl, whole.symm⟩, ⟨body.handlers, v, _, ?_,
        ⟨body.attributes, w, [], hw, ⟨rfl, rfl⟩, rfl⟩, rfl⟩, rfl⟩, rfl⟩, rfl⟩, by simp⟩
    · rw [← UInt32.toNat_inj, UInt32.toNat_zero, whole]
      omega
    · rw [whole]
      exact (table_and _ _).2 ⟨hv, within⟩

end Reader.Follows

namespace Reader

open Spelling Attribute

variable (p : Pool)

/-- A known name says how the content is read; under other names it is all that there is. -/
theorem content_usesUp {one : Reader Attribute} {depth : Nat}
    (follows : Follows one (fun a us => a.Spelled p.get? us ∧ a.nesting ≤ depth)) (name : Index)
    (kind : Option Attribute.Kind) :
    UsesUp (content p one name kind) (fun a us => a.contentSpelled p.get? us ∧
      a.nesting ≤ depth + 1 ∧ a.kind? = kind ∧ (kind = none → ∃ bs, a = .other name bs)) := by
  cases kind with
  | none =>
    intro offset bytes a
    constructor
    · intro parts
      obtain ⟨_, read, left⟩ := parts
      cases read
      exact ⟨by simp [contentSpelled], by simp [nesting], rfl, fun _ => ⟨bytes, rfl⟩⟩
    · intro parts
      obtain ⟨spelled, -, -, other⟩ := parts
      obtain ⟨bs, rfl⟩ := other rfl
      simp only [contentSpelled] at spelled
      subst spelled
      exact ⟨_, rfl, rfl⟩
  | some kind =>
    cases kind with
    | code =>
      refine ((Follows.code p follows).wrapped Attribute.code).usesUp.congr fun a us => ?_
      constructor
      · intro parts
        obtain ⟨body, ⟨positive, short, inside, v, w, hv, hw, rfl⟩, rfl⟩ := parts
        obtain ⟨⟨few, x, hx, rfl⟩, depths⟩ := (table_and _ _).1 hw
        refine ⟨?_, ?_, rfl, by simp⟩
        · simp only [contentSpelled]
          exact ⟨positive, short, inside, few, v, x, hv, (allSpelled_iff _ _ _).2 hx, by simp⟩
        · have inner := (nestings_le_iff body.attributes depth).2 depths
          simp only [nesting]
          omega
      · intro parts
        obtain ⟨spelled, depths, hkind, -⟩ := parts
        cases a with
        | code body =>
          simp only [contentSpelled] at spelled
          simp only [nesting] at depths
          obtain ⟨positive, short, inside, few, v, x, hv, hx, rfl⟩ := spelled
          have inner := (nestings_le_iff body.attributes depth).1 (by omega)
          refine ⟨body, ⟨positive, short, inside, v, _, hv, (table_and _ _).2 ⟨⟨few, x,
            (allSpelled_iff _ _ _).1 hx, rfl⟩, inner⟩, by simp⟩, rfl⟩
        | _ => cases hkind
    | constantValue =>
      refine ((Follows.constantValue p).wrapped Attribute.constantValue).usesUp.congr fun a us => ?_
      cases a <;> simp [contentSpelled, nesting, kind?]
    | stackMap =>
      refine ((Follows.table (Follows.frame p)).wrapped Attribute.stackMap).usesUp.congr fun a us => ?_
      cases a <;> simp [contentSpelled, nesting, kind?]
    | exceptions =>
      refine ((Follows.table (Follows.indexOf p .classRef)).wrapped Attribute.exceptions).usesUp.congr fun a us => ?_
      cases a <;> simp [contentSpelled, nesting, kind?]
    | synthetic =>
      refine (Follows.pure Attribute.synthetic).usesUp.congr fun a us => ?_
      cases a <;> simp [nothing, contentSpelled, nesting, kind?]
    | signature =>
      refine ((Follows.indexOf p .utf8).wrapped Attribute.signature).usesUp.congr fun a us => ?_
      cases a <;> simp [contentSpelled, nesting, kind?]
    | sourceFile =>
      refine ((Follows.indexOf p .utf8).wrapped Attribute.sourceFile).usesUp.congr fun a us => ?_
      cases a <;> simp [contentSpelled, nesting, kind?]
    | lineNumbers =>
      refine ((Follows.table Follows.lineNumber).wrapped Attribute.lineNumbers).usesUp.congr fun a us => ?_
      cases a <;> simp [contentSpelled, nesting, kind?]
    | localVariables =>
      refine ((Follows.table (Follows.localVariable p)).wrapped Attribute.localVariables).usesUp.congr fun a us => ?_
      cases a <;> simp [contentSpelled, nesting, kind?]
    | deprecated =>
      refine (Follows.pure Attribute.deprecated).usesUp.congr fun a us => ?_
      cases a <;> simp [nothing, contentSpelled, nesting, kind?]

theorem within_follows {r : Reader Attribute} {F : Spelling Attribute} (usesUp : UsesUp r F)
    (nameBytes : List UInt8) (start : Nat) (bytes : List UInt8) :
    Follows (within p nameBytes start bytes r) (fun a us => F a bytes ∧ us = []) := by
  intro c a c'
  have ok : within p nameBytes start bytes r c = .ok (a, c') ↔
      (∃ behind, r ⟨start, bytes⟩ = .ok (a, behind) ∧ behind.bytes = []) ∧ c = c' := by
    rw [within]
    cases r ⟨start, bytes⟩ with
    | error f => simp
    | ok y =>
      obtain ⟨b, ⟨place, left⟩⟩ := y
      cases left <;> simp [and_assoc]
  rw [ok, usesUp start bytes a]
  obtain ⟨offset, left⟩ := c
  obtain ⟨offset', left'⟩ := c'
  constructor
  · intro parts
    obtain ⟨spelled, same⟩ := parts
    cases same
    exact ⟨[], ⟨spelled, rfl⟩, rfl, rfl⟩
  · intro parts
    obtain ⟨_, ⟨spelled, rfl⟩, hbytes, hoffset⟩ := parts
    simp only [List.nil_append, List.length_nil, Nat.add_zero] at hbytes hoffset
    exact ⟨spelled, by rw [hbytes, hoffset]⟩

def kindAt (name : Index) : Option Attribute.Kind :=
  Kind.ofBytes? (match p.get? name with
    | some (.utf8 bytes) => bytes
    | _ => [])

theorem kindAt_eq {name : Index} {bs : List UInt8} (hname : p.get? name = some (.utf8 bs)) :
    kindAt p name = Kind.ofBytes? bs := by
  rw [kindAt, hname]

theorem named_iff {name : Index} {bs : List UInt8} (hname : p.get? name = some (.utf8 bs))
    (a : Attribute) : a.Named p.get? name ↔ a.kind? = Kind.ofBytes? bs ∧
      (Kind.ofBytes? bs = none → ∃ content, a = .other name content) := by
  cases a with
  | other own content =>
    simp only [Named, hname, kind?]
    constructor
    · intro parts
      obtain ⟨rfl, _, same, unknown⟩ := parts
      cases same
      exact ⟨unknown.symm, fun _ => ⟨content, rfl⟩⟩
    · intro parts
      obtain ⟨unknown, own⟩ := parts
      obtain ⟨_, same⟩ := own unknown.symm
      cases same
      exact ⟨rfl, bs, rfl, unknown.symm⟩
  | _ =>
    simp only [Named, hname, kind?]
    grind [Kind.ofBytes?_eq_some]

theorem nestedAttribute_follows (depth : Nat) : Follows (nestedAttribute p depth)
    (fun a us => a.Spelled p.get? us ∧ a.nesting ≤ depth) := by
  -- What lies inside an attribute is read with one level less.
  induction depth with
  | zero =>
    intro c a c'
    simp only [nestedAttribute, reduceCtorEq, false_iff]
    intro parts
    obtain ⟨us, ⟨-, shallow⟩, -⟩ := parts
    cases a <;> simp [nesting] at shallow
  | succ depth ih =>
    have read : Follows (nestedAttribute p (depth + 1))
        ((index p.get? [.utf8]).andThen fun name => Spelling.u32.andThen fun length =>
          (raw length.toNat).andThen fun bytes a us => (a.contentSpelled p.get? bytes ∧
            a.nesting ≤ depth + 1 ∧ a.kind? = kindAt p name ∧
              (kindAt p name = none → ∃ bs, a = .other name bs)) ∧ us = []) :=
      (Follows.indexOf p .utf8).bind fun name => Follows.u32.bind fun length =>
        Follows.offset fun start => (Follows.take length.toNat).bind fun bytes =>
          within_follows p (content_usesUp p ih name (kindAt p name)) _ start bytes
    refine read.congr fun a us => ?_
    constructor
    · intro parts
      obtain ⟨name, _, _, ⟨leads, rfl⟩, ⟨length, _, _, rfl, ⟨bytes, _, _, ⟨rfl, hlength⟩,
        ⟨⟨spelled, shallow, hkind, other⟩, rfl⟩, rfl⟩, rfl⟩, rfl⟩ := parts
      obtain ⟨bs, hname⟩ := leads_utf8.1 leads
      rw [kindAt_eq p hname] at hkind other
      refine ⟨⟨name, _, (named_iff p hname a).2 ⟨hkind, other⟩, ?_, spelled, ?_⟩, shallow⟩
      · have bound := length.toNat_lt
        omega
      · simp [hlength]
    · intro parts
      obtain ⟨⟨name, content, named, short, spelled, rfl⟩, shallow⟩ := parts
      obtain ⟨bs, hname⟩ := a.exists_utf8_of_named p.get? named
      obtain ⟨hkind, other⟩ := (named_iff p hname a).1 named
      have whole : (UInt32.ofNat content.length).toNat = content.length := by
        rw [UInt32.toNat_ofNat']
        omega
      refine ⟨name, _, _, ⟨leads_utf8.2 ⟨bs, hname⟩, rfl⟩, ⟨UInt32.ofNat content.length, _, _, rfl,
        ⟨content, _, [], ⟨rfl, whole.symm⟩, ⟨⟨spelled, shallow, ?_, ?_⟩, rfl⟩, rfl⟩, rfl⟩, by simp⟩
      · rw [kindAt_eq p hname, hkind]
      · rw [kindAt_eq p hname]
        exact other

theorem attributes_follows :
    Follows (attributes p) (Spelling.table (Attribute.Spelled p.get?)) := by
  intro c as c'
  have read := Follows.attributesBy p (nestedAttribute_follows p c.bytes.length) c as c'
  rw [attributes, read]
  refine exists_congr fun us => and_congr_left ?_
  intro parts
  obtain ⟨hbytes, -⟩ := parts
  rw [table_and]
  refine and_iff_left_of_imp ?_
  intro parts
  obtain ⟨-, v, hv, rfl⟩ := parts
  -- There are at least as many bytes as levels, so no level is cut off.
  have depth := nestings_le_length p.get? as ((allSpelled_iff _ _ _).2 hv)
  refine (nestings_le_iff as _).1 (Nat.le_trans depth ?_)
  simp only [hbytes, List.length_append]
  omega

end Reader
end ClassForge
