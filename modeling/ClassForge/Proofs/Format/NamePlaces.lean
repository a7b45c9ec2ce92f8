import ClassForge.Proofs.Format.AttributeWriting

namespace ClassForge

open Spelling

theorem Spelling.index_length {entryAt : Index → Option Entry} {accepted : List Tag} (i : Index)
    (us : List UInt8) (spelled : index entryAt accepted i us) : us.length = 2 := by
  rw [spelled.2, Bytes.length_ofU16]

theorem Spelling.handler_length {entryAt : Index → Option Entry} (h : Handler) (us : List UInt8)
    (spelled : handler entryAt h us) : us.length = 8 := by
  obtain ⟨v, ⟨-, rfl⟩, rfl⟩ := spelled
  rfl

theorem Spelling.lineNumber_length (l : LineNumber) (us : List UInt8)
    (spelled : lineNumber l us) : us.length = 4 := by
  rw [show us = _ from spelled]
  rfl

theorem Spelling.localVariable_length {entryAt : Index → Option Entry} (l : LocalVariable)
    (us : List UInt8) (spelled : localVariable entryAt l us) : us.length = 10 := by
  obtain ⟨n, d, ⟨-, rfl⟩, ⟨-, rfl⟩, rfl⟩ := spelled
  rfl

theorem Spelling.verificationType_length {entryAt : Index → Option Entry} (t : VerificationType)
    (us : List UInt8) (spelled : verificationType entryAt t us) :
    us.length = Attribute.contentSize.typeSize t := by
  cases t with
  | object c =>
    obtain ⟨v, ⟨-, rfl⟩, rfl⟩ := spelled
    rfl
  | _ =>
    rw [show us = _ from spelled]
    rfl

theorem Spelling.frame_length {entryAt : Index → Option Entry} (f : Frame) (us : List UInt8)
    (spelled : frame entryAt f us) : us.length = Attribute.contentSize.frameSize f := by
  obtain ⟨type, v, -, hv, rfl⟩ := spelled
  have types {ts : List VerificationType} {w : List UInt8}
      (hw : all (verificationType entryAt) ts w) :
      w.length = Attribute.contentSize.typesSize ts := all_length verificationType_length hw
  cases f with
  | same d =>
    rw [show v = [] from hv]
    rfl
  | sameLocalsOneItem d t =>
    have item := verificationType_length t v hv
    simp only [List.length_cons, item, Attribute.contentSize.frameSize]
    omega
  | sameLocalsOneItemExtended d t =>
    obtain ⟨w, hw, rfl⟩ := hv
    have item := verificationType_length t w hw
    simp only [List.length_cons, List.length_append, Bytes.length_ofU16, item,
      Attribute.contentSize.frameSize]
    omega
  | chop d n | sameExtended d =>
    rw [show v = _ from hv]
    rfl
  | append d locals =>
    obtain ⟨w, hw, rfl⟩ := hv
    simp only [List.length_cons, List.length_append, Bytes.length_ofU16, types hw,
      Attribute.contentSize.frameSize]
    omega
  | full d locals stack =>
    obtain ⟨w, x, ⟨-, w, hw, rfl⟩, ⟨-, x, hx, rfl⟩, rfl⟩ := hv
    simp only [List.length_cons, List.length_append, Bytes.length_ofU16, types hw, types hx,
      Attribute.contentSize.frameSize]
    omega

namespace Attribute

variable {entryAt : Index → Option Entry}

mutual

theorem contentSpelled_length (a : Attribute) {us : List UInt8}
    (spelled : contentSpelled entryAt a us) : us.length = a.contentSize := by
  match a with
  | .code ⟨_, _, bytes, handlers, inner⟩ =>
    simp only [contentSpelled] at spelled
    obtain ⟨-, -, -, -, v, w, hv, hw, rfl⟩ := spelled
    have ofHandlers := table_length handler_length hv
    have inside := allSpelled_length inner hw
    simp only [contentSize, List.length_append, Bytes.length_ofU16, Bytes.length_ofU32]
    omega
  | .constantValue i | .signature i | .sourceFile i =>
    simp only [contentSpelled] at spelled
    exact index_length i us spelled
  | .stackMap frames =>
    simp only [contentSpelled] at spelled
    obtain ⟨-, v, hv, rfl⟩ := spelled
    rw [List.length_append, Bytes.length_ofU16, all_length frame_length hv, contentSize]
  | .exceptions thrown =>
    simp only [contentSpelled] at spelled
    exact table_length index_length spelled
  | .lineNumbers lines =>
    simp only [contentSpelled] at spelled
    exact table_length lineNumber_length spelled
  | .localVariables scopes =>
    simp only [contentSpelled] at spelled
    exact table_length localVariable_length spelled
  | .synthetic | .deprecated | .other .. =>
    simp only [contentSpelled] at spelled
    simp [spelled, contentSize]

theorem allSpelled_length (as : List Attribute) {us : List UInt8}
    (spelled : allSpelled entryAt as us) : us.length = contentSizes as := by
  match as with
  | [] =>
    simp only [allSpelled] at spelled
    simp [spelled, contentSizes]
  | a :: rest =>
    simp only [allSpelled] at spelled
    obtain ⟨name, content, v, -, -, hcontent, hv, rfl⟩ := spelled
    have first := contentSpelled_length a hcontent
    have others := allSpelled_length rest hv
    simp only [contentSizes, List.length_append, Bytes.length_ofU16, Bytes.length_ofU32]
    omega

end

mutual

/-- Where names of known attributes stand in the content of an attribute, and what names they are.
The content starts at `start`. -/
def innerNames (start : Nat) : Attribute → List (Nat × Kind)
  | .code ⟨_, _, bytes, handlers, inner⟩ =>
    namePlaces (start + 12 + bytes.length + 8 * handlers.length) inner
  | .constantValue _ | .stackMap _ | .exceptions _ | .synthetic | .signature _ | .sourceFile _
  | .lineNumbers _ | .localVariables _ | .deprecated | .other .. => []

def namePlaces (start : Nat) : List Attribute → List (Nat × Kind)
  | [] => []
  | a :: rest =>
    (a.kind?.map fun k => (start, k)).toList ++ innerNames (start + 6) a ++
      namePlaces (start + 6 + a.contentSize) rest

end

mutual

theorem innerNames_kinds (start : Nat) (a : Attribute) :
    a.kind?.toList ++ (innerNames start a).map (·.2) = a.kinds := by
  match a with
  | .code ⟨_, _, bytes, handlers, inner⟩ => simp [innerNames, kinds, kind?, namePlaces_kinds _ inner]
  | .constantValue _ | .stackMap _ | .exceptions _ | .synthetic | .signature _ | .sourceFile _
  | .lineNumbers _ | .localVariables _ | .deprecated | .other .. => simp [innerNames, kinds, kind?]

theorem namePlaces_kinds (start : Nat) (as : List Attribute) :
    (namePlaces start as).map (·.2) = kindsOf as := by
  match as with
  | [] => rfl
  | a :: rest =>
    have inside := innerNames_kinds (start + 6) a
    have others := namePlaces_kinds (start + 6 + a.contentSize) rest
    rw [namePlaces, kindsOf, ← inside, ← others]
    cases a.kind? <;> simp

end

end Attribute

namespace Member

def namePlaces (start : Nat) : List Member → List (Nat × Attribute.Kind)
  | [] => []
  | m :: rest =>
    Attribute.namePlaces (start + 8) m.attributes ++
      namePlaces (start + 8 + Attribute.contentSizes m.attributes) rest

def sizes (ms : List Member) : Nat :=
  ms.foldr (fun m n => 8 + Attribute.contentSizes m.attributes + n) 0

end Member

theorem Spelling.member_length {entryAt : Index → Option Entry} (m : Member) (us : List UInt8)
    (spelled : member entryAt m us) : us.length = 8 + Attribute.contentSizes m.attributes := by
  obtain ⟨n, d, v, hn, hd, ⟨-, w, hw, rfl⟩, rfl⟩ := spelled
  have inside := Attribute.allSpelled_length _ ((Attribute.allSpelled_iff _ _ _).2 hw)
  simp only [List.length_append, Bytes.length_ofU16, index_length _ _ hn, index_length _ _ hd]
  omega

theorem Spelling.members_length {entryAt : Index → Option Entry} {ms : List Member}
    {us : List UInt8} (spelled : table (member entryAt) ms us) : us.length = 2 + Member.sizes ms := by
  obtain ⟨-, v, hv, rfl⟩ := spelled
  rw [List.length_append, Bytes.length_ofU16, all_length member_length hv, Member.sizes]

theorem Spelling.pool_length {p : Pool} {us : List UInt8} (spelled : pool p us) : us.length =
    2 + (p.slots.toList.filterMap id).foldr (fun e n => e.bytes.length + n) 0 := by
  obtain ⟨_, v, rfl, -, ⟨es, rfl, hes⟩, -, rfl⟩ := spelled
  have slots : (Pool.ofSlots (es.flatMap Entry.slots)).slots.toList = es.flatMap Entry.slots := rfl
  have width : ∀ e us, entry e us → us.length = e.bytes.length := fun e us he => by rw [he.2]
  rw [slots, Pool.filterMap_slots, List.length_append, Bytes.length_ofU16, all_length width hes]

/-- Where names of known attributes stand in a class file, and what names they are. -/
def ClassFile.namePlaces (c : ClassFile) : List (Nat × Attribute.Kind) :=
  let entries := (c.pool.slots.toList.filterMap id).foldr (fun e n => e.bytes.length + n) 0
  let fields := 18 + entries + 2 * c.interfaces.length
  let methods := fields + 2 + Member.sizes c.fields
  let attributes := methods + 2 + Member.sizes c.methods
  Member.namePlaces (fields + 2) c.fields ++ Member.namePlaces (methods + 2) c.methods ++
    Attribute.namePlaces (attributes + 2) c.attributes

theorem Member.namePlaces_kinds (start : Nat) (ms : List Member) :
    (namePlaces start ms).map (·.2) = ms.flatMap fun m => Attribute.kindsOf m.attributes := by
  induction ms generalizing start with
  | nil => rfl
  | cons m rest ih =>
    rw [namePlaces, List.map_append, Attribute.namePlaces_kinds, ih, List.flatMap_cons]

theorem ClassFile.namePlaces_kinds (c : ClassFile) : c.namePlaces.map (·.2) =
    (c.fields ++ c.methods).flatMap (fun m => Attribute.kindsOf m.attributes) ++
      Attribute.kindsOf c.attributes := by
  simp only [namePlaces, List.map_append, Member.namePlaces_kinds, Attribute.namePlaces_kinds,
    List.flatMap_append]

end ClassForge
