import ClassForge.Proofs.Format.RoundTrip
import ClassForge.Proofs.Pool.Resolving

namespace ClassForge

def Link.unlessZero (i : Index) (accepted : List Tag) : List Link :=
  if i = 0 then [] else [(i, accepted)]

theorem Link.mem_unlessZero {i : Index} {accepted : List Tag} {link : Link} :
    link ∈ unlessZero i accepted ↔ i ≠ 0 ∧ link = (i, accepted) := by
  unfold unlessZero
  split <;> simp [*]

def VerificationType.links : VerificationType → List Link
  | object c => [(c, [.classRef])]
  | top | integer | float | long | double | null | uninitializedThis | uninitialized _ => []

namespace Frame

def types : Frame → List VerificationType
  | sameLocalsOneItem _ t | sameLocalsOneItemExtended _ t => [t]
  | append _ locals => locals
  | full _ locals stack => locals ++ stack
  | same _ | chop .. | sameExtended _ => []

def links (f : Frame) : List Link := f.types.flatMap VerificationType.links

end Frame

def Handler.links (h : Handler) : List Link := Link.unlessZero h.catchType [.classRef]

def LocalVariable.links (v : LocalVariable) : List Link :=
  [(v.name, [.utf8]), (v.descriptor, [.utf8])]

/-- The indices that an attribute holds itself, apart from those of attributes inside it. -/
def Attribute.links : Attribute → List Link
  | constantValue i => [(i, Reader.loadable)]
  | code body => body.handlers.flatMap Handler.links
  | stackMap frames => frames.flatMap Frame.links
  | exceptions thrown => thrown.map (·, [.classRef])
  | signature i | sourceFile i => [(i, [.utf8])]
  | localVariables scopes => scopes.flatMap LocalVariable.links
  | other name _ => [(name, [.utf8])]
  | synthetic | lineNumbers _ | deprecated => []

def Member.links (m : Member) : List Link := [(m.name, [.utf8]), (m.descriptor, [.utf8])]

/-- All indices of a class file outside its pool, those of attributes at any depth included. -/
def ClassFile.links (c : ClassFile) : List Link :=
  (c.thisClass, [.classRef]) :: Link.unlessZero c.superClass [.classRef] ++
    c.interfaces.map (·, [.classRef]) ++ (c.fields ++ c.methods).flatMap Member.links ++
    c.everyAttribute.flatMap Attribute.links

/-- Code has a length that a class file can give, and handlers inside it. -/
def CodeOf.Fits {α : Type} (body : CodeOf α) : Prop :=
  1 ≤ body.bytes.length ∧ body.bytes.length ≤ 65535 ∧ ∀ h ∈ body.handlers, h.Within body.bytes.length

namespace Spelling

variable {p : Pool}

theorem leads_of_type {t : VerificationType} {us : List UInt8}
    (spelled : verificationType p.get? t us) : ∀ link ∈ t.links, p.Resolves link := by
  cases t with
  | object c =>
    obtain ⟨v, hv, -⟩ := spelled
    simp only [VerificationType.links, List.mem_singleton, forall_eq]
    exact Pool.resolves_iff.2 hv.1
  | _ => simp [VerificationType.links]

theorem leads_of_types {ts : List VerificationType} {us : List UInt8}
    (spelled : all (verificationType p.get?) ts us) :
    ∀ t ∈ ts, ∀ link ∈ t.links, p.Resolves link := by
  intro t ht
  obtain ⟨u, hu⟩ := exists_spelled spelled ht
  exact leads_of_type hu

theorem leads_of_frame {f : Frame} {us : List UInt8} (spelled : frame p.get? f us) :
    ∀ link ∈ f.links, p.Resolves link := by
  obtain ⟨type, rest, -, hrest, -⟩ := spelled
  simp only [Frame.links, List.mem_flatMap, forall_exists_index, and_imp]
  intro link t ht inside
  refine (?_ : ∀ t ∈ f.types, ∀ link ∈ t.links, p.Resolves link) t ht link inside
  cases f with
  | same _ | chop _ _ | sameExtended _ => simp [Frame.types]
  | sameLocalsOneItem _ t =>
    simp only [Frame.types, List.mem_singleton, forall_eq]
    exact leads_of_type hrest
  | sameLocalsOneItemExtended _ t =>
    obtain ⟨v, hv, -⟩ := hrest
    simp only [Frame.types, List.mem_singleton, forall_eq]
    exact leads_of_type hv
  | append _ locals =>
    obtain ⟨v, hv, -⟩ := hrest
    exact leads_of_types hv
  | full _ locals stack =>
    obtain ⟨_, _, ⟨-, v, hv, -⟩, ⟨-, w, hw, -⟩, -⟩ := hrest
    simp only [Frame.types, List.mem_append, or_imp, forall_and]
    exact ⟨leads_of_types hv, leads_of_types hw⟩

theorem leads_of_handler {h : Handler} {us : List UInt8} (spelled : handler p.get? h us) :
    ∀ link ∈ h.links, p.Resolves link := by
  obtain ⟨v, ⟨zero | leads, -⟩, -⟩ := spelled
  · simp [Handler.links, Link.unlessZero, zero]
  · intro link inside
    obtain ⟨-, rfl⟩ := Link.mem_unlessZero.1 inside
    exact Pool.resolves_iff.2 leads

theorem leads_of_localVariable {v : LocalVariable} {us : List UInt8}
    (spelled : localVariable p.get? v us) : ∀ link ∈ v.links, p.Resolves link := by
  obtain ⟨n, d, hn, hd, -⟩ := spelled
  simp only [LocalVariable.links, List.mem_cons, List.not_mem_nil, or_false, forall_eq_or_imp,
    forall_eq]
  exact ⟨Pool.resolves_iff.2 hn.1, Pool.resolves_iff.2 hd.1⟩

theorem links_of_table {α : Type} {F : Spelling α} {links : α → List Link}
    (leads : ∀ a us, F a us → ∀ link ∈ links a, p.Resolves link) {xs : List α} {us : List UInt8}
    (spelled : table F xs us) : ∀ link ∈ xs.flatMap links, p.Resolves link := by
  obtain ⟨-, v, hv, -⟩ := spelled
  intro link inside
  obtain ⟨a, ha, own⟩ := List.mem_flatMap.1 inside
  obtain ⟨u, hu⟩ := exists_spelled hv ha
  exact leads a u hu link own

theorem links_of_indices {accepted : List Tag} {xs : List Index} {us : List UInt8}
    (spelled : table (index p.get? accepted) xs us) :
    ∀ link ∈ xs.map (·, accepted), p.Resolves link := by
  obtain ⟨-, v, hv, -⟩ := spelled
  intro link inside
  obtain ⟨i, hi, rfl⟩ := List.mem_map.1 inside
  obtain ⟨u, hu⟩ := exists_spelled hv hi
  exact Pool.resolves_iff.2 hu.1

end Spelling

namespace Attribute

variable {p : Pool}

open Spelling

def Stands (p : Pool) (a : Attribute) : Prop :=
  ∃ name content, a.Named p.get? name ∧ a.contentSpelled p.get? content

mutual

theorem nested_stand (a : Attribute) {name : Index} {us : List UInt8} (named : a.Named p.get? name)
    (spelled : a.contentSpelled p.get? us) : ∀ b ∈ a.nested, b.Stands p := by
  match a with
  | .code ⟨maxStack, maxLocals, bytes, handlers, inner⟩ =>
    have here : Stands p (.code ⟨maxStack, maxLocals, bytes, handlers, inner⟩) :=
      ⟨name, us, named, spelled⟩
    simp only [contentSpelled] at spelled
    obtain ⟨-, -, -, -, v, w, -, hw, -⟩ := spelled
    simp only [nested, List.mem_cons, forall_eq_or_imp]
    exact ⟨here, nestedAll_stand inner hw⟩
  | .constantValue _ | .stackMap _ | .exceptions _ | .synthetic | .signature _ | .sourceFile _
  | .lineNumbers _ | .localVariables _ | .deprecated | .other .. =>
    simp only [nested, List.mem_singleton, forall_eq]
    exact ⟨name, us, named, spelled⟩

theorem nestedAll_stand (as : List Attribute) {us : List UInt8}
    (spelled : allSpelled p.get? as us) : ∀ b ∈ nestedAll as, b.Stands p := by
  match as with
  | [] => simp [nestedAll]
  | a :: rest =>
    simp only [allSpelled] at spelled
    obtain ⟨i, body, v, named, -, hbody, hv, -⟩ := spelled
    simp only [nestedAll, List.mem_append, or_imp, forall_and]
    exact ⟨nested_stand a named hbody, nestedAll_stand rest hv⟩

end

theorem stand_of_table {as : List Attribute} {us : List UInt8}
    (spelled : Spelling.table (Spelled p.get?) as us) : ∀ b ∈ nestedAll as, b.Stands p := by
  obtain ⟨-, v, hv, -⟩ := spelled
  exact nestedAll_stand as ((allSpelled_iff _ _ _).2 hv)

namespace Stands

variable {a : Attribute}

theorem resolves (stands : a.Stands p) : ∀ link ∈ a.links, p.Resolves link := by
  obtain ⟨name, content, named, spelled⟩ := stands
  cases a with
  | constantValue i | signature i | sourceFile i =>
    simp only [links, List.mem_singleton, forall_eq]
    exact Pool.resolves_iff.2 spelled.1
  | code body =>
    simp only [contentSpelled] at spelled
    obtain ⟨-, -, -, -, v, w, hv, -⟩ := spelled
    exact links_of_table (fun _ _ h => leads_of_handler h) hv
  | stackMap frames =>
    simp only [contentSpelled] at spelled
    exact links_of_table (fun _ _ h => leads_of_frame h) spelled
  | exceptions thrown =>
    simp only [contentSpelled] at spelled
    exact links_of_indices spelled
  | localVariables scopes =>
    simp only [contentSpelled] at spelled
    exact links_of_table (fun _ _ h => leads_of_localVariable h) spelled
  | other own content =>
    obtain ⟨rfl, bs, hbs, -⟩ := named
    simp only [links, List.mem_singleton, forall_eq]
    exact Pool.resolves_iff.2 (leads_utf8.2 ⟨bs, hbs⟩)
  | synthetic | lineNumbers _ | deprecated => simp [links]

theorem fits {body : Code} (stands : (Attribute.code body).Stands p) : body.Fits := by
  obtain ⟨name, content, -, spelled⟩ := stands
  simp only [contentSpelled] at spelled
  exact ⟨spelled.1, spelled.2.1, spelled.2.2.1⟩

theorem exists_named (stands : a.Stands p) :
    ∃ name, p.Resolves (name, [.utf8]) ∧ a.Named p.get? name := by
  obtain ⟨name, content, named, -⟩ := stands
  exact ⟨name, Pool.resolves_iff.2 (leads_utf8.2 (exists_utf8_of_named _ a named)), named⟩

end Stands
end Attribute

namespace ClassFile

open Spelling

/-- Every index leads where it may, every name and descriptor reads as one, and all code fits. -/
structure WellLinked (c : ClassFile) : Prop where
  entries : ∀ e, some e ∈ c.pool.slots.toList → ∀ link ∈ e.references, c.pool.Resolves link
  links : ∀ link ∈ c.links, c.pool.Resolves link
  members : c.MembersReadable
  named : ∀ a ∈ c.everyAttribute, ∃ name, c.pool.Resolves (name, [.utf8]) ∧ a.Named c.pool.get? name
  code : ∀ body, .code body ∈ c.everyAttribute → body.Fits

theorem stand_of_members {p : Pool} {ms : List Member} {us : List UInt8}
    (spelled : table (member p.get?) ms us) :
    ∀ m ∈ ms, ∀ b ∈ Attribute.nestedAll m.attributes, b.Stands p := by
  intro m hm
  obtain ⟨-, v, hv, -⟩ := spelled
  obtain ⟨_, _, _, _, -, -, hattributes, -⟩ := exists_spelled hv hm
  exact Attribute.stand_of_table hattributes

theorem links_of_members {p : Pool} {ms : List Member} {us : List UInt8}
    (spelled : table (member p.get?) ms us) : ∀ link ∈ ms.flatMap Member.links, p.Resolves link := by
  refine links_of_table (fun m us hm => ?_) spelled
  obtain ⟨n, d, v, hn, hd, -⟩ := hm
  simp only [Member.links, List.mem_cons, List.not_mem_nil, or_false, forall_eq_or_imp, forall_eq]
  exact ⟨Pool.resolves_iff.2 hn.1, Pool.resolves_iff.2 hd.1⟩

theorem stand_of_spelled {c : ClassFile} {us : List UInt8} (spelled : classBody c.pool.get? c us) :
    ∀ a ∈ c.everyAttribute, a.Stands c.pool := by
  obtain ⟨_, _, _, _, _, _, -, -, -, hfields, hmethods, hattributes, -⟩ := spelled
  intro a inside
  simp only [everyAttribute, List.mem_append, List.mem_flatMap] at inside
  rcases inside with ⟨m, field | method, own⟩ | own
  · exact stand_of_members hfields m field a own
  · exact stand_of_members hmethods m method a own
  · exact Attribute.stand_of_table hattributes a own

theorem links_of_spelled {c : ClassFile} {us : List UInt8} (spelled : classBody c.pool.get? c us) :
    ∀ link ∈ c.links, c.pool.Resolves link := by
  have stand := stand_of_spelled spelled
  obtain ⟨_, _, _, _, _, _, hthis, hsuper, hinterfaces, hfields, hmethods, -, -⟩ := spelled
  intro link inside
  simp only [links, List.mem_append, List.mem_cons, List.flatMap_append] at inside
  rcases inside with (((rfl | super) | interface) | field | method) | own
  · exact Pool.resolves_iff.2 hthis.1
  · obtain ⟨nonzero, rfl⟩ := Link.mem_unlessZero.1 super
    exact Pool.resolves_iff.2 (hsuper.1.resolve_left nonzero)
  · exact links_of_indices hinterfaces link interface
  · exact links_of_members hfields link field
  · exact links_of_members hmethods link method
  · obtain ⟨a, ha, own⟩ := List.mem_flatMap.1 own
    exact (stand a ha).resolves link own

/-- No index of a class file that is read leads anywhere but to an entry it may lead to. -/
theorem wellLinked_of_parse {bytes : List UInt8} {c : ClassFile} (read : parse bytes = .ok c) :
    c.WellLinked := by
  obtain ⟨-, -, members, poolBytes, body, hpool, hbody, -⟩ := parse_eq_ok.1 read
  obtain ⟨taken, v, -, -, -, linked, -⟩ := hpool
  have stand := stand_of_spelled hbody
  exact ⟨Pool.brokenLink?_eq_none.1 linked, links_of_spelled hbody, members,
    fun a ha => (stand a ha).exists_named, fun body hbody => (stand _ hbody).fits⟩

theorem wellLinked_of_parse_guarded : ∃ c, parse ([0xCA, 0xFE, 0xBA, 0xBE, 0, 0, 0, 52, 0, 8] ++
      [1, 0, 1, 65, 7, 0, 1, 1, 0, 1, 109, 5, 0, 0, 0, 0, 0, 0, 0, 1, 1, 0, 3, 40, 41, 86] ++
      [1, 0, 4, 67, 111, 100, 101, 0, 33, 0, 2, 0, 0, 0, 0, 0, 0, 0, 1, 0, 9, 0, 3, 0, 6, 0, 1] ++
      [0, 7, 0, 0, 0, 21, 0, 1, 0, 0, 0, 0, 0, 1, 0xb1, 0, 1, 0, 0, 0, 1, 0, 0, 0, 2, 0, 0, 0, 0])
        = .ok c ∧ c.methods = guarded.methods ∧ c.WellLinked := by
  generalize read : parse _ = outcome
  have accepted : outcome.toOption.any (·.methods = guarded.methods) = true := by
    subst read
    decide +kernel
  cases outcome with
  | error e => simp [Except.toOption] at accepted
  | ok c => exact ⟨c, rfl, by simpa [Except.toOption] using accepted, wellLinked_of_parse read⟩

end ClassFile
end ClassForge
