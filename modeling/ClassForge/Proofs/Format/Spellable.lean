import ClassForge.Proofs.Format.Respelling
import ClassForge.Proofs.Pool.Growing

namespace ClassForge

def Frame.Fits (f : Frame) : Prop :=
  (∃ byte, f.type? = some byte) ∧ match f with
    | full _ locals stack => locals.length ≤ 65535 ∧ stack.length ≤ 65535
    | _ => True

def Attribute.TablesFit : Attribute → Prop
  | code body => body.handlers.length ≤ 65535 ∧ body.attributes.length ≤ 65535
  | stackMap frames => frames.length ≤ 65535 ∧ ∀ f ∈ frames, f.Fits
  | exceptions thrown => thrown.length ≤ 65535
  | lineNumbers lines => lines.length ≤ 65535
  | localVariables scopes => scopes.length ≤ 65535
  | constantValue _ | synthetic | deprecated | signature _ | sourceFile _ | other .. => True

structure Attribute.Spellable (p : Pool) (a : Attribute) : Prop where
  links : ∀ link ∈ a.links, p.Resolves link
  named : ∃ name, a.Named p.get? name
  code : ∀ body, a = .code body → body.Fits
  tables : a.TablesFit
  short : a.contentSize < 4294967296

namespace Spelling

variable {α : Type} {F : Spelling α} {xs : List α} {p : Pool}

theorem exists_all (each : ∀ a ∈ xs, ∃ us, F a us) : ∃ us, all F xs us := by
  induction xs with
  | nil => exact ⟨[], rfl⟩
  | cons a rest ih =>
    obtain ⟨u, hu⟩ := each a List.mem_cons_self
    obtain ⟨v, hv⟩ := ih fun b hb => each b (List.mem_cons_of_mem a hb)
    exact ⟨u ++ v, u, v, hu, hv, rfl⟩

theorem exists_table (few : xs.length ≤ 65535) (each : ∀ a ∈ xs, ∃ us, F a us) :
    ∃ us, table F xs us := by
  obtain ⟨v, hv⟩ := exists_all each
  exact ⟨_, few, v, hv, rfl⟩

theorem exists_index {accepted : List Tag} {i : Index} (leads : p.Resolves (i, accepted)) :
    ∃ us, index p.get? accepted i us := ⟨_, Pool.resolves_iff.1 leads, rfl⟩

theorem exists_indexOrZero {accepted : List Tag} {i : Index}
    (leads : ∀ link ∈ Link.unlessZero i accepted, p.Resolves link) :
    ∃ us, indexOrZero p.get? accepted i us := by
  refine ⟨_, ?_, rfl⟩
  by_cases zero : i = 0
  · exact .inl zero
  · exact .inr (Pool.resolves_iff.1 (leads _ (Link.mem_unlessZero.2 ⟨zero, rfl⟩)))

theorem exists_indices {accepted : List Tag} {is : List Index} (few : is.length ≤ 65535)
    (leads : ∀ link ∈ is.map (·, accepted), p.Resolves link) :
    ∃ us, table (index p.get? accepted) is us :=
  exists_table few fun _ hi => exists_index (leads _ (List.mem_map_of_mem hi))

theorem exists_linked {links : α → List Link} (few : xs.length ≤ 65535)
    (leads : ∀ link ∈ xs.flatMap links, p.Resolves link)
    (each : ∀ a ∈ xs, (∀ link ∈ links a, p.Resolves link) → ∃ us, F a us) : ∃ us, table F xs us :=
  exists_table few fun a ha => each a ha fun link inside =>
    leads link (List.mem_flatMap.2 ⟨a, ha, inside⟩)

theorem exists_verificationType {t : VerificationType}
    (leads : ∀ link ∈ t.links, p.Resolves link) : ∃ us, verificationType p.get? t us := by
  cases t with
  | object c =>
    obtain ⟨v, hv⟩ := exists_index (leads _ List.mem_cons_self)
    exact ⟨7 :: v, v, hv, rfl⟩
  | _ => exact ⟨_, rfl⟩

theorem exists_frame {f : Frame} (fits : f.Fits) (leads : ∀ link ∈ f.links, p.Resolves link) :
    ∃ us, frame p.get? f us := by
  obtain ⟨⟨byte, type⟩, lengths⟩ := fits
  have each : ∀ t ∈ f.types, ∃ us, verificationType p.get? t us := fun t ht =>
    exists_verificationType fun link inside => leads link (List.mem_flatMap.2 ⟨t, ht, inside⟩)
  suffices rest : ∃ v, frameRest p.get? f v by
    obtain ⟨v, hv⟩ := rest
    exact ⟨byte :: v, byte, v, type, hv, rfl⟩
  cases f with
  | same _ | chop _ _ | sameExtended _ => exact ⟨_, rfl⟩
  | sameLocalsOneItem _ t => exact each t List.mem_cons_self
  | sameLocalsOneItemExtended _ t =>
    obtain ⟨v, hv⟩ := each t List.mem_cons_self
    exact ⟨_, v, hv, rfl⟩
  | append _ locals =>
    obtain ⟨v, hv⟩ := exists_all each
    exact ⟨_, v, hv, rfl⟩
  | full _ locals stack =>
    obtain ⟨v, hv⟩ := exists_table lengths.1 fun t ht => each t (List.mem_append_left _ ht)
    obtain ⟨w, hw⟩ := exists_table lengths.2 fun t ht => each t (List.mem_append_right _ ht)
    exact ⟨_, v, w, hv, hw, rfl⟩

theorem exists_handler {h : Handler} (leads : ∀ link ∈ h.links, p.Resolves link) :
    ∃ us, handler p.get? h us := by
  obtain ⟨v, hv⟩ := exists_indexOrZero leads
  exact ⟨_, v, hv, rfl⟩

theorem exists_localVariable {v : LocalVariable} (leads : ∀ link ∈ v.links, p.Resolves link) :
    ∃ us, localVariable p.get? v us := by
  simp only [LocalVariable.links, List.mem_cons, List.not_mem_nil, or_false, forall_eq_or_imp,
    forall_eq] at leads
  obtain ⟨n, hn⟩ := exists_index leads.1
  obtain ⟨d, hd⟩ := exists_index leads.2
  exact ⟨_, n, d, hn, hd, rfl⟩

end Spelling

theorem Pool.Sound.exists_written {p : Pool} (sound : p.Sound) : ∃ us, Writer.pool p = .ok us := by
  have each : ∀ e ∈ p.slots.toList.filterMap id, ∃ us,
      (∀ bytes, e = Entry.utf8 bytes → bytes.length ≤ 65535) ∧ us = e.bytes := by
    intro e he
    refine ⟨e.bytes, ?_, rfl⟩
    intro bytes same
    subst same
    obtain ⟨_, inside, rfl⟩ := List.mem_filterMap.1 he
    exact (sound.readable _ inside).1
  obtain ⟨v, hv⟩ := Spelling.exists_all each
  exact ⟨_, (Writer.pool_eq_ok p).2 ⟨sound.small, v, hv, rfl⟩⟩

namespace Attribute

open Spelling

variable {p : Pool}

mutual

theorem exists_contentSpelled (a : Attribute) (spellable : ∀ b ∈ a.nested, b.Spellable p) :
    ∃ us, a.contentSpelled p.get? us := by
  have own := spellable a a.mem_nested_self
  match a with
  | .code ⟨maxStack, maxLocals, bytes, handlers, inner⟩ =>
    simp only [nested, List.mem_cons, forall_eq_or_imp] at spellable
    obtain ⟨some, short, within⟩ := own.code _ rfl
    obtain ⟨few, few'⟩ := own.tables
    obtain ⟨v, hv⟩ := exists_linked few own.links fun h _ => exists_handler
    obtain ⟨w, hw⟩ := exists_allSpelled inner spellable.2
    simp only [contentSpelled]
    exact ⟨_, some, short, within, few', v, w, hv, hw, rfl⟩
  | .constantValue i | .signature i | .sourceFile i =>
    simp only [contentSpelled]
    exact exists_index (own.links _ List.mem_cons_self)
  | .stackMap frames =>
    simp only [contentSpelled]
    exact exists_linked own.tables.1 own.links fun f hf => exists_frame (own.tables.2 f hf)
  | .exceptions thrown =>
    simp only [contentSpelled]
    exact exists_indices own.tables own.links
  | .lineNumbers lines =>
    simp only [contentSpelled]
    exact exists_table own.tables fun l _ => ⟨_, rfl⟩
  | .localVariables scopes =>
    simp only [contentSpelled]
    exact exists_linked own.tables own.links fun v _ => exists_localVariable
  | .synthetic | .deprecated | .other .. =>
    simp only [contentSpelled]
    exact ⟨_, rfl⟩

theorem exists_allSpelled (as : List Attribute) (spellable : ∀ b ∈ nestedAll as, b.Spellable p) :
    ∃ us, allSpelled p.get? as us := by
  match as with
  | [] =>
    simp only [allSpelled]
    exact ⟨_, rfl⟩
  | a :: rest =>
    simp only [nestedAll, List.mem_append, or_imp, forall_and] at spellable
    have own := spellable.1 a a.mem_nested_self
    obtain ⟨name, named⟩ := own.named
    obtain ⟨content, hcontent⟩ := exists_contentSpelled a spellable.1
    obtain ⟨v, hv⟩ := exists_allSpelled rest spellable.2
    have size := contentSpelled_length a hcontent
    have short := own.short
    simp only [allSpelled]
    exact ⟨_, name, content, v, named, by omega, hcontent, hv, rfl⟩

end

theorem exists_spelled_table {as : List Attribute} (few : as.length ≤ 65535)
    (spellable : ∀ b ∈ nestedAll as, b.Spellable p) : ∃ us, table (Spelled p.get?) as us := by
  obtain ⟨v, hv⟩ := exists_allSpelled as spellable
  exact ⟨_, few, v, (allSpelled_iff _ _ _).1 hv, rfl⟩

end Attribute

namespace ClassFile

open Outcome Spelling

structure Fits (c : ClassFile) : Prop where
  interfaces : c.interfaces.length ≤ 65535
  fields : c.fields.length ≤ 65535
  methods : c.methods.length ≤ 65535
  attributes : c.attributes.length ≤ 65535
  members : ∀ m ∈ c.fields ++ c.methods, m.attributes.length ≤ 65535
  tables : ∀ a ∈ c.everyAttribute, a.TablesFit
  short : ∀ a ∈ c.everyAttribute, a.contentSize < 4294967296

variable {c : ClassFile}

theorem WellLinked.spellable (linked : c.WellLinked) (fits : c.Fits) :
    ∀ a ∈ c.everyAttribute, a.Spellable c.pool := by
  intro a inside
  obtain ⟨name, -, named⟩ := linked.named a inside
  have own : ∀ link ∈ a.links, c.pool.Resolves link := by
    intro link reference
    refine linked.links link ?_
    simp only [ClassFile.links, List.mem_append]
    exact .inr (List.mem_flatMap.2 ⟨a, inside, reference⟩)
  refine ⟨own, ⟨name, named⟩, ?_, fits.tables a inside, fits.short a inside⟩
  intro body same
  subst same
  exact linked.code body inside

theorem WellLinked.exists_member (linked : c.WellLinked) (fits : c.Fits) {m : Member}
    (inside : m ∈ c.fields ++ c.methods) : ∃ us, member c.pool.get? m us := by
  have own : ∀ link ∈ m.links, c.pool.Resolves link := by
    intro link reference
    refine linked.links link ?_
    simp only [ClassFile.links, List.mem_append]
    exact .inl (.inr (List.mem_flatMap.2 ⟨m, inside, reference⟩))
  simp only [Member.links, List.mem_cons, List.not_mem_nil, or_false, forall_eq_or_imp,
    forall_eq] at own
  obtain ⟨n, hn⟩ := exists_index own.1
  obtain ⟨d, hd⟩ := exists_index own.2
  have nested : ∀ b ∈ Attribute.nestedAll m.attributes, b.Spellable c.pool := fun b hb =>
    linked.spellable fits b (List.mem_append_left _ (List.mem_flatMap.2 ⟨m, inside, hb⟩))
  obtain ⟨v, hv⟩ := Attribute.exists_spelled_table (fits.members m inside) nested
  exact ⟨_, n, d, v, hn, hd, hv, rfl⟩

theorem WellLinked.readable (linked : c.WellLinked) (sound : c.pool.Sound)
    (oldest : Reader.oldestMajor ≤ c.major) (newest : c.major ≤ Reader.newestMajor) :
    c.Readable := by
  refine ⟨oldest, newest, sound.laidOut, Pool.brokenLink?_eq_none.2 linked.entries, ?_,
    linked.members, ?_⟩
  · intro bs inside
    exact (sound.readable _ inside).2
  · intro a inside
    obtain ⟨name, -, named⟩ := linked.named a inside
    cases a with
    | code body => exact (linked.code body inside).2.2
    | _ => exact Attribute.readable_of_named named (by simp)

/-- A class file whose indices lead where they may and whose tables fit is written, and read back
from what is written. -/
theorem WellLinked.exists_write (linked : c.WellLinked) (fits : c.Fits) (sound : c.pool.Sound)
    (oldest : Reader.oldestMajor ≤ c.major) (newest : c.major ≤ Reader.newestMajor) :
    ∃ bytes d, c.write = .ok bytes ∧ parse bytes = .ok d ∧ d.same c = true := by
  have indexed := sound.indexed
  have spellable := linked.spellable fits
  have ofClass : ∀ b ∈ Attribute.nestedAll c.attributes, b.Spellable c.pool := fun b hb =>
    spellable b (List.mem_append_right _ hb)
  have links := linked.links
  simp only [ClassFile.links, List.mem_append, List.mem_cons, or_imp, forall_and,
    forall_eq] at links
  obtain ⟨this, hthis⟩ := exists_index links.1.1.1.1
  obtain ⟨super, hsuper⟩ := exists_indexOrZero links.1.1.1.2
  obtain ⟨interfaces, hinterfaces⟩ := exists_indices fits.interfaces links.1.1.2
  obtain ⟨fields, hfields⟩ := exists_table (F := member c.pool.get?) fits.fields fun m hm =>
    linked.exists_member fits (List.mem_append_left _ hm)
  obtain ⟨methods, hmethods⟩ := exists_table (F := member c.pool.get?) fits.methods fun m hm =>
    linked.exists_member fits (List.mem_append_right _ hm)
  obtain ⟨attributes, hattributes⟩ := Attribute.exists_spelled_table fits.attributes ofClass
  obtain ⟨fields', writtenFields, -⟩ := Writer.members_respelled indexed .fields hfields
  obtain ⟨methods', writtenMethods, -⟩ := Writer.members_respelled indexed .methods hmethods
  obtain ⟨attributes', writtenAttributes, -⟩ := Writer.attributes_respelled indexed hattributes
  obtain ⟨poolBytes, writtenPool⟩ := sound.exists_written
  have written : ∃ bytes, c.write = .ok bytes := by
    simp only [write, Writer.classFile, bind_eq_ok, pure_eq_ok]
    exact ⟨_, poolBytes, writtenPool, this, (Writer.index_spells _ _ _ _).2 hthis, super,
      (Writer.indexOrZero_spells _ _ _ _).2 hsuper, interfaces,
      (Writer.table_spells _ (Writer.index_spells _ _) _ _).2 hinterfaces, fields', writtenFields,
      methods', writtenMethods, attributes', writtenAttributes, rfl⟩
  have readable := linked.readable sound oldest newest
  obtain ⟨bytes, written⟩ := written
  exact ⟨bytes, c.reread, written, parse_eq_ok.2 (spelled_of_write indexed written readable),
    same_reread c⟩

end ClassFile
end ClassForge
