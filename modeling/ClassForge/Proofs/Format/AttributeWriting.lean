import ClassForge.Proofs.Format.Writing

namespace ClassForge

namespace Attribute

mutual

def nested : Attribute → List Attribute
  | .code ⟨maxStack, maxLocals, bytes, handlers, inner⟩ =>
    .code ⟨maxStack, maxLocals, bytes, handlers, inner⟩ :: nestedAll inner
  | .constantValue i => [.constantValue i]
  | .stackMap frames => [.stackMap frames]
  | .exceptions thrown => [.exceptions thrown]
  | .synthetic => [.synthetic]
  | .signature i => [.signature i]
  | .sourceFile i => [.sourceFile i]
  | .lineNumbers lines => [.lineNumbers lines]
  | .localVariables scopes => [.localVariables scopes]
  | .deprecated => [.deprecated]
  | .other name content => [.other name content]

def nestedAll : List Attribute → List Attribute
  | [] => []
  | a :: rest => a.nested ++ nestedAll rest

end

/-- What only reading asks of an attribute itself: handlers lie inside their code, and content is
kept as bytes under unknown names only. -/
def Readable (p : Pool) : Attribute → Prop
  | .code body => ∀ h ∈ body.handlers, h.Within body.bytes.length
  | .other name _ => ∀ bs, p.get? name = some (.utf8 bs) → Kind.ofBytes? bs = none
  | _ => True

theorem mem_nested_self (a : Attribute) : a ∈ a.nested := by
  cases a <;> simp [nested]

end Attribute

namespace Writer

open Outcome

variable {p : Pool}

theorem name_eq_ok {a : Attribute} {us : List UInt8} : name p a = .ok us ↔
    ∃ i, us = Bytes.ofU16 i ∧ match a with
      | .other own _ => i = own ∧ ∃ bs, p.get? i = some (.utf8 bs)
      | a => ∃ k, a.kind? = some k ∧ p.find? (.utf8 k.bytes) = some i := by
  cases a with
  | other own content =>
    rw [name, index_spells p _ own us, Spelling.index, Spelling.leads_utf8]
    constructor
    · intro written
      exact ⟨own, written.2, rfl, written.1⟩
    · intro named
      obtain ⟨_, same, rfl, found⟩ := named
      exact ⟨found, same⟩
  | _ =>
    simp only [name, Attribute.kind?, Option.bind_some, Option.some.injEq, exists_eq_left']
    split
    · rename_i i found
      rw [found, Except.ok.injEq]
      simp [eq_comm]
    · rename_i missing
      simp [missing]

theorem content_flat {a : Attribute} (flat : ∀ body, a ≠ .code body) (us : List UInt8) :
    content p a = .ok us ↔ a.contentSpelled p.get? us := by
  cases a with
  | code body => exact absurd rfl (flat body)
  | constantValue i | signature i | sourceFile i =>
    simp only [content, Attribute.contentSpelled, index_spells p _ i us]
  | stackMap frames =>
    simp only [content, Attribute.contentSpelled, table_spells _ (frame_spells p) frames us]
  | exceptions thrown =>
    simp only [content, Attribute.contentSpelled, table_spells _ (index_spells p _) thrown us]
  | lineNumbers lines =>
    simp only [content, Attribute.contentSpelled, table_spells _ lineNumber_spells lines us]
  | localVariables scopes =>
    simp only [content, Attribute.contentSpelled, table_spells _ (localVariable_spells p) scopes us]
  | synthetic | deprecated | other name bytes =>
    simp [content, Attribute.contentSpelled, eq_comm]

theorem content_code_eq_ok {maxStack maxLocals : UInt16} {bytes : List UInt8}
    {handlers : List Handler} {inner : List Attribute} {us : List UInt8} :
    content p (.code ⟨maxStack, maxLocals, bytes, handlers, inner⟩) = .ok us ↔
      0 < bytes.length ∧ bytes.length ≤ 65535 ∧ inner.length ≤ 65535 ∧ ∃ v w,
        Spelling.table (Spelling.handler p.get?) handlers v ∧ attributeParts p inner [] = .ok w ∧
        us = Bytes.ofU16 maxStack ++ Bytes.ofU16 maxLocals ++
          Bytes.ofU32 (UInt32.ofNat bytes.length) ++ bytes ++ v ++
          Bytes.ofU16 (UInt16.ofNat inner.length) ++ w := by
  have tables := table_spells Table.handlers (handler_spells p) handlers
  simp only [content, guard_eq_ok, bind_eq_ok, pure_eq_ok, tables, not_or, Nat.not_lt]
  constructor
  · intro written
    obtain ⟨⟨some, short⟩, v, hv, few, w, hw, rfl⟩ := written
    exact ⟨Nat.pos_of_ne_zero some, short, few, v, w, hv, hw, rfl⟩
  · intro spelled
    obtain ⟨some, short, few, v, w, hv, hw, rfl⟩ := spelled
    exact ⟨⟨Nat.ne_of_gt some, short⟩, v, hv, few, w, hw, rfl⟩

theorem attributeParts_eq_ok {as : List Attribute} {written : List (List UInt8)}
    {us : List UInt8} : attributeParts p as written = .ok us ↔
      ∃ v, attributeParts p as [] = .ok v ∧ us = written.reverse.flatten ++ v := by
  induction as generalizing written us with
  | nil => simp [attributeParts, eq_comm]
  | cons a rest ih =>
    simp only [attributeParts, guard_eq_ok, bind_eq_ok]
    constructor
    · intro parts
      obtain ⟨n, hn, body, hbody, short, hrest⟩ := parts
      obtain ⟨v, hv, rfl⟩ := ih.1 hrest
      exact ⟨_, ⟨n, hn, body, hbody, short, ih.2 ⟨v, hv, rfl⟩⟩, by simp⟩
    · intro parts
      obtain ⟨_, ⟨n, hn, body, hbody, short, hrest⟩, rfl⟩ := parts
      obtain ⟨v, hv, rfl⟩ := ih.1 hrest
      exact ⟨n, hn, body, hbody, short, ih.2 ⟨v, hv, by simp⟩⟩

theorem attributeParts_cons_eq_ok {a : Attribute} {rest : List Attribute} {us : List UInt8} :
    attributeParts p (a :: rest) [] = .ok us ↔ ∃ n body v, name p a = .ok n ∧
      content p a = .ok body ∧ body.length < 4294967296 ∧ attributeParts p rest [] = .ok v ∧
      us = n ++ Bytes.ofU32 (UInt32.ofNat body.length) ++ body ++ v := by
  simp only [attributeParts, guard_eq_ok, bind_eq_ok, Nat.not_lt]
  constructor
  · intro parts
    obtain ⟨n, hn, body, hbody, short, hrest⟩ := parts
    obtain ⟨v, hv, rfl⟩ := attributeParts_eq_ok.1 hrest
    exact ⟨n, body, v, hn, hbody, by omega, hv, by simp⟩
  · intro parts
    obtain ⟨n, body, v, hn, hbody, short, hv, rfl⟩ := parts
    exact ⟨n, hn, body, hbody, by omega, attributeParts_eq_ok.2 ⟨v, hv, by simp⟩⟩

theorem named_of_name (indexed : p.Indexed) {a : Attribute} (readable : a.Readable p)
    {us : List UInt8} (written : name p a = .ok us) :
    ∃ i, us = Bytes.ofU16 i ∧ a.Named p.get? i := by
  obtain ⟨i, bytes, named⟩ := name_eq_ok.1 written
  refine ⟨i, bytes, ?_⟩
  cases a with
  | other own content =>
    obtain ⟨rfl, bs, hbs⟩ := named
    exact ⟨rfl, bs, hbs, readable bs hbs⟩
  | _ =>
    obtain ⟨k, kind, found⟩ := named
    exact ⟨k, kind, ((indexed _ _).1 found).1⟩

mutual

theorem contentSpelled_of_content (indexed : p.Indexed) (a : Attribute)
    (readable : ∀ b ∈ a.nested, b.Readable p) {us : List UInt8} (written : content p a = .ok us) :
    a.contentSpelled p.get? us := by
  match a with
  | .code ⟨maxStack, maxLocals, bytes, handlers, inner⟩ =>
    obtain ⟨some, short, few, v, w, hv, hw, rfl⟩ := content_code_eq_ok.1 written
    simp only [Attribute.nested, List.mem_cons, forall_eq_or_imp] at readable
    have inside := allSpelled_of_attributeParts indexed inner readable.2 hw
    simp only [Attribute.contentSpelled]
    exact ⟨some, short, readable.1, few, v, w, hv, inside, rfl⟩
  | .constantValue _ | .stackMap _ | .exceptions _ | .synthetic | .signature _ | .sourceFile _
  | .lineNumbers _ | .localVariables _ | .deprecated | .other .. =>
    exact (content_flat (by simp) us).1 written

theorem allSpelled_of_attributeParts (indexed : p.Indexed) (as : List Attribute)
    (readable : ∀ b ∈ Attribute.nestedAll as, b.Readable p) {us : List UInt8}
    (written : attributeParts p as [] = .ok us) : Attribute.allSpelled p.get? as us := by
  match as with
  | [] =>
    simp only [attributeParts, Except.ok.injEq] at written
    simp [Attribute.allSpelled, ← written]
  | a :: rest =>
    obtain ⟨_, body, v, hn, hbody, short, hv, rfl⟩ := attributeParts_cons_eq_ok.1 written
    simp only [Attribute.nestedAll, List.mem_append, or_imp, forall_and] at readable
    obtain ⟨i, rfl, named⟩ := named_of_name indexed (readable.1 a a.mem_nested_self) hn
    have first := contentSpelled_of_content indexed a readable.1 hbody
    have others := allSpelled_of_attributeParts indexed rest readable.2 hv
    simp only [Attribute.allSpelled]
    exact ⟨i, body, v, named, short, first, others, rfl⟩

end

end Writer
end ClassForge
