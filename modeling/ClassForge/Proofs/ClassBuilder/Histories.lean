import ClassForge.Proofs.ClassBuilder.Building
import ClassForge.Proofs.Format.Spellable

namespace ClassForge

namespace Attribute

mutual

theorem nested_trans (a : Attribute) : ∀ b ∈ a.nested, ∀ x ∈ b.nested, x ∈ a.nested := by
  match a with
  | .code ⟨_, _, _, _, inner⟩ =>
    intro b hb x hx
    simp only [nested, List.mem_cons] at hb ⊢
    rcases hb with rfl | hb
    · simpa only [nested, List.mem_cons] using hx
    · exact .inr (nestedAll_trans inner b hb x hx)
  | .constantValue _ | .stackMap _ | .exceptions _ | .synthetic | .signature _ | .sourceFile _
  | .lineNumbers _ | .localVariables _ | .deprecated | .other .. =>
    simp [nested]

theorem nestedAll_trans (as : List Attribute) :
    ∀ b ∈ nestedAll as, ∀ x ∈ b.nested, x ∈ nestedAll as := by
  match as with
  | [] => simp [nestedAll]
  | a :: rest =>
    intro b hb x hx
    simp only [nestedAll, List.mem_append] at hb ⊢
    rcases hb with hb | hb
    · exact .inl (nested_trans a b hb x hx)
    · exact .inr (nestedAll_trans rest b hb x hx)

end

mutual

theorem kind_mem_kinds (a : Attribute) :
    ∀ b ∈ a.nested, ∀ k, b.kind? = some k → k ∈ a.kinds := by
  match a with
  | .code ⟨_, _, _, _, inner⟩ =>
    intro b hb k kind
    simp only [nested, List.mem_cons] at hb
    simp only [kinds, List.mem_cons]
    rcases hb with rfl | hb
    · exact .inl (Option.some.inj kind).symm
    · exact .inr (kind_mem_kindsOf inner b hb k kind)
  | .constantValue _ | .stackMap _ | .exceptions _ | .synthetic | .signature _ | .sourceFile _
  | .lineNumbers _ | .localVariables _ | .deprecated | .other .. =>
    simp [nested, kinds, kind?]

theorem kind_mem_kindsOf (as : List Attribute) :
    ∀ b ∈ nestedAll as, ∀ k, b.kind? = some k → k ∈ kindsOf as := by
  match as with
  | [] => simp [nestedAll]
  | a :: rest =>
    intro b hb k kind
    simp only [nestedAll, List.mem_append] at hb
    simp only [kindsOf, List.mem_append]
    rcases hb with hb | hb
    · exact .inl (kind_mem_kinds a b hb k kind)
    · exact .inr (kind_mem_kindsOf rest b hb k kind)

end

theorem contentSizes_le {as : List Attribute} {n : Nat} (each : ∀ a ∈ as, a.contentSize ≤ n) :
    contentSizes as ≤ as.length * (6 + n) := by
  induction as with
  | nil => simp [contentSizes]
  | cons a rest ih =>
    simp only [List.mem_cons, forall_eq_or_imp] at each
    have others := ih each.2
    rw [contentSizes, List.length_cons, Nat.succ_mul]
    omega

theorem Built.contentSize_le {p : Pool} {a : Attribute} (built : a.Built p) (tables : a.TablesFit)
    (flat : a.isCode = false) : a.contentSize ≤ 655352 := by
  cases a with
  | code body => simp [isCode] at flat
  | stackMap frames => exact absurd rfl (built.unframed frames)
  | other name content =>
    obtain ⟨k, kind⟩ := built.known
    simp [kind?] at kind
  | exceptions thrown | lineNumbers lines | localVariables scopes =>
    simp only [TablesFit] at tables
    simp only [contentSize]
    omega
  | constantValue _ | signature _ | sourceFile _ | synthetic | deprecated => simp [contentSize]

end Attribute

/-- Tables of an attribute whose lengths are up to the one who builds the class. -/
def Attribute.Limited : Attribute → Prop
  | exceptions thrown => thrown.length ≤ 65535
  | code body => body.handlers.length ≤ 65535
  | localVariables scopes => scopes.length ≤ 65535
  | _ => True

instance : DecidablePred Attribute.Limited := fun
  | .exceptions thrown => inferInstanceAs (Decidable (thrown.length ≤ 65535))
  | .code body => inferInstanceAs (Decidable (body.handlers.length ≤ 65535))
  | .localVariables scopes => inferInstanceAs (Decidable (scopes.length ≤ 65535))
  | .constantValue _ | .stackMap _ | .synthetic | .signature _ | .sourceFile _ | .lineNumbers _
  | .deprecated | .other .. => isTrue True.intro

structure ClassFile.Limited (m : ClassFile) : Prop where
  interfaces : m.interfaces.length ≤ 65535
  fields : m.fields.length ≤ 65535
  methods : m.methods.length ≤ 65535
  attributes : ∀ a ∈ m.everyAttribute, a.Limited

namespace ClassBuilder

variable {accepts : String → Bool} {c : ClassBuilder} {m : ClassFile}

namespace Makes

theorem member_built (makes : c.Makes m) (sound : c.Sound accepts) {x : Member}
    (inside : x ∈ m.fields ++ m.methods) :
    x.Built m.pool accepts ∨ x.Built m.pool Reader.acceptsMethod := by
  rw [makes.fields, makes.methods, List.mem_append] at inside
  rw [makes.pool]
  exact inside.imp (sound.fields x) (sound.methods x)

theorem built (makes : c.Makes m) (sound : c.Sound accepts) :
    ∀ a ∈ m.everyAttribute, a.Built m.pool := by
  intro a inside
  rw [ClassFile.everyAttribute, List.mem_append] at inside
  rcases inside with inside | inside
  · obtain ⟨x, member, inside⟩ := List.mem_flatMap.1 inside
    rcases makes.member_built sound member with built | built <;> exact built.attributes a inside
  · exact makes.attributes a inside

theorem everyAttribute_trans {a : Attribute} (inside : a ∈ m.everyAttribute) :
    ∀ b ∈ a.nested, b ∈ m.everyAttribute := by
  intro b hb
  rw [ClassFile.everyAttribute, List.mem_append] at inside ⊢
  rcases inside with inside | inside
  · obtain ⟨x, member, inside⟩ := List.mem_flatMap.1 inside
    exact .inl (List.mem_flatMap.2 ⟨x, member, Attribute.nestedAll_trans _ a inside b hb⟩)
  · exact .inr (Attribute.nestedAll_trans _ a inside b hb)

theorem named_of_mem (makes : c.Makes m) (sound : c.Sound accepts) {a : Attribute}
    (inside : a ∈ m.everyAttribute) : ∃ name, m.pool.Resolves (name, [.utf8]) ∧
      a.Named m.pool.get? name := by
  obtain ⟨k, kind⟩ := (makes.built sound a inside).known
  have known : k ∈ c.attributeKinds m.attributes := by
    rw [ClassFile.everyAttribute, List.mem_append] at inside
    rw [attributeKinds, List.mem_append, List.mem_append]
    rcases inside with inside | inside
    · obtain ⟨x, member, inside⟩ := List.mem_flatMap.1 inside
      have within := Attribute.kind_mem_kindsOf _ a inside k kind
      rw [makes.fields, makes.methods, List.mem_append] at member
      rcases member with member | member
      · exact .inl (.inl (List.mem_flatMap.2 ⟨x, member, within⟩))
      · exact .inl (.inr (List.mem_flatMap.2 ⟨x, member, within⟩))
    · exact .inr (Attribute.kind_mem_kindsOf _ a inside k kind)
  obtain ⟨i, holds⟩ := makes.named k known
  refine ⟨i, Pool.resolves_iff.2 ⟨_, holds, by simp [Entry.tag]⟩, ?_⟩
  cases a with
  | other own content => simp [Attribute.kind?] at kind
  | _ => exact ⟨k, kind, holds⟩

theorem wellLinked (makes : c.Makes m) (sound : c.Sound Reader.acceptsField) : m.WellLinked where
  entries := makes.pool ▸ sound.pool.linked
  links := by
    intro link inside
    simp only [ClassFile.links, List.mem_append, List.mem_cons, List.flatMap_append] at inside
    rcases inside with (((rfl | super) | interface) | member) | own
    · exact Pool.resolves_of_classNameAt? makes.thisClass
    · obtain ⟨nonzero, rfl⟩ := Link.mem_unlessZero.1 super
      have superClass := makes.superClass
      split at superClass
      · exact absurd superClass nonzero
      · exact Pool.resolves_of_classNameAt? superClass
    · obtain ⟨i, member, rfl⟩ := List.mem_map.1 interface
      exact makes.interfaces i member
    · rw [← List.mem_append, ← List.flatMap_append] at member
      obtain ⟨x, member, own⟩ := List.mem_flatMap.1 member
      have readable : ∃ accepts, x.Readable m.pool accepts := by
        rcases makes.member_built sound member with built | built
        · exact ⟨_, built.readable⟩
        · exact ⟨_, built.readable⟩
      obtain ⟨_, ⟨name, named⟩, descriptor, typed, -⟩ := readable
      simp only [Member.links, List.mem_cons, List.not_mem_nil, or_false] at own
      rcases own with rfl | rfl
      · exact Pool.resolves_of_utf8At? named
      · exact Pool.resolves_of_utf8At? typed
    · obtain ⟨a, inside, own⟩ := List.mem_flatMap.1 own
      exact (makes.built sound a inside).links link own
  members := by
    rw [ClassFile.MembersReadable, makes.fields, makes.methods, makes.pool]
    exact ⟨fun x inside => (sound.fields x inside).readable,
      fun x inside => (sound.methods x inside).readable⟩
  named a inside := makes.named_of_mem sound inside
  code body inside := ((makes.built sound _ inside).code body rfl).1

theorem fits (makes : c.Makes m) (sound : c.Sound accepts) (limited : m.Limited) : m.Fits := by
  have tables : ∀ a ∈ m.everyAttribute, a.TablesFit := by
    intro a inside
    have built := makes.built sound a inside
    cases a with
    | code body =>
      have few := (built.code body rfl).2.1
      exact ⟨limited.attributes _ inside, by omega⟩
    | stackMap frames => exact absurd rfl (built.unframed frames)
    | exceptions thrown => exact limited.attributes _ inside
    | lineNumbers lines => exact built.lines lines rfl
    | localVariables scopes => exact limited.attributes _ inside
    | _ => exact True.intro
  have flat : ∀ a ∈ m.everyAttribute, a.isCode = false → a.contentSize ≤ 655352 :=
    fun a inside => (makes.built sound a inside).contentSize_le (tables a inside)
  refine ⟨limited.interfaces, limited.fields, limited.methods, ?_, ?_, tables, ?_⟩
  · have few := makes.few
    omega
  · intro x member
    rcases makes.member_built sound member with built | built
    · have few := built.few
      omega
    · have few := built.few
      omega
  · intro a inside
    by_cases code : a.isCode
    · cases a with
      | code body =>
        obtain ⟨fits, few, inner⟩ := (makes.built sound _ inside).code body rfl
        have handlers : body.handlers.length ≤ 65535 := limited.attributes _ inside
        have within : ∀ b ∈ body.attributes, b.contentSize ≤ 655352 := by
          intro b hb
          refine flat b (everyAttribute_trans inside b ?_) (inner b hb)
          rw [Attribute.nested, List.mem_cons, Attribute.nestedAll_flat inner]
          exact .inr hb
        have sizes := Attribute.contentSizes_le within
        have length := fits.2.1
        have few' := Nat.mul_le_mul_right (6 + 655352) few
        simp only [Attribute.contentSize]
        omega
      | _ => simp [Attribute.isCode] at code
    · have size := flat a inside (Bool.not_eq_true _ ▸ code)
      omega

end Makes

inductive Call where
  | version (major minor : UInt16)
  | access (flags : UInt16)
  | superClass (name : String)
  | implements (name : String)
  | sourceFile (name : String)
  | defaultConstructor (wanted : Bool)
  | cache (known : DescriptorCache)
  | pool (request : Pool.Request)
  | field (flags : UInt16) (name : String) (type : FieldType)
  | constantField (flags : UInt16) (name : String) (type : FieldType) (value : Literal)
  | code (head : MethodHead) (steps : Listing)
  | noCode (head : MethodHead)

namespace Call

def perform : Call → BuilderM Unit
  | version major minor => modify (·.withVersion major minor)
  | access flags => modify (·.withAccess flags)
  | superClass name => modify (·.extending name)
  | implements name => modify (·.implementing name)
  | sourceFile name => modify (·.withSourceFile name)
  | defaultConstructor wanted => modify (·.withDefaultConstructor wanted)
  | cache known => modify (·.withCache known)
  | pool request => do
    let _ ← onPool request.answer
    return ()
  | field flags name type => ClassBuilder.field flags name type
  | constantField flags name type value => ClassBuilder.constantField flags name type value
  | code head steps => ClassBuilder.code head steps
  | noCode head => ClassBuilder.noCode head

/-- The class after the call, which may have failed. -/
def apply (call : Call) (c : ClassBuilder) : ClassBuilder :=
  match call.perform c with
  | .ok _ c | .error _ c => c

def isTyped : Call → Bool
  | field _ _ type | constantField _ _ type _ => Reader.acceptsField type.descriptor
  | _ => true

end Call

/-- The class after calls, of which those that fail are passed over. -/
def after (c : ClassBuilder) (calls : List Call) : ClassBuilder :=
  calls.foldl (fun c call => call.apply c) c

open Discipline

theorem Sound.of_same {c' : ClassBuilder} (sound : c.Sound accepts) (pool : c'.pool = c.pool)
    (fields : c'.fields = c.fields) (methods : c'.methods = c.methods) : c'.Sound accepts := by
  refine ⟨pool ▸ sound.pool, ?_, ?_⟩
  · rw [fields, pool]
    exact sound.fields
  · rw [methods, pool]
    exact sound.methods

theorem Sound.apply {call : Call} (sound : c.Sound Reader.acceptsField) (typed : call.isTyped = true) :
    (call.apply c).Sound Reader.acceptsField := by
  have ofEnsures (ensures : (building Reader.acceptsField).Ensures call.perform c
      Ensures.Anything) : (call.apply c).Sound Reader.acceptsField := by
    have outcome := ensures.outcome sound
    unfold Call.apply
    cases h : call.perform c with
    | ok u c' =>
      rw [h] at outcome
      exact outcome.1
    | error e c' =>
      rw [h] at outcome
      exact outcome.1
  cases call with
  | version major minor => exact sound.of_same rfl rfl rfl
  | access flags => exact sound.of_same rfl rfl rfl
  | superClass name => exact sound.of_same rfl rfl rfl
  | implements name => exact sound.of_same rfl rfl rfl
  | sourceFile name => exact sound.of_same rfl rfl rfl
  | defaultConstructor wanted => exact sound.of_same rfl rfl rfl
  | cache known => exact sound.of_same rfl rfl rfl
  | pool request =>
    exact ofEnsures ((ensures_of_pooling (ensures_onPool (Pool.ensures_answer request))).andThen
      fun _ _ => Ensures.pure _ fun _ => True.intro)
  | field flags name type => exact ofEnsures (ensures_field typed).anything
  | constantField flags name type value => exact ofEnsures (ensures_constantField typed)
  | code head steps => exact ofEnsures (ensures_code head steps).anything
  | noCode head => exact ofEnsures (ensures_noCode head).anything

theorem Sound.after {calls : List Call} (sound : c.Sound Reader.acceptsField)
    (typed : ∀ call ∈ calls, call.isTyped = true) : (c.after calls).Sound Reader.acceptsField := by
  induction calls generalizing c with
  | nil => exact sound
  | cons call rest ih =>
    simp only [List.mem_cons, forall_eq_or_imp] at typed
    exact ih (sound.apply typed.1) typed.2

theorem sound_ofName (name : String) : (ofName name).Sound accepts where
  pool := .empty
  fields := by simp [ofName]
  methods := by simp [ofName]

/-- Whatever calls a class is built by, what it becomes is written, and read back the same. -/
theorem exists_write_of_build {name : String} {calls : List Call} {m : ClassFile}
    {c : ClassBuilder} (typed : ∀ call ∈ calls, call.isTyped = true)
    (built : build ((ofName name).after calls) = .ok m c) (oldest : 45 ≤ m.major)
    (newest : m.major ≤ 65) (limited : m.Limited) :
    ∃ bytes d, m.write = .ok bytes ∧ ClassFile.parse bytes = .ok d ∧ d.same m = true := by
  have sound := (sound_ofName name).after typed
  obtain ⟨held, -, makes, -⟩ := ensures_build.of_eq_ok sound built
  exact (makes.wellLinked held).exists_write (makes.fits held limited)
    (makes.pool ▸ held.pool) oldest newest

/-- A body that fails after it has added to the pool, between members that stay. -/
def mended : List Call :=
  [.version 49 3, .implements "a.B", .field 2 "é𝄞" .long,
    .constantField 9 "n" .int (.int 70000),
    .code { name := "lost", descriptor := "()V" } [.push (.string "x"), .pop, .refuse .staticThis],
    .code { name := "kept", descriptor := "()V", throws := ["E"] }
      [.label "l", .label "r", .label "h", .place "l", .push (.string "x"), .pop, .place "r", .leave,
        .place "h", .pop, .leave, .tryCatch "l" "r" "h" none],
    .noCode { name := "open", descriptor := "(J)V", access := 1025 }, .sourceFile "C.java"]

theorem exists_write_of_build_mended : ∃ m c bytes d, build ((ofName "C").after mended) = .ok m c ∧
    m.write = .ok bytes ∧ ClassFile.parse bytes = .ok d ∧ d.same m = true := by
  have typed : ∀ call ∈ mended, call.isTyped = true := by decide +kernel
  generalize built : build ((ofName "C").after mended) = outcome
  have accepted : (match outcome with
      | .ok m _ => decide (m.major = 49) && decide (m.interfaces.length = 1) &&
        decide (m.fields.length = 2) && decide (m.methods.length = 3) &&
        decide (∀ a ∈ m.everyAttribute, a.Limited)
      | .error .. => false) = true := by
    subst built
    decide +kernel
  cases outcome with
  | error e c => simp at accepted
  | ok m c =>
    simp only [Bool.and_eq_true, decide_eq_true_eq] at accepted
    obtain ⟨⟨⟨⟨version, interfaces⟩, fields⟩, methods⟩, attributes⟩ := accepted
    obtain ⟨bytes, d, written, read, same⟩ := exists_write_of_build typed built
      (by rw [version]; decide) (by rw [version]; decide)
      ⟨by omega, by omega, by omega, attributes⟩
    exact ⟨m, c, bytes, d, rfl, written, read, same⟩

end ClassBuilder
end ClassForge
