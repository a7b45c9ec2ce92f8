import ClassForge.Proofs.ClassBuilder.Blindness
import ClassForge.Proofs.Code.Framing

namespace ClassForge

def Code.Suits (major : UInt16) (code : Code) : Prop :=
  ClassBuilder.stackMapMajor ≤ major → code.Frameless

namespace Attribute

def Codes (P : Code → Prop) (as : List Attribute) : Prop := ∀ code, .code code ∈ nestedAll as → P code

variable {P Q : Code → Prop} {as bs : List Attribute}

theorem Codes.mono (codes : Codes P as) (weaker : ∀ code, P code → Q code) : Codes Q as :=
  fun code inside => weaker code (codes code inside)

theorem Codes.append (first : Codes P as) (second : Codes P bs) : Codes P (as ++ bs) := by
  intro code inside
  rw [nestedAll_append, List.mem_append] at inside
  exact inside.elim (first code) (second code)

theorem codes_flat (flat : ∀ a ∈ as, a.isCode = false) : Codes P as := by
  intro code inside
  rw [nestedAll_flat flat] at inside
  cases flat _ inside

theorem codes_code {code : Code} (holds : P code) (flat : ∀ a ∈ code.attributes, a.isCode = false) :
    Codes P [.code code] := by
  intro inner inside
  rw [nestedAll, nestedAll, List.append_nil, nested, nestedAll_flat flat, List.mem_cons] at inside
  rcases inside with same | inside
  · cases same
    exact holds
  · cases flat _ inside

end Attribute

theorem Body.flat_of_finish {b : Body} {code : Code} (done : b.finish = .ok code) :
    ∀ a ∈ code.attributes, a.isCode = false := by
  simp only [finish, Outcome.bind_eq_ok, Outcome.pure_eq_ok] at done
  obtain ⟨-, -, -, -, -, -, -, -, -, -, -, -, rfl⟩ := done
  intro a inside
  rw [List.mem_append] at inside
  rcases inside with inside | inside
  all_goals
    split at inside
    · cases inside
    · rw [List.mem_singleton.1 inside]
      rfl

namespace ClassBuilder

open Discipline Attribute

variable {c d : ClassBuilder} {P : Member → Prop} {α : Type}

def members (c : ClassBuilder) : List Member := c.fields.toList ++ c.methods.toList

def adding (P : Member → Prop) : Discipline ClassBuilder where
  Holds _ := True
  Onward c d := d.major = c.major ∧ ∀ x ∈ d.members, x ∈ c.members ∨ P x
  refl _ := ⟨rfl, fun _ inside => .inl inside⟩
  trans first second := by
    refine ⟨second.1.trans first.1, fun x inside => ?_⟩
    rcases second.2 x inside with inside | new
    · exact first.2 x inside
    · exact .inr new

theorem adding_keeps {m : BuilderM α} (keeps : (view false).Keeps m) :
    (adding P).Ensures m c fun _ d => d.members = c.members ∧ d.major = c.major := by
  have same {d : ClassBuilder} (onward : (view false).Onward c d) :
      d.members = c.members ∧ d.major = c.major := by
    have members := congrArg members onward.fixed
    have major := congrArg major onward.fixed
    exact ⟨members, major⟩
  have onward := keeps.onward c
  constructor
  intro _
  cases h : m c with
  | ok a d =>
    rw [h] at onward
    obtain ⟨members, major⟩ := same onward
    exact ⟨True.intro, ⟨major, fun x inside => .inl (members ▸ inside)⟩, members, major⟩
  | error e d =>
    rw [h] at onward
    obtain ⟨members, major⟩ := same onward
    exact ⟨True.intro, major, fun x inside => .inl (members ▸ inside)⟩

theorem adding_modify {f : ClassBuilder → ClassBuilder} (major : (f c).major = c.major)
    (members : ∀ x ∈ (f c).members, x ∈ c.members ∨ P x) :
    (adding P).Ensures (modify f : BuilderM Unit) c Ensures.Anything :=
  .modify fun _ => ⟨True.intro, ⟨major, members⟩, True.intro⟩

theorem adding_field (plain : ∀ x : Member, Codes (fun _ => False) x.attributes → P x)
    (access : UInt16) (name : String) (type : FieldType) {attributes : List Attribute}
    (flat : ∀ a ∈ attributes, a.isCode = false) :
    (adding P).Ensures (addField access name type attributes) c Ensures.Anything := by
  refine (adding_keeps (keeps_onPool (.utf8 _))).andThen fun n _ => ?_
  refine (adding_keeps (keeps_onPool (.utf8 _))).andThen fun d _ => ?_
  refine Ensures.get.andThen fun _ _ => (adding_keeps (keeps_note _)).andThen fun _ c' => ?_
  refine adding_modify rfl fun x inside => ?_
  simp only [members, Array.toList_push, List.mem_append, List.mem_singleton] at inside ⊢
  rcases inside with (inside | rfl) | inside
  · exact .inl (.inl inside)
  · exact .inr (plain _ (codes_flat flat))
  · exact .inl (.inr inside)

theorem adding_assemble (h : MethodHead) (steps : Listing) :
    (adding P).Ensures (assemble h steps) c fun a _ => Codes (Code.Suits c.major) [a] := by
  rw [assemble_eq]
  refine (adding_keeps (keeps_bodyRun h steps)).bind fun b c₁ _ _ same => ?_
  refine Ensures.get.bind fun here c₂ _ _ looked => ?_
  obtain ⟨rfl, rfl⟩ := looked
  split
  · exact Ensures.throw _
  · rename_i passed
    refine (adding_keeps (keeps_noteAll _)).bind fun _ c₃ _ _ _ => ?_
    cases finished : b.finish with
    | error e => exact Ensures.throw _
    | ok code =>
      refine Ensures.pure _ fun _ => ?_
      refine codes_code (fun newer => b.frameless_of_finish finished ?_) (b.flat_of_finish finished)
      rw [← same.2] at newer
      exact Bool.not_eq_true _ ▸ fun needs => passed ⟨newer, needs⟩

theorem adding_finishMethod (h : MethodHead) {code : List Attribute} {Q : Code → Prop}
    (codes : Codes Q code) :
    (adding P).Ensures (finishMethod h code) c fun m _ => Codes Q m.attributes := by
  refine (adding_keeps (keeps_onPool (.utf8 _))).bind fun n c₁ _ _ _ => ?_
  refine (adding_keeps (keeps_onPool (.utf8 _))).bind fun d c₂ _ _ _ => ?_
  refine (adding_keeps (.mapM fun t => keeps_onPool (.classRef t))).bind fun thrown c₃ _ _ _ => ?_
  refine Ensures.pure _ fun _ => codes.append (codes_flat ?_)
  split
  · simp
  · simp [isCode]

theorem adding_addMethod (h : MethodHead) {make : BuilderM Member} {good : Member → Prop}
    (makes : (adding P).Ensures make c fun m _ => good m) (new : ∀ m, good m → P m) :
    (adding P).Ensures (addMethod h make) c Ensures.Anything := by
  constructor
  intro start
  have outcome := makes.outcome start
  unfold addMethod
  dsimp only
  cases made : make c with
  | error e d =>
    rw [made] at outcome
    exact outcome
  | ok m d =>
    rw [made] at outcome
    obtain ⟨-, ⟨major, inside⟩, holds⟩ := outcome
    refine ⟨True.intro, ⟨major, fun x member => ?_⟩, True.intro⟩
    simp only [members, Array.toList_push, ← List.append_assoc] at member
    rcases List.mem_append.1 member with member | member
    · exact inside x member
    · rw [List.mem_singleton.1 member]
      exact .inr (new m holds)

theorem adding_checked (h : MethodHead) {make : BuilderM Unit}
    (makes : ∀ d : ClassBuilder, d.major = c.major →
      (adding P).Ensures make d Ensures.Anything) :
    (adding P).Ensures (do
      modify fun c : ClassBuilder => { c with lastRun := none }
      checkSignature h
      make) c Ensures.Anything := by
  refine (adding_modify rfl fun x inside => .inl inside).bind fun _ c₁ _ onward₁ _ => ?_
  refine (adding_keeps (keeps_checkSignature h)).bind fun _ c₂ _ onward₂ _ => ?_
  exact makes c₂ (onward₂.1.trans onward₁.1)

theorem adding_code (h : MethodHead) (steps : Listing)
    (new : ∀ x : Member, Codes (Code.Suits c.major) x.attributes → P x) :
    (adding P).Ensures (code h steps) c Ensures.Anything := by
  refine adding_checked h fun d major => ?_
  split
  · refine adding_addMethod h ((adding_assemble h steps).bind fun a c₁ _ _ codes =>
      adding_finishMethod h codes) fun m codes => new m ?_
    rw [← major]
    exact codes
  · exact Ensures.throw _

theorem adding_noCode (h : MethodHead)
    (plain : ∀ x : Member, Codes (fun _ => False) x.attributes → P x) :
    (adding P).Ensures (noCode h) c Ensures.Anything := by
  refine adding_checked h fun d major => ?_
  split
  · exact Ensures.throw _
  · exact adding_addMethod h (adding_finishMethod h (codes_flat (by simp))) plain

namespace Call

def setsVersion : Call → Bool
  | version _ _ => true
  | _ => false

def addsCode : Call → Bool
  | code _ _ => true
  | _ => false

theorem adding (call : Call) (stays : call.setsVersion = false)
    (plain : ∀ x : Member, Codes (fun _ => False) x.attributes → P x)
    (new : ∀ h steps, call = .code h steps →
      ∀ x : Member, Codes (Code.Suits c.major) x.attributes → P x) :
    (adding P).Ensures call.perform c Ensures.Anything := by
  cases call with
  | version major minor => cases stays
  | access _ | superClass _ | implements _ | sourceFile _ | defaultConstructor _ | cache _ =>
    exact adding_modify rfl fun x inside => .inl inside
  | pool request =>
    exact (adding_keeps (keeps_onPool (.answer request))).andThen fun _ _ =>
      Ensures.pure _ fun _ => True.intro
  | field flags name type => exact adding_field plain flags name type (by simp)
  | constantField flags name type value =>
    change (ClassBuilder.adding P).Ensures (ClassBuilder.constantField flags name type value) c _
    unfold ClassBuilder.constantField
    split
    · exact (adding_keeps (keeps_onPool (.literal value))).andThen fun _ _ =>
        adding_field plain flags name type (by simp [isCode])
    · exact Ensures.throw _
  | code head steps => exact adding_code head steps (new head steps rfl)
  | noCode head => exact adding_noCode head plain

theorem onward_apply {call : Call}
    (ensures : (ClassBuilder.adding P).Ensures call.perform c Ensures.Anything) :
    (ClassBuilder.adding P).Onward c (call.apply c) := by
  have outcome := ensures.outcome True.intro
  unfold apply
  cases h : call.perform c with
  | ok u d =>
    rw [h] at outcome
    exact outcome.2.1
  | error e d =>
    rw [h] at outcome
    exact outcome.2

theorem major_apply {call : Call} (stays : call.setsVersion = false) :
    (call.apply c).major = c.major :=
  (onward_apply (call.adding (P := fun _ => True) stays (fun _ _ => True.intro)
    fun _ _ _ _ _ => True.intro)).1

theorem mem_members_apply {call : Call} {x : Member} (inside : x ∈ (call.apply c).members) :
    x ∈ c.members ∨ Codes (fun _ => False) x.attributes ∨
      (∃ h steps, call = .code h steps) ∧ Codes (Code.Suits c.major) x.attributes := by
  cases sets : call.setsVersion with
  | true =>
    cases call with
    | version major minor => exact .inl inside
    | _ => cases sets
  | false =>
    let new (x : Member) := Codes (fun _ => False) x.attributes ∨
      (∃ h steps, call = .code h steps) ∧ Codes (Code.Suits c.major) x.attributes
    have adds : (ClassBuilder.adding new).Ensures call.perform c Ensures.Anything :=
      call.adding sets (fun _ plain => .inl plain)
        fun h steps same _ codes => .inr ⟨⟨h, steps, same⟩, codes⟩
    exact (onward_apply adds).2 x inside

end Call

theorem after_concat (calls : List Call) (call : Call) :
    c.after (calls ++ [call]) = call.apply (c.after calls) := List.foldl_concat ..

theorem major_after {calls : List Call} (stays : ∀ call ∈ calls, call.setsVersion = false) :
    (c.after calls).major = c.major := by
  induction calls generalizing c with
  | nil => rfl
  | cons call rest ih =>
    simp only [List.mem_cons, forall_eq_or_imp] at stays
    exact (ih stays.2).trans (Call.major_apply stays.1)

/-- The code is that of a method that was added under a version without stack maps. -/
def Early (name : String) (calls : List Call) (code : Code) : Prop :=
  ∃ before h steps rest, calls = before ++ .code h steps :: rest ∧
    ((ofName name).after before).major < stackMapMajor ∧
    ∃ x ∈ ((ofName name).after (before ++ [.code h steps])).members,
      .code code ∈ nestedAll x.attributes

theorem Early.concat {name : String} {calls : List Call} {code : Code}
    (early : Early name calls code) (call : Call) : Early name (calls ++ [call]) code := by
  obtain ⟨before, h, steps, rest, rfl, older, added⟩ := early
  exact ⟨before, h, steps, rest ++ [call], by simp, older, added⟩

/-- Only code that was added under an older version may branch. -/
theorem frameless_or_early (name : String) (calls : List Call) :
    ∀ x ∈ ((ofName name).after calls).members,
      Codes (fun code => code.Frameless ∨ Early name calls code) x.attributes := by
  induction calls using List.reverseRecOn with
  | nil =>
    intro x inside
    cases inside
  | append_singleton calls call ih =>
    intro x inside
    have added := inside
    rw [after_concat] at inside
    rcases Call.mem_members_apply inside with old | plain | ⟨⟨h, steps, rfl⟩, codes⟩
    · exact (ih x old).mono fun code holds => holds.imp_right fun early => early.concat call
    · exact plain.mono fun code absurd => absurd.elim
    · intro code within
      by_cases newer : stackMapMajor ≤ ((ofName name).after calls).major
      · exact .inl (codes code within newer)
      · exact .inr ⟨calls, h, steps, [], rfl, UInt16.not_le.1 newer, x, added, within⟩

theorem adding_completeConstructors
    (new : ∀ x : Member, Codes (Code.Suits c.major) x.attributes → P x) :
    (adding P).Ensures completeConstructors c Ensures.Anything := by
  unfold completeConstructors
  refine Ensures.get.bind fun here c₁ _ _ same => ?_
  obtain ⟨rfl, rfl⟩ := same
  split
  · unfold addDefaultConstructor
    refine Ensures.get.bind fun here c₁ _ _ same => ?_
    obtain ⟨rfl, rfl⟩ := same
    refine (adding_keeps (keeps_note _)).bind fun _ c₂ _ onward _ => ?_
    exact adding_code _ _ fun x codes => new x (onward.1 ▸ codes)
  · exact Ensures.pure _ fun _ => True.intro

structure Members (c : ClassBuilder) (m : ClassFile) : Prop where
  members : m.fields ++ m.methods = c.members
  major : m.major = c.major
  flat : ∀ a ∈ m.attributes, a.isCode = false

theorem adding_build (new : ∀ x : Member, Codes (Code.Suits c.major) x.attributes → P x) :
    (adding P).Ensures build c fun m d => d.Members m := by
  unfold build
  refine (adding_completeConstructors new).bind fun _ c₁ _ _ _ => ?_
  refine Ensures.get.bind fun here c₂ _ _ _ => ?_
  refine (adding_keeps (keeps_onPool (.classRef _))).bind fun thisClass c₃ _ _ _ => ?_
  refine (adding_keeps keeps_superIndex).bind fun superClass c₄ _ _ _ => ?_
  refine (adding_keeps (.mapM fun i => keeps_onPool (.classRef i))).bind fun is c₅ _ _ _ => ?_
  have sources : (adding P).Ensures sourceAttributes c₅ fun as _ => ∀ a ∈ as, a.isCode = false := by
    unfold sourceAttributes
    refine Ensures.get.bind fun here c₆ _ _ _ => ?_
    split
    · refine (adding_keeps (keeps_onPool (.utf8 _))).bind fun i c₇ _ _ _ => ?_
      exact Ensures.pure _ fun _ => by simp [isCode]
    · exact Ensures.pure _ fun _ => by simp
  refine sources.bind fun attributes c₆ _ _ flat => ?_
  refine (adding_keeps (keeps_nameAttributes attributes)).bind fun _ c₇ _ _ _ => ?_
  refine Ensures.get.bind fun here c₈ _ _ same => ?_
  obtain ⟨rfl, rfl⟩ := same
  refine (adding_keeps (keeps_note _)).bind fun _ c₉ _ _ same => ?_
  exact Ensures.pure _ fun _ => ⟨same.1.symm, same.2.symm, flat⟩

theorem code_of_build {m : ClassFile} (built : build c = .ok m d)
    (newer : stackMapMajor ≤ m.major) :
    m.major = c.major ∧ ∀ code : Code, .code code ∈ m.everyAttribute → code.Frameless ∨
      ∃ x ∈ c.members, .code code ∈ nestedAll x.attributes := by
  have ensures := adding_build (c := c) (P := fun x => Codes (Code.Suits c.major) x.attributes)
    fun _ codes => codes
  obtain ⟨-, ⟨major, added⟩, made⟩ := ensures.of_eq_ok True.intro built
  have same := made.major.trans major
  refine ⟨same, fun code inside => ?_⟩
  rw [ClassFile.everyAttribute, made.members, List.mem_append] at inside
  rcases inside with inside | inside
  · obtain ⟨x, member, within⟩ := List.mem_flatMap.1 inside
    rcases added x member with old | new
    · exact .inr ⟨x, old, within⟩
    · exact .inl (new code within (same ▸ newer))
  · rw [nestedAll_flat made.flat] at inside
    cases made.flat _ inside

/-- Where the version is set before code is added, classes that need stack maps have no code that
needs them. -/
theorem frameless_of_version_first {name : String} {calls : List Call} {m : ClassFile}
    (first : calls.Pairwise fun call later => call.addsCode = true → later.setsVersion = false)
    (built : build ((ofName name).after calls) = .ok m c) (newer : stackMapMajor ≤ m.major) :
    ∀ code : Code, .code code ∈ m.everyAttribute → code.Frameless := by
  intro code inside
  obtain ⟨same, codes⟩ := code_of_build built newer
  rcases codes code inside with frameless | ⟨x, member, within⟩
  · exact frameless
  rcases frameless_or_early name calls x member code within with frameless | early
  · exact frameless
  obtain ⟨before, h, steps, rest, rfl, older, -⟩ := early
  have behind := (List.pairwise_cons.1 (List.pairwise_append.1 first).2.1).1
  have last : ((ofName name).after (before ++ .code h steps :: rest)).major
      = ((ofName name).after before).major := by
    rw [after, List.foldl_append]
    refine major_after fun call member => ?_
    rcases List.mem_cons.1 member with rfl | member
    · rfl
    · exact behind call member rfl
  rw [same, last] at newer
  exact absurd older (UInt16.not_lt.2 newer)

theorem frameless_of_version_first_plain : ∃ m c, build ((ofName "C").after [.version 50 0,
      .code { name := "f", descriptor := "()V" } [.leave], .sourceFile "C.java"]) = .ok m c ∧
    stackMapMajor ≤ m.major ∧ ∀ code : Code, .code code ∈ m.everyAttribute → code.Frameless := by
  have passes : (build.run' ((ofName "C").after [.version 50 0,
      .code { name := "f", descriptor := "()V" } [.leave], .sourceFile "C.java"])).any
        (fun m => stackMapMajor ≤ m.major) = true := by decide +kernel
  obtain ⟨m, c, built, newer⟩ := Outcome.exists_of_any_run passes
  exact ⟨m, c, built, of_decide_eq_true newer,
    frameless_of_version_first (by decide) built (of_decide_eq_true newer)⟩

def spins : Attribute → Bool
  | .code code => code.bytes = [0xa7, 0, 0]
  | _ => false

/-- An older version is set while a method that branches is added, and a newer one behind it. -/
def raised : List Call :=
  [.version 49 0, .code { name := "f", descriptor := "()V" } [.label "l", .place "l", .goto "l"],
    .version 52 0]

/-- The version of a class is not compared again with the code that is there. -/
theorem branch_under_raised_version : ∃ m c, ∃ code : Code,
    build ((ofName "C").after raised) = .ok m c ∧ stackMapMajor ≤ m.major ∧
      .code code ∈ m.everyAttribute ∧ ¬code.Frameless := by
  have passes : (build.run' ((ofName "C").after raised)).any (fun m =>
      stackMapMajor ≤ m.major && m.everyAttribute.any spins) = true := by decide +kernel
  obtain ⟨m, c, built, holds⟩ := Outcome.exists_of_any_run passes
  rw [Bool.and_eq_true, decide_eq_true_eq, List.any_eq_true] at holds
  obtain ⟨newer, a, inside, spins⟩ := holds
  cases a with
  | code code =>
    refine ⟨m, c, code, built, newer, inside, fun frameless => ?_⟩
    have read : Operation.decode code.bytes.toArray 0 = .ok (.goto (some 0), 3) := by
      rw [of_decide_eq_true spins]
      rfl
    cases frameless.straight 0 _ _ .first read
  | _ => cases spins

end ClassBuilder
end ClassForge
