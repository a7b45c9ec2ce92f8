import ClassForge.Proofs.Proxy.Coherence
import ClassForge.Proofs.SlotCounts
import Mathlib.Data.Prod.Basic

namespace ClassForge

open Outcome

namespace Generation

variable {α : Type} {s : ProxySpec}

abbrev Refusing (m : GenerateM α) : Prop := FailsAs (· ≠ .slotOverflow) m

theorem refusing_field (name : String) (type : FieldType) :
    Refusing (onBuilder (ClassBuilder.field privateFinal name type)) := by
  have onPool {β : Type} {m : PoolM β} (uncounted : Pool.Uncounted m) :
      FailsAs (· ≠ .slotOverflow) (ClassBuilder.onPool m) := by
    constructor
    intro c e c' failed
    unfold ClassBuilder.onPool at failed
    dsimp only at failed
    split at failed
    · cases failed
    · rename_i done
      cases failed
      exact uncounted.error _ _ _ done
  have changed (f : ClassBuilder → ClassBuilder) :
      FailsAs (· ≠ .slotOverflow) (modify f : BuilderM Unit) := by
    constructor
    intro c e c' failed
    cases failed
  have field : FailsAs (· ≠ .slotOverflow) (ClassBuilder.field privateFinal name type) := by
    refine (onPool (Pool.uncounted_utf8 name)).bind fun n _ _ _ => ?_
    refine (onPool (Pool.uncounted_utf8 _)).bind fun d _ _ _ => ?_
    refine FailsAs.bind ?_ fun here _ _ _ => (changed _).bind fun _ _ _ _ => changed _
    constructor
    intro c e c' failed
    cases failed
  constructor
  intro g e g' failed
  unfold onBuilder at failed
  dsimp only at failed
  split at failed
  · cases failed
  · rename_i done
    cases failed
    exact field.error _ _ _ done

theorem refusing_addHandlerField (s : ProxySpec) : Refusing (addHandlerField s) := by
  unfold addHandlerField
  split
  · exact .pure _
  · split
    · exact FailsAs.throw nofun
    · exact refusing_field _ _

theorem refusing_addCaptures (before : List String) (captures : List (String × FieldType)) :
    Refusing (addCaptures before captures) := by
  induction captures generalizing before with
  | nil => exact .pure _
  | cons capture rest ih =>
    rw [addCaptures]
    split
    · exact FailsAs.throw nofun
    · exact (refusing_field _ _).bind fun _ _ _ _ => ih _

theorem captureParam_error {name : String} {e : Error} (failed : s.captureParam name = .error e) :
    ∃ u, e = .unsupported u := by
  unfold ProxySpec.captureParam at failed
  split at failed
  · cases failed
  · cases failed
    exact ⟨_, rfl⟩

theorem constructorParams_error {c : ConstructorSpec} {e : Error}
    (failed : s.constructorParams c = .error e) : ∃ u, e = .unsupported u := by
  unfold ProxySpec.constructorParams at failed
  split at failed
  · rcases bind_eq_error.1 failed with unknown | ⟨types, -, made⟩
    · obtain ⟨name, -, failed⟩ := exists_of_mapM_eq_error unknown
      exact captureParam_error failed
    · cases made
  · cases failed

theorem signatures_error {before : List (String × ConstructorSpec)} {cs : List ConstructorSpec}
    {e : Error} (failed : signatures s before cs = .error e) : ∃ u, e = .unsupported u := by
  induction cs generalizing before with
  | nil => cases failed
  | cons c rest ih =>
    rw [signatures] at failed
    rcases bind_eq_error.1 failed with unknown | ⟨params, -, failed⟩
    · exact constructorParams_error unknown
    · dsimp only at failed
      split at failed
      · cases failed
        exact ⟨_, rfl⟩
      · exact ih failed

def Rejects (m : GenerateM α) : Prop := ∀ g, ∃ u g', m g = .error (.unsupported u) g'

theorem rejects_refuse (u : Unsupported) : Rejects (refuse u : GenerateM α) :=
  fun g => ⟨u, g, rfl⟩

theorem Rejects.note {m : GenerateM α} (rejects : Rejects m) (e : Event) :
    Rejects (onBuilder (ClassBuilder.note e) >>= fun _ => m) :=
  fun _ => rejects _

def addUpTo (s : ProxySpec) (before : List MethodSpec) : GenerateM Unit := do
  addHandlerField s
  addCaptures [] s.captures
  addConstructors s
  addMethods s [] before

theorem addMethods_append (seen : List (String × String)) (before after : List MethodSpec) :
    addMethods s seen (before ++ after) = (do
      addMethods s seen before
      addMethods s ((before.map fun m => (m.name, m.descriptor)).reverse ++ seen) after) := by
  induction before generalizing seen with
  | nil => rfl
  | cons m rest ih =>
    have keys : ((m :: rest).map fun m => (m.name, m.descriptor)).reverse ++ seen =
        (rest.map fun m => (m.name, m.descriptor)).reverse ++ (m.name, m.descriptor) :: seen := by
      simp
    rw [List.cons_append, addMethods, addMethods, keys]
    split
    · rfl
    · rw [bind_assoc]
      exact bind_congr fun _ => ih _

theorem addMembers_eq {before after : List MethodSpec} (split : s.methods = before ++ after) :
    addMembers s = (do
      addUpTo s before
      addMethods s (before.map fun m => (m.name, m.descriptor)).reverse after) := by
  rw [addMembers, addUpTo, split, addMethods_append, List.append_nil]
  simp only [bind_assoc]

end Generation

namespace ProxySpec

open Generation

variable {s : ProxySpec} {cache : DescriptorCache}

/-- What is wrong with the fields or the constructors that a description asks for. -/
inductive Misdeclares (s : ProxySpec) : Prop where
  | capture (again : ¬(s.captures.map (·.1)).Nodup)
  | handlerField {c : HandlerContract} (handler : s.handler = some c)
    (captured : c.field ∈ s.captures.map (·.1))
  | constructor {before between after : List ConstructorSpec} {c c' : ConstructorSpec}
    {params params' : List FieldType}
    (split : constructorsOf s = before ++ c :: (between ++ c' :: after))
    (typed : s.constructorParams c = .ok params) (typed' : s.constructorParams c' = .ok params')
    (same : constructorDescriptor params = constructorDescriptor params')
  | forwarded {c : ConstructorSpec} {superParams : List FieldType} {names : List String}
    {name : String} (inside : c ∈ s.constructors) (forwards : c.kind = .forwarding superParams names)
    (used : name ∈ names) (unknown : s.captureType? name = none)

/-- What is wrong with a method behind those in front of it. -/
inductive Misuses (s : ProxySpec) (before : List MethodSpec) (m : MethodSpec) : Prop where
  | repeats (again : (m.name, m.descriptor) ∈ before.map fun m => (m.name, m.descriptor))
  | returns {field : String} (body : m.body = .returning field)
    (unknown : s.captureType? field = none)

def signature? (s : ProxySpec) (c : ConstructorSpec) : Option String :=
  (s.constructorParams c).toOption.map constructorDescriptor

theorem generate_of_error {e : Error} {g : Generation}
    (failed : addMembers s { builder := s.start cache } = .error e g) :
    s.generate cache = (.error e, g) := by
  have run : Generation.run s ClassBuilder.build { builder := s.start cache } = .error e g :=
    bind_of_error failed
  rw [generate, generateWith, run]

theorem not_misdeclares_of_signatures {all : List (String × ConstructorSpec)}
    (apart : ∀ f ∈ s.handlerField, f.1 ∉ s.captures.map (·.1))
    (distinct : (s.captures.map (·.1)).Nodup)
    (signed : signatures s [] (constructorsOf s) = .ok all) : ¬s.Misdeclares := by
  obtain ⟨different, new, rfl, resolved⟩ := signatures_eq_ok signed .nil
  intro wrong
  cases wrong with
  | capture again => exact again distinct
  | @handlerField c handler captured =>
    refine apart (c.field, c.type) ?_ captured
    rw [ProxySpec.handlerField, handler]
    exact List.mem_singleton_self _
  | @constructor _ _ _ c c' params params' split typed typed' same =>
    have signs : all.map (fun x => some x.1) = (constructorsOf s).map s.signature? := by
      refine map_eq_of_forall₂ resolved fun c x resolves => ?_
      obtain ⟨params, typed, made⟩ := resolves
      rw [made, signature?, typed]
      rfl
    have distinct := different.map fun _ _ => Option.some.inj
    rw [List.map_map] at distinct
    change (all.map fun x => some x.1).Nodup at distinct
    have twice : s.signature? c = s.signature? c' := by
      rw [signature?, signature?, typed, typed']
      exact congrArg some same
    rw [signs, split] at distinct
    simp [List.nodup_append, twice] at distinct
  | @forwarded c superParams names name inside forwards used unknown =>
    have asked : c ∈ constructorsOf s := by
      rw [constructorsOf, if_neg (by simp [List.ne_nil_of_mem inside])]
      exact inside
    obtain ⟨x, -, params, typed, -⟩ := exists_of_forall₂ resolved c asked
    rw [constructorParams, forwards] at typed
    obtain ⟨types, known, -⟩ := bind_eq_ok.1 typed
    obtain ⟨t, -, known⟩ := exists_of_forall₂ (forall₂_of_mapM_eq_ok known) name used
    rw [captureParam, unknown] at known
    cases known

theorem refused_of_misdeclares (wrong : s.Misdeclares) :
    ∃ e g, s.generate cache = (.error e, g) ∧ e ≠ .slotOverflow := by
  have failing {e : Error} {g : Generation}
      (failed : addMembers s { builder := s.start cache } = .error e g)
      (other : e ≠ .slotOverflow) : ∃ e g, s.generate cache = (.error e, g) ∧ e ≠ .slotOverflow :=
    ⟨e, g, generate_of_error failed, other⟩
  let before : Generation := { builder := s.start cache }
  have sound : generating.Holds before := s.sound_start cache
  cases first : addHandlerField s { builder := s.start cache } with
  | error e g =>
    exact failing (bind_of_error first) ((refusing_addHandlerField s).error _ _ _ first)
  | ok u g₁ =>
  obtain ⟨sound₁, -, -, apart⟩ := (ensures_addHandlerField (g := before) s).of_eq_ok sound first
  cases second : addCaptures [] s.captures g₁ with
  | error e g =>
    refine failing ((bind_of_ok first).trans (bind_of_error second)) ?_
    exact (refusing_addCaptures _ _).error _ _ _ second
  | ok u g₂ =>
  obtain ⟨-, -, -, -, distinct⟩ := (ensures_addCaptures [] s.captures).of_eq_ok sound₁ second
  cases signed : signatures s [] (constructorsOf s) with
  | ok all => exact absurd wrong (not_misdeclares_of_signatures apart distinct signed)
  | error e =>
    have third : addConstructors s g₂ = .error e g₂ := by
      unfold addConstructors
      rw [signed]
      rfl
    obtain ⟨u, rfl⟩ := signatures_error signed
    exact failing ((bind_of_ok first).trans ((bind_of_ok second).trans (bind_of_error third))) nofun

theorem rejects_addMethod {m : MethodSpec} {field : String} (body : m.body = .returning field)
    (unknown : s.captureType? field = none) : Rejects (addMethod s m) := by
  unfold addMethod
  dsimp only
  rw [body]
  split
  · exact rejects_refuse _
  · split
    · exact rejects_refuse _
    · dsimp only
      split
      · exact (rejects_refuse _).note _
      · rw [unknown]
        exact (rejects_refuse _).note _

theorem refused_of_misuses {before after : List MethodSpec} {m : MethodSpec}
    (split : s.methods = before ++ m :: after) (wrong : s.Misuses before m) :
    (∃ u g, s.generate cache = (.error (.unsupported u), g) ∧
      ((m.name, m.descriptor) ∈ before.map (fun m => (m.name, m.descriptor)) →
        u = .methodTwice m.name m.descriptor)) ∨
    ∃ e g, addUpTo s before { builder := s.start cache } = .error e g ∧
      s.generate cache = (.error e, g) := by
  have whole := congrFun (addMembers_eq split) { builder := s.start cache }
  cases first : addUpTo s before { builder := s.start cache } with
  | error e g => exact .inr ⟨e, g, rfl, generate_of_error (whole.trans (bind_of_error first))⟩
  | ok u g₁ =>
  rw [bind_of_ok first, addMethods] at whole
  by_cases again : (m.name, m.descriptor) ∈ before.map fun m => (m.name, m.descriptor)
  · rw [if_pos (by simpa using again)] at whole
    exact .inl ⟨_, g₁, generate_of_error whole, fun _ => rfl⟩
  · rw [if_neg (by simpa using again)] at whole
    cases wrong with
    | repeats repeated => exact absurd repeated again
    | @returns field body unknown =>
      obtain ⟨u, g₂, refused⟩ := rejects_addMethod body unknown g₁
      exact .inl ⟨u, g₂, generate_of_error (whole.trans (bind_of_error refused)),
        fun repeated => absurd repeated again⟩

/-- What is generated hangs together. A description that asks for a member twice, or for a field
that there is not, is refused; for a method that is so unless something in front of it is refused. -/
theorem generate_coherent (s : ProxySpec) (cache : DescriptorCache) :
    (∀ file g, s.generate cache = (.ok file, g) → s.Coherent file) ∧
    (s.Misdeclares → ∃ e g, s.generate cache = (.error e, g) ∧ e ≠ .slotOverflow) ∧
    ∀ before m after, s.methods = before ++ m :: after → s.Misuses before m →
      (∃ u g, s.generate cache = (.error (.unsupported u), g) ∧
        ((m.name, m.descriptor) ∈ before.map (fun m => (m.name, m.descriptor)) →
          u = .methodTwice m.name m.descriptor)) ∨
      ∃ e g, addUpTo s before { builder := s.start cache } = .error e g ∧
        s.generate cache = (.error e, g) := by
  refine ⟨fun file g generated => ?_, refused_of_misdeclares, fun before m after =>
    refused_of_misuses⟩
  obtain ⟨all, describes, -, makes⟩ := describes_of_generate generated
  exact coherent_of_describes describes makes

/-- Methods that are all that methods can be but given code. -/
def holder : ProxySpec where
  name := "p.Holder"
  handler := some {}
  captures := [("x", .int)]
  constructors := [⟨.forwarding [] ["x"], Access.publicFlag⟩,
    ⟨.delegating [] [.int] [.literal (.int 7)], Access.publicFlag⟩]
  methods := [{ name := "get", descriptor := "()I", body := .returning "x" },
    { name := "run", descriptor := "()V", body := .handled }]

def doubled : ProxySpec := { holder with methods := holder.methods ++ holder.methods }

theorem generate_coherent_holder : (∃ file, holder.Coherent file ∧ file.methods.length = 4) ∧
    (∃ e g, { holder with captures := [("x", .int), ("x", .long)] }.generate {} = (.error e, g) ∧
      e ≠ .slotOverflow) ∧
    ∃ g, doubled.generate {} = (.error (.unsupported (.methodTwice "get" "()I")), g) := by
  refine ⟨?_, ?_, ?_⟩
  · obtain ⟨file, generates, count⟩ := exists_of_any (x := (holder.generate {}).1)
      (p := fun file => file.methods.length = 4) (by decide +kernel)
    have generated := Prod.fst_eq_iff.1 generates
    exact ⟨file, (generate_coherent holder {}).1 file _ generated, of_decide_eq_true count⟩
  · refine (generate_coherent { holder with captures := [("x", .int), ("x", .long)] } {}).2.1 ?_
    exact .capture (by decide)
  · have again : ("get", "()I") ∈ holder.methods.map fun m => (m.name, m.descriptor) := by decide
    obtain ⟨u, g, added, -⟩ := exists_of_any_run (p := fun _ => true)
      (by decide +kernel : ((addUpTo doubled holder.methods).run'
        { builder := doubled.start {} }).any (fun _ => true) = true)
    rcases (generate_coherent doubled {}).2.2 holder.methods _ [_] rfl (.repeats again) with
      ⟨u, g, refused, names⟩ | ⟨e, g, failed, -⟩
    · cases names again
      exact ⟨g, refused⟩
    · cases added.symm.trans failed

theorem addMethod_of_checkSignature {m : MethodSpec} {c : HandlerContract} {e : Error}
    (handler : s.handler = some c) (body : m.body = .handled)
    (ordinary : ¬(m.name = constructorName ∨ m.name = "<clinit>"))
    (plain : isSet m.access Access.bridgeFlag = false)
    (bound : isSet m.access Access.staticFlag = false)
    (refused : ∀ b, ∃ b', ClassBuilder.checkSignature
      { name := m.name, descriptor := m.descriptor, access := m.access } b = .error e b')
    (g : Generation) : ∃ g', addMethod s m g = .error e g' := by
  let head : MethodHead := { name := m.name, descriptor := m.descriptor, access := m.access }
  let steps : Listing := bodyFor m.descriptor (s.handlerBody c m.name)
  have coded (b : ClassBuilder) : ∃ b', ClassBuilder.code head steps b = .error e b' := by
    obtain ⟨b', refused⟩ := refused { b with lastRun := none }
    exact ⟨b', (bind_of_ok rfl).trans (bind_of_error refused)⟩
  have whole : addMethod s m = (do
      onBuilder (ClassBuilder.note (.methodPlanned s.name m.name m.descriptor m.body.kind))
      onBuilder (ClassBuilder.code head steps)) := by
    unfold addMethod
    dsimp only
    rw [if_neg ordinary, if_neg (Bool.eq_false_iff.1 plain), body, handler]
    exact bind_congr fun _ => if_neg (Bool.eq_false_iff.1 bound)
  obtain ⟨g₁, noted⟩ : ∃ g₁, onBuilder (ClassBuilder.note
    (.methodPlanned s.name m.name m.descriptor m.body.kind)) g = .ok () g₁ := ⟨_, rfl⟩
  obtain ⟨b', failed⟩ := coded g₁.builder
  rw [whole, bind_of_ok noted]
  unfold onBuilder
  dsimp only
  rw [failed]
  exact ⟨_, rfl⟩

def twice (d : MethodDescriptor) : ProxySpec where
  name := "P"
  handler := some {}
  methods := [{ name := "f", descriptor := d.descriptor, body := .handled },
    { name := "f", descriptor := d.descriptor, body := .handled }]

open MethodDescriptor in
/-- The slots of the first method are counted before the second one is looked at. -/
theorem not_refused_of_repeated : ∃ before m after, (twice (longs 32768)).methods =
      before ++ m :: after ∧ (twice (longs 32768)).Misuses before m ∧
    ∃ g, (twice (longs 32768)).generate {} = (.error .slotOverflow, g) := by
  refine ⟨[_], _, [], rfl, .repeats (List.mem_singleton_self _), ?_⟩
  obtain ⟨u, g, added, -⟩ := exists_of_any_run (p := fun _ => true)
    (by decide +kernel : ((addUpTo (twice (longs 32768)) []).run'
      { builder := (twice (longs 32768)).start {} }).any (fun _ => true) = true)
  have large : 32767 < 32768 := by decide
  obtain ⟨g', overflows⟩ := addMethod_of_checkSignature (s := twice (longs 32768))
    (m := { name := "f", descriptor := (longs 32768).descriptor, body := .handled }) rfl rfl
    (by decide) (by decide) (by decide) (checkSignature_longs large) g
  have whole := congrFun (addMembers_eq (s := twice (longs 32768)) (List.nil_append _).symm)
    { builder := (twice (longs 32768)).start {} }
  rw [bind_of_ok added] at whole
  exact ⟨g', generate_of_error (whole.trans (bind_of_error overflows))⟩

end ProxySpec
end ClassForge
