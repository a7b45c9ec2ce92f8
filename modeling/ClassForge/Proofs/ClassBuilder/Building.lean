import ClassForge.ClassBuilder.Basic
import ClassForge.Proofs.Code.Attached
import ClassForge.Proofs.Code.Listings
import ClassForge.Proofs.Format.AttributeWriting

namespace ClassForge

namespace Attribute

variable {p q : Pool}

theorem Kind.encode_name (k : Kind) : Text.ModifiedUtf8.encode k.name = k.bytes := by
  cases k <;> rfl

def isCode : Attribute → Bool
  | code _ => true
  | _ => false

structure Built (p : Pool) (a : Attribute) : Prop where
  links : ∀ link ∈ a.links, p.Resolves link
  known : ∃ k, a.kind? = some k
  unframed : ∀ frames, a ≠ .stackMap frames
  lines : ∀ lines, a = .lineNumbers lines → lines.length ≤ 65535
  code : ∀ body, a = .code body →
    body.Fits ∧ body.attributes.length ≤ 2 ∧ ∀ b ∈ body.attributes, b.isCode = false

theorem Built.mono {a : Attribute} (built : a.Built p) (extends_ : q.Extends p) : a.Built q where
  links link inside := extends_.resolves (built.links link inside)
  known := built.known
  unframed := built.unframed
  lines := built.lines
  code := built.code

theorem built_constantValue {i : Index} (leads : p.Resolves (i, Reader.loadable)) :
    (constantValue i).Built p where
  links := by simpa [links] using leads
  known := ⟨_, rfl⟩
  unframed := by simp
  lines := by simp
  code := by simp

theorem built_sourceFile {i : Index} (leads : p.Resolves (i, [.utf8])) :
    (sourceFile i).Built p where
  links := by simpa [links] using leads
  known := ⟨_, rfl⟩
  unframed := by simp
  lines := by simp
  code := by simp

theorem built_exceptions {thrown : List Index} (leads : ∀ i ∈ thrown, p.Resolves (i, [.classRef])) :
    (exceptions thrown).Built p where
  links := by
    intro link inside
    obtain ⟨i, member, rfl⟩ := List.mem_map.1 inside
    exact leads i member
  known := ⟨_, rfl⟩
  unframed := by simp
  lines := by simp
  code := by simp

theorem nested_of_isCode {a : Attribute} (flat : a.isCode = false) : a.nested = [a] := by
  cases a with
  | code body => simp [isCode] at flat
  | _ => rfl

theorem nestedAll_flat {as : List Attribute} (flat : ∀ a ∈ as, a.isCode = false) :
    nestedAll as = as := by
  induction as with
  | nil => rfl
  | cons a rest ih =>
    simp only [List.mem_cons, forall_eq_or_imp] at flat
    rw [nestedAll, nested_of_isCode flat.1, ih flat.2, List.singleton_append]

theorem nestedAll_append (as bs : List Attribute) :
    nestedAll (as ++ bs) = nestedAll as ++ nestedAll bs := by
  induction as with
  | nil => rfl
  | cons a rest ih => rw [List.cons_append, nestedAll, nestedAll, ih, List.append_assoc]

theorem built_code {code : Code} (attached : Body.Attached p code) :
    ∀ a ∈ (Attribute.code code).nested, a.Built p := by
  have flat : ∀ a ∈ code.attributes, a.isCode = false := by
    intro a inside
    rcases attached.attributes a inside with ⟨_, rfl, -⟩ | ⟨_, rfl, -⟩ <;> rfl
  have whole : (Attribute.code code).nested = .code code :: code.attributes := by
    conv_rhs => rw [← nestedAll_flat flat]
    rfl
  rw [whole]
  simp only [List.mem_cons, forall_eq_or_imp]
  refine ⟨⟨?_, ⟨_, rfl⟩, by simp, by simp, ?_⟩, ?_⟩
  · intro link inside
    obtain ⟨h, member, own⟩ := List.mem_flatMap.1 inside
    exact attached.handlers h member link own
  · intro body same
    cases same
    exact ⟨attached.fits, attached.few, flat⟩
  · intro a inside
    rcases attached.attributes a inside with ⟨lines, rfl, few⟩ | ⟨scopes, rfl, leads⟩
    · refine ⟨by simp [links], ⟨_, rfl⟩, by simp, ?_, by simp⟩
      intro lines' same
      cases same
      exact few
    · refine ⟨?_, ⟨_, rfl⟩, by simp, by simp, by simp⟩
      intro link inside
      obtain ⟨v, member, own⟩ := List.mem_flatMap.1 inside
      exact leads v member link own

end Attribute

structure Member.Built (p : Pool) (accepts : String → Bool) (m : Member) : Prop where
  readable : m.Readable p accepts
  few : m.attributes.length ≤ 2
  attributes : ∀ a ∈ Attribute.nestedAll m.attributes, a.Built p

theorem Member.Built.mono {p q : Pool} {accepts : String → Bool} {m : Member}
    (built : m.Built p accepts) (extends_ : q.Extends p) : m.Built q accepts where
  readable := by
    obtain ⟨⟨name, named⟩, descriptor, typed, accepted⟩ := built.readable
    exact ⟨⟨name, extends_.utf8At? named⟩, descriptor, extends_.utf8At? typed, accepted⟩
  few := built.few
  attributes a inside := (built.attributes a inside).mono extends_

namespace ClassBuilder

structure Sound (accepts : String → Bool) (c : ClassBuilder) : Prop where
  pool : c.pool.Sound
  fields : ∀ m ∈ c.fields.toList, m.Built c.pool accepts
  methods : ∀ m ∈ c.methods.toList, m.Built c.pool Reader.acceptsMethod

structure Later (c c' : ClassBuilder) : Prop where
  pool : c'.pool.Extends c.pool
  fields : c.fields.toList <+: c'.fields.toList
  methods : c.methods.toList <+: c'.methods.toList
  name : c'.name = c.name
  superName : c'.superName = c.superName
  defaultConstructor : c'.defaultConstructor = c.defaultConstructor

theorem Later.refl (c : ClassBuilder) : c.Later c :=
  ⟨.refl _, List.prefix_refl _, List.prefix_refl _, rfl, rfl, rfl⟩

theorem Later.trans {c d e : ClassBuilder} (first : c.Later d) (second : d.Later e) :
    c.Later e where
  pool := first.pool.trans second.pool
  fields := first.fields.trans second.fields
  methods := first.methods.trans second.methods
  name := second.name.trans first.name
  superName := second.superName.trans first.superName
  defaultConstructor := second.defaultConstructor.trans first.defaultConstructor

def building (accepts : String → Bool) : Discipline ClassBuilder where
  Holds := Sound accepts
  Onward := Later
  refl := Later.refl
  trans := Later.trans

structure Keeps (c c' : ClassBuilder) : Prop where
  fields : c'.fields = c.fields
  methods : c'.methods = c.methods
  superName : c'.superName = c.superName
  name : c'.name = c.name
  defaultConstructor : c'.defaultConstructor = c.defaultConstructor

theorem Keeps.refl (c : ClassBuilder) : c.Keeps c := ⟨rfl, rfl, rfl, rfl, rfl⟩

theorem Keeps.trans {c d e : ClassBuilder} (first : c.Keeps d) (second : d.Keeps e) :
    c.Keeps e :=
  ⟨second.fields.trans first.fields, second.methods.trans first.methods,
    second.superName.trans first.superName, second.name.trans first.name,
    second.defaultConstructor.trans first.defaultConstructor⟩

theorem Keeps.later {c c' : ClassBuilder} (keeps : c.Keeps c') (extends_ : c'.pool.Extends c.pool) :
    c.Later c' :=
  ⟨extends_, keeps.fields ▸ List.prefix_refl _, keeps.methods ▸ List.prefix_refl _, keeps.name,
    keeps.superName, keeps.defaultConstructor⟩

def pooling (accepts : String → Bool) : Discipline ClassBuilder where
  Holds := Sound accepts
  Onward c c' := c'.pool.Extends c.pool ∧ c.Keeps c'
  refl c := ⟨.refl _, .refl c⟩
  trans first second := ⟨first.1.trans second.1, first.2.trans second.2⟩

open Discipline

variable {α : Type} {accepts : String → Bool} {c : ClassBuilder}

theorem ensures_of_pooling {m : BuilderM α} {gives : α → ClassBuilder → Prop}
    (ensures : (pooling accepts).Ensures m c gives) : (building accepts).Ensures m c
      (fun a c' => gives a c' ∧ c.Keeps c') :=
  (ensures.loosen (E := building accepts) (fun _ => Iff.rfl)
    fun _ _ moved => Keeps.later moved.2 moved.1).mono fun _ _ _ _ given => ⟨given.1, given.2.2⟩

theorem Keeps.sound {c' : ClassBuilder} (keeps : c.Keeps c') (sound : c.Sound accepts)
    (pool : c'.pool.Sound) (extends_ : c'.pool.Extends c.pool) : c'.Sound accepts where
  pool := pool
  fields := by
    rw [keeps.fields]
    exact fun m inside => (sound.fields m inside).mono extends_
  methods := by
    rw [keeps.methods]
    exact fun m inside => (sound.methods m inside).mono extends_

theorem ensures_onPool {m : PoolM α} {gives : α → Pool → Prop}
    (asked : Pool.growing.Ensures m c.pool gives) : (pooling accepts).Ensures (onPool m) c
      (fun a c' => gives a c'.pool) := by
  constructor
  intro sound
  have outcome := asked.outcome sound.pool
  unfold onPool
  dsimp only
  cases h : m c.pool with
  | ok a p =>
    rw [h] at outcome
    obtain ⟨grown, extends_, given⟩ := outcome
    have keeps : c.Keeps { c with pool := p, journal := c.journal ++ p.changes c.pool.size } :=
      ⟨rfl, rfl, rfl, rfl, rfl⟩
    exact ⟨keeps.sound sound grown extends_, ⟨extends_, keeps⟩, given⟩
  | error e p =>
    rw [h] at outcome
    obtain ⟨grown, extends_⟩ := outcome
    have keeps : c.Keeps { c with pool := p, journal := c.journal ++ p.changes c.pool.size } :=
      ⟨rfl, rfl, rfl, rfl, rfl⟩
    exact ⟨keeps.sound sound grown extends_, extends_, keeps⟩

theorem ensures_aside {f : ClassBuilder → ClassBuilder} (pool : (f c).pool = c.pool)
    (keeps : c.Keeps (f c)) : (pooling accepts).Ensures (modify f : BuilderM Unit) c
      (fun _ c' => c'.pool = c.pool) := by
  refine Ensures.modify fun sound => ?_
  have extends_ : (f c).pool.Extends c.pool := pool ▸ .refl _
  exact ⟨keeps.sound sound (pool ▸ sound.pool) extends_, ⟨extends_, keeps⟩, pool⟩

theorem ensures_note (e : Event) : (pooling accepts).Ensures (note e) c
    (fun _ c' => c'.pool = c.pool) := ensures_aside rfl ⟨rfl, rfl, rfl, rfl, rfl⟩

theorem ensures_noteAll (j : Journal) : (pooling accepts).Ensures (noteAll j) c
    (fun _ c' => c'.pool = c.pool) := ensures_aside rfl ⟨rfl, rfl, rfl, rfl, rfl⟩

structure FieldAdded (access : UInt16) (name : String) (type : FieldType)
    (attributes : List Attribute) (c c' : ClassBuilder) : Prop where
  field : ∃ m, c'.fields = c.fields.push m ∧ m.access = access ∧ m.name? c'.pool = some name ∧
    m.descriptor? c'.pool = some type.descriptor ∧ m.attributes = attributes
  methods : c'.methods = c.methods
  superName : c'.superName = c.superName
  name : c'.name = c.name

theorem ensures_addField {access : UInt16} {name : String} {type : FieldType}
    {attributes : List Attribute} (accepted : accepts type.descriptor = true)
    (few : attributes.length ≤ 2)
    (built : c.Sound accepts → ∀ a ∈ Attribute.nestedAll attributes, a.Built c.pool) :
    (building accepts).Ensures (addField access name type attributes) c
      (fun _ c' => FieldAdded access name type attributes c c') := by
  constructor
  intro start
  refine Ensures.outcome (D := building accepts) ?_ start
  have built := built start
  unfold addField
  refine (ensures_of_pooling (ensures_onPool (Pool.ensures_text name))).bind
    fun n c₁ _ onward₁ named => ?_
  obtain ⟨named, keeps₁⟩ := named
  refine (ensures_of_pooling (ensures_onPool (Pool.ensures_text type.descriptor))).bind
    fun d c₂ _ onward₂ typed => ?_
  obtain ⟨typed, keeps₂⟩ := typed
  refine Ensures.get.bind fun here c₃ _ _ same => ?_
  obtain ⟨rfl, rfl⟩ := same
  refine (ensures_of_pooling (ensures_note _)).bind fun _ c₄ _ onward₄ noted => ?_
  obtain ⟨pool, keeps₄⟩ := noted
  have keeps := (keeps₁.trans keeps₂).trans keeps₄
  have named : c₄.pool.utf8At? n = some name := by
    rw [pool]
    exact Later.pool onward₂ |>.utf8At? named
  have typed : c₄.pool.utf8At? d = some type.descriptor := pool ▸ typed
  have extends_ : c₄.pool.Extends c.pool :=
    (Later.pool onward₁).trans ((Later.pool onward₂).trans (Later.pool onward₄))
  refine Ensures.modify fun sound => ⟨⟨sound.pool, ?_, sound.methods⟩, ?_, ?_⟩
  · simp only [Array.toList_push, List.mem_append, List.mem_singleton]
    rintro m (before | rfl)
    · exact sound.fields m before
    · exact ⟨⟨⟨name, named⟩, type.descriptor, typed, accepted⟩, few,
        fun a inside => (built a inside).mono extends_⟩
  · exact ⟨.refl _, by simp, List.prefix_refl _, rfl, rfl, rfl⟩
  · refine ⟨⟨⟨access, n, d, attributes⟩, ?_, rfl, named, typed, rfl⟩, keeps.methods,
      keeps.superName, keeps.name⟩
    simp only [keeps.fields]

theorem ensures_field {access : UInt16} {name : String} {type : FieldType}
    (accepted : accepts type.descriptor = true) :
    (building accepts).Ensures (field access name type) c
      (fun _ c' => FieldAdded access name type [] c c') :=
  ensures_addField accepted (by simp) (by simp [Attribute.nestedAll])

theorem ensures_constantField {access : UInt16} {name : String} {type : FieldType} {value : Literal}
    (accepted : accepts type.descriptor = true) :
    (building accepts).Ensures (constantField access name type value) c Ensures.Anything := by
  unfold constantField
  split
  · refine (ensures_of_pooling (ensures_onPool (Pool.ensures_literal value))).bind
      fun i c' _ _ found => ?_
    refine (ensures_addField accepted (by simp) fun _ => ?_).anything
    simp only [Attribute.nestedAll, Attribute.nested, List.append_nil, List.mem_singleton, forall_eq]
    exact Attribute.built_constantValue (Pool.resolves_of_literalAt? found.1)
  · exact Ensures.throw _

theorem ensures_decodeDescriptor (descriptor : String) :
    (pooling accepts).Ensures (decodeDescriptor descriptor) c (fun d c' =>
      MethodDescriptor.decode? descriptor = some d ∧ c'.pool = c.pool) := by
  constructor
  intro sound
  unfold decodeDescriptor
  have found := c.cache.method?_fst descriptor
  cases h : (c.cache.method? descriptor).1 with
  | none =>
    simp only [h]
    exact ⟨⟨sound.pool, sound.fields, sound.methods⟩, .refl _, rfl, rfl, rfl, rfl, rfl⟩
  | some d =>
    simp only [h]
    exact ⟨⟨sound.pool, sound.fields, sound.methods⟩, ⟨.refl _, rfl, rfl, rfl, rfl, rfl⟩,
      found.symm.trans h, True.intro⟩

theorem ensures_checkSignature (h : MethodHead) :
    (pooling accepts).Ensures (checkSignature h) c (fun _ c' =>
      (∃ d, MethodDescriptor.decode? h.descriptor = some d ∧
        Body.receiverSlots h.isStatic + d.paramSlots ≤ maxParameterSlots) ∧
      c'.pool = c.pool) := by
  unfold checkSignature
  refine (ensures_decodeDescriptor h.descriptor).bind fun d c' _ _ decoded => ?_
  obtain ⟨decoded, pool⟩ := decoded
  split
  · exact Ensures.get.bind fun _ _ _ _ _ => Ensures.throw _
  · split
    · exact Ensures.throw _
    · rename_i n counted
      rw [d.paramSlots?_eq] at counted
      obtain ⟨small, rfl⟩ := slotCount_eq_ok.1 counted
      dsimp only
      split
      · exact Ensures.throw _
      · rename_i enough
        rw [toNat_slots small] at enough
        exact Ensures.pure _ fun _ => ⟨⟨d, decoded, Nat.not_lt.1 enough⟩, pool⟩

end ClassBuilder

structure Body.Started (h : MethodHead) (pool : Pool) (b : Body) : Prop where
  pool : b.pool = pool
  decoded : MethodDescriptor.decode? h.descriptor = some b.descriptor
  isStatic : b.isStatic = h.isStatic
  items : b.items = #[]
  protections : b.protections = #[]
  scopes : b.scopes = #[]
  locals : b.maxLocals.toNat = receiverSlots h.isStatic + b.descriptor.paramSlots

theorem Body.Started.sound {h : MethodHead} {pool : Pool} {b : Body} (started : b.Started h pool)
    (sound : pool.Sound) : b.Sound where
  pool := started.pool ▸ sound
  protections := by simp [started.protections]
  scopes := by simp [started.scopes]

def Body.Assembled (h : MethodHead) (steps : Listing) (pool : Pool) (code : Code) (b' : Body) :
    Prop :=
  ∃ b transcript, Started h pool b ∧ steps.run b = (.ok (), b', transcript) ∧
    b'.finish = .ok code

theorem Body.start_eq_ok {pool : Pool} {cache : DescriptorCache} {text : String} {isStatic : Bool}
    {b : Body} (started : (start pool cache text isStatic).1 = .ok b) :
    ∃ d, MethodDescriptor.decode? text = some d ∧ receiverSlots isStatic + d.paramSlots ≤ 65535 ∧
      b = { pool, cache := (cache.method? text).2, descriptor := d, isStatic
            maxLocals := UInt16.ofNat (receiverSlots isStatic + d.paramSlots) } := by
  unfold start at started
  have found := cache.method?_fst text
  dsimp only at started
  cases hd : (cache.method? text).1 with
  | none =>
    simp only [hd] at started
    cases started
  | some d =>
    rw [hd] at found
    cases hn : slotsFrom isStatic d.params with
    | error e =>
      simp only [hd, hn] at started
      cases started
    | ok n =>
      simp only [hd, hn] at started
      cases started
      rw [slotsFrom_eq] at hn
      obtain ⟨small, rfl⟩ := slotCount_eq_ok.1 hn
      exact ⟨d, found.symm, small, rfl⟩

namespace ClassBuilder

open Discipline

variable {accepts : String → Bool} {c : ClassBuilder}

theorem startBody_eq_ok {h : MethodHead} {b : Body} {c' : ClassBuilder}
    (done : startBody h c = .ok b c') : b.Started h c.pool ∧ c.Keeps c' := by
  unfold startBody at done
  dsimp only at done
  split at done
  · rename_i started
    cases done
    obtain ⟨d, decoded, small, rfl⟩ := Body.start_eq_ok (congrArg Prod.fst started)
    refine ⟨⟨rfl, decoded, rfl, rfl, rfl, rfl, ?_⟩, rfl, rfl, rfl, rfl, rfl⟩
    exact UInt16.toNat_ofNat_of_lt (Nat.lt_succ_of_le small)
  · cases done

theorem startBody_eq_error {h : MethodHead} {e : Error} {c' : ClassBuilder}
    (failed : startBody h c = .error e c') : c'.pool = c.pool ∧ c.Keeps c' := by
  unfold startBody Body.start at failed
  dsimp only at failed
  cases hd : (c.cache.method? h.descriptor).1 with
  | none =>
    simp only [hd] at failed
    cases failed
    exact ⟨rfl, rfl, rfl, rfl, rfl, rfl⟩
  | some d =>
    cases hn : Body.slotsFrom h.isStatic d.params with
    | error e =>
      simp only [hd, hn] at failed
      cases failed
      exact ⟨rfl, rfl, rfl, rfl, rfl, rfl⟩
    | ok n =>
      simp only [hd, hn] at failed
      cases failed

/-- The pool is with the body while the steps run, so the two are looked at as one. -/
theorem ensures_runBody (h : MethodHead) (steps : Listing) :
    (pooling accepts).Ensures (startBody h >>= runBody steps) c (fun b' c' =>
      (∃ b transcript, b.Started h c.pool ∧ steps.run b = (.ok (), b', transcript)) ∧
        b'.Sound ∧ b'.pool = c'.pool) := by
  constructor
  intro sound
  have unfolded : (startBody h >>= runBody steps) c =
      EStateM.bind (startBody h) (runBody steps) c := rfl
  rw [unfolded, EStateM.bind]
  cases hb : startBody h c with
  | error e c' =>
    obtain ⟨pool, keeps⟩ := startBody_eq_error hb
    have extends_ : c'.pool.Extends c.pool := pool ▸ .refl _
    exact ⟨keeps.sound sound (pool ▸ sound.pool) extends_, extends_, keeps⟩
  | ok b c' =>
    obtain ⟨started, keeps⟩ := startBody_eq_ok hb
    obtain ⟨ran, later⟩ := steps.run_sound (started.sound sound.pool)
    have extends_ : (steps.run b).2.1.pool.Extends c.pool := started.pool ▸ later.pool
    have keeps : c.Keeps { c' with pool := (steps.run b).2.1.pool } :=
      ⟨keeps.fields, keeps.methods, keeps.superName, keeps.name, keeps.defaultConstructor⟩
    have held := keeps.sound sound ran.pool extends_
    simp only [runBody]
    cases hr : (steps.run b).1 with
    | error e =>
      exact ⟨⟨held.pool, held.fields, held.methods⟩, extends_, keeps.fields, keeps.methods,
        keeps.superName, keeps.name, keeps.defaultConstructor⟩
    | ok u =>
      refine ⟨⟨held.pool, held.fields, held.methods⟩, ⟨extends_, keeps.fields, keeps.methods,
        keeps.superName, keeps.name, keeps.defaultConstructor⟩, ⟨b, (steps.run b).2.2, started, ?_⟩, ran, rfl⟩
      rw [← hr]

theorem ensures_assemble (h : MethodHead) (steps : Listing) :
    (pooling accepts).Ensures (assemble h steps) c (fun a c' =>
      (∃ code b', a = .code code ∧ Body.Assembled h steps c.pool code b' ∧ b'.pool = c'.pool) ∧
        ∀ b ∈ a.nested, b.Built c'.pool) := by
  unfold assemble
  rw [← bind_assoc]
  refine (ensures_runBody h steps).bind fun b' c₁ _ _ made => ?_
  obtain ⟨⟨b, transcript, started, ran⟩, sound, pool⟩ := made
  refine Ensures.get.bind fun here c₂ _ _ same => ?_
  obtain ⟨rfl, rfl⟩ := same
  split
  · exact Ensures.throw _
  · refine (ensures_noteAll _).bind fun _ c₃ _ _ noted => ?_
    cases finished : b'.finish with
    | error e => exact Ensures.throw _
    | ok code =>
      refine Ensures.pure _ fun _ => ?_
      have same : b'.pool = c₃.pool := pool.trans noted.symm
      exact ⟨⟨code, b', rfl, ⟨b, transcript, started, ran, finished⟩, same⟩,
        same ▸ Attribute.built_code (sound.attached finished)⟩

structure MethodMade (h : MethodHead) (code : List Attribute) (p : Pool) (m : Member) : Prop where
  access : m.access = h.access
  name : m.name? p = some h.name
  descriptor : m.descriptor? p = some h.descriptor
  attributes : ∃ rest, m.attributes = code ++ rest ∧ ∀ a ∈ rest, a.isCode = false

theorem ensures_finishMethod {h : MethodHead} {code : List Attribute} (few : code.length ≤ 1)
    (decodes : Reader.acceptsMethod h.descriptor = true)
    (built : ∀ a ∈ Attribute.nestedAll code, a.Built c.pool) :
    (pooling accepts).Ensures (finishMethod h code) c (fun m c' =>
      m.Built c'.pool Reader.acceptsMethod ∧ MethodMade h code c'.pool m) := by
  unfold finishMethod
  refine (ensures_onPool (Pool.ensures_text h.name)).bind fun n c₁ _ onward₁ named => ?_
  refine (ensures_onPool (Pool.ensures_text h.descriptor)).bind fun d c₂ _ onward₂ typed => ?_
  have each : ∀ t c, (pooling accepts).Ensures (onPool (Pool.classRef t)) c (fun i c' =>
      c'.pool.Resolves (i, [.classRef])) := fun t c =>
    (ensures_onPool (Pool.ensures_classRef t)).mono fun _ _ _ _ found =>
      Pool.resolves_of_classNameAt? found
  refine (Ensures.mapM each fun t i c c' onward leads => onward.1.resolves leads).bind
    fun is c₃ _ onward₃ thrown => Ensures.pure _ fun _ => ?_
  have leads : ∀ i ∈ is, c₃.pool.Resolves (i, [.classRef]) :=
    forall_of_forall₂ thrown fun _ _ leads => leads
  have extends_ := onward₁.1.trans (onward₂.1.trans onward₃.1)
  have name : c₃.pool.utf8At? n = some h.name := (onward₂.1.trans onward₃.1).utf8At? named
  have descriptor : c₃.pool.utf8At? d = some h.descriptor := onward₃.1.utf8At? typed
  have rest : ∀ a ∈ if is.isEmpty then [] else [Attribute.exceptions is],
      a.isCode = false ∧ a.Built c₃.pool := by
    split
    · simp
    · simp only [List.mem_singleton, forall_eq]
      exact ⟨rfl, Attribute.built_exceptions leads⟩
  refine ⟨⟨⟨⟨h.name, name⟩, h.descriptor, descriptor, decodes⟩, ?_, ?_⟩,
    ⟨rfl, name, descriptor, _, rfl, fun a inside => (rest a inside).1⟩⟩
  · dsimp only
    split <;> simp <;> omega
  · rw [Attribute.nestedAll_append, Attribute.nestedAll_flat fun a inside => (rest a inside).1]
    simp only [List.mem_append]
    rintro a (before | new)
    · exact (built a before).mono extends_
    · exact (rest a new).2

structure MethodAdded (m : Member) (c c' : ClassBuilder) : Prop where
  methods : c'.methods = c.methods.push m
  fields : c'.fields = c.fields
  superName : c'.superName = c.superName
  name : c'.name = c.name

/-- A method that cannot be added takes what it added to the pool with it. -/
theorem ensures_addMethod {h : MethodHead} {make : BuilderM Member} (gives : Member → Pool → Prop)
    (makes : (pooling accepts).Ensures make c (fun m c' =>
      m.Built c'.pool Reader.acceptsMethod ∧ gives m c'.pool)) :
    (building accepts).Ensures (addMethod h make) c
      (fun _ c' => ∃ m, gives m c'.pool ∧ MethodAdded m c c') := by
  constructor
  intro sound
  have outcome := makes.outcome sound
  unfold addMethod
  dsimp only
  cases hm : make c with
  | ok m c' =>
    rw [hm] at outcome
    obtain ⟨held, ⟨extends_, keeps⟩, built, given⟩ := outcome
    refine ⟨⟨held.pool, held.fields, ?_⟩, ⟨extends_, keeps.fields ▸ List.prefix_refl _, ?_,
      keeps.name, keeps.superName, keeps.defaultConstructor⟩, m, given, ?_, keeps.fields, keeps.superName, keeps.name⟩
    · simp only [Array.toList_push, List.mem_append, List.mem_singleton]
      rintro m' (before | rfl)
      · exact held.methods m' before
      · exact built
    · simp only [Array.toList_push, keeps.methods]
      exact List.prefix_append _ _
    · simp only [keeps.methods]
  | error e c' =>
    rw [hm] at outcome
    obtain ⟨held, extends_, keeps⟩ := outcome
    obtain ⟨cut, same⟩ := sound.pool.truncate held.pool extends_
    have whole : (c'.pool.truncate c.pool.size).Extends c.pool := .of_slots_eq same
    have keeps : c.Keeps { c' with pool := c'.pool.truncate c.pool.size } :=
      ⟨keeps.fields, keeps.methods, keeps.superName, keeps.name, keeps.defaultConstructor⟩
    have held := keeps.sound sound cut whole
    exact ⟨⟨held.pool, held.fields, held.methods⟩, whole, keeps.fields ▸ List.prefix_refl _,
      keeps.methods ▸ List.prefix_refl _, keeps.name, keeps.superName, keeps.defaultConstructor⟩

structure CodeMade (h : MethodHead) (steps : Listing) (code : Code) (p : Pool) : Prop where
  body : ∃ before b', before.Sound ∧ Body.Assembled h steps before code b' ∧ p.Extends b'.pool
  enough : ∃ d, MethodDescriptor.decode? h.descriptor = some d ∧
    Body.receiverSlots h.isStatic + d.paramSlots ≤ maxParameterSlots

theorem ensures_code (h : MethodHead) (steps : Listing) :
    (building accepts).Ensures (code h steps) c (fun _ c' => ∃ m body,
      MethodMade h [.code body] c'.pool m ∧ CodeMade h steps body c'.pool ∧ MethodAdded m c c') := by
  unfold code
  refine (ensures_of_pooling (ensures_aside rfl ⟨rfl, rfl, rfl, rfl, rfl⟩)).bind fun _ c₁ _ _ kept => ?_
  refine (ensures_of_pooling (ensures_checkSignature h)).bind fun _ c₂ sound _ checked => ?_
  obtain ⟨⟨enough, -⟩, keeps⟩ := checked
  have keeps := kept.2.trans keeps
  have decodes : Reader.acceptsMethod h.descriptor = true := by
    obtain ⟨d, decoded, -⟩ := enough
    rw [Reader.acceptsMethod, decoded, Option.isSome_some]
  split
  · refine (ensures_addMethod (fun m p => ∃ body, MethodMade h [.code body] p m ∧
      CodeMade h steps body p) ?_).mono fun _ c' _ _ added => ?_
    · refine (ensures_assemble h steps).bind fun a c₃ _ _ made => ?_
      obtain ⟨⟨body, b', rfl, assembled, pool⟩, built⟩ := made
      refine (ensures_finishMethod (by simp) decodes ?_).mono fun m c₄ _ onward finished => ?_
      · simpa [Attribute.nestedAll] using built
      · exact ⟨finished.1, body, finished.2, ⟨_, b', sound.pool, assembled, pool ▸ onward.1⟩, enough⟩
    obtain ⟨m, ⟨body, made, assembled⟩, added⟩ := added
    exact ⟨m, body, made, assembled, keeps.methods ▸ added.methods,
      added.fields.trans keeps.fields, added.superName.trans keeps.superName,
      added.name.trans keeps.name⟩
  · exact Ensures.throw _

theorem ensures_noCode (h : MethodHead) : (building accepts).Ensures (noCode h) c
    (fun _ c' => ∃ m, MethodMade h [] c'.pool m ∧ MethodAdded m c c') := by
  unfold noCode
  refine (ensures_of_pooling (ensures_aside rfl ⟨rfl, rfl, rfl, rfl, rfl⟩)).bind fun _ c₁ _ _ kept => ?_
  refine (ensures_of_pooling (ensures_checkSignature h)).bind fun _ c₂ sound _ checked => ?_
  obtain ⟨⟨⟨d, decoded, -⟩, -⟩, keeps⟩ := checked
  have keeps := kept.2.trans keeps
  split
  · exact Ensures.throw _
  · refine (ensures_addMethod (fun m p => MethodMade h [] p m)
      (ensures_finishMethod ?_ ?_ ?_)).mono fun _ c' _ _ added => ?_
    · simp
    · rw [Reader.acceptsMethod, decoded, Option.isSome_some]
    · simp [Attribute.nestedAll]
    · obtain ⟨m, made, added⟩ := added
      exact ⟨m, made, keeps.methods ▸ added.methods, added.fields.trans keeps.fields,
        added.superName.trans keeps.superName, added.name.trans keeps.name⟩

theorem ensures_addDefaultConstructor :
    (building accepts).Ensures addDefaultConstructor c Ensures.Anything := by
  unfold addDefaultConstructor
  refine Ensures.get.bind fun here c₁ _ _ same => ?_
  exact (ensures_of_pooling (ensures_note _)).andThen fun _ c₂ => (ensures_code _ _).anything

theorem ensures_completeConstructors : (building accepts).Ensures completeConstructors c
    (fun _ c' => c.defaultConstructor = false → c.Keeps c') := by
  unfold completeConstructors
  refine Ensures.get.bind fun here c₁ _ _ same => ?_
  obtain ⟨rfl, rfl⟩ := same
  split
  · rename_i wanted
    refine ensures_addDefaultConstructor.mono fun _ c₂ _ _ _ unwanted => ?_
    rw [unwanted] at wanted
    cases wanted
  · exact Ensures.pure _ fun _ _ => .refl _

structure Makes (c : ClassBuilder) (m : ClassFile) : Prop where
  pool : m.pool = c.pool
  fields : m.fields = c.fields.toList
  methods : m.methods = c.methods.toList
  thisClass : m.pool.classNameAt? m.thisClass = some (Pool.internalName c.name)
  superClass : if c.name = objectClass then m.superClass = 0 else
    m.pool.classNameAt? m.superClass = some (Pool.internalName c.superName)
  interfaces : ∀ i ∈ m.interfaces, m.pool.Resolves (i, [.classRef])
  few : m.attributes.length ≤ 1
  attributes : ∀ a ∈ Attribute.nestedAll m.attributes, a.Built m.pool
  named : ∀ k ∈ c.attributeKinds m.attributes, ∃ i, m.pool.get? i = some (.utf8 k.bytes)

theorem ensures_superIndex : (pooling accepts).Ensures superIndex c (fun i c' =>
    if c.name = objectClass then i = 0 else
      c'.pool.classNameAt? i = some (Pool.internalName c.superName)) := by
  unfold superIndex
  refine Ensures.get.bind fun here c₁ _ _ same => ?_
  obtain ⟨rfl, rfl⟩ := same
  split
  · exact Ensures.pure _ fun _ => rfl
  · exact ensures_onPool (Pool.ensures_classRef _)

theorem ensures_sourceAttributes : (pooling accepts).Ensures sourceAttributes c (fun as c' =>
    as.length ≤ 1 ∧ ∀ a ∈ Attribute.nestedAll as, a.Built c'.pool) := by
  unfold sourceAttributes
  refine Ensures.get.bind fun here c₁ _ _ _ => ?_
  split
  · refine (ensures_onPool (Pool.ensures_text _)).bind fun i c₂ _ _ found => ?_
    refine Ensures.pure _ fun _ => ⟨by simp, ?_⟩
    simp only [Attribute.nestedAll, Attribute.nested, List.append_nil, List.mem_singleton, forall_eq]
    exact Attribute.built_sourceFile (Pool.resolves_of_utf8At? found)
  · exact Ensures.pure _ fun _ => by simp [Attribute.nestedAll]

theorem ensures_nameAttributes (own : List Attribute) :
    (pooling accepts).Ensures (nameAttributes own) c (fun _ c' =>
      ∀ k ∈ c.attributeKinds own, ∃ i, c'.pool.get? i = some (.utf8 k.bytes)) := by
  unfold nameAttributes
  refine Ensures.get.bind fun here c₁ _ _ same => ?_
  obtain ⟨rfl, rfl⟩ := same
  refine Ensures.forM (fun k c₂ => ?_) fun k c₂ c₃ onward found => ?_
  · refine (ensures_onPool (Pool.ensures_utf8 k.name)).bind fun i c₃ _ _ found => ?_
    exact Ensures.pure _ fun _ => ⟨i, k.encode_name ▸ found⟩
  · obtain ⟨i, found⟩ := found
    exact ⟨i, onward.1.get? found⟩

theorem ensures_build : (building accepts).Ensures build c
    (fun m c' => Makes c' m ∧ (c.defaultConstructor = false → c.Keeps c')) := by
  unfold build
  refine ensures_completeConstructors.bind fun _ c₁ _ _ completed => ?_
  refine Ensures.get.bind fun here c₂ _ _ same => ?_
  obtain ⟨rfl, rfl⟩ := same
  have each : ∀ t c, (pooling accepts).Ensures (onPool (Pool.classRef t)) c (fun i c' =>
      c'.pool.Resolves (i, [.classRef])) := fun t c =>
    (ensures_onPool (Pool.ensures_classRef t)).mono fun _ _ _ _ found =>
      Pool.resolves_of_classNameAt? found
  refine (ensures_of_pooling (ensures_onPool (Pool.ensures_classRef _))).bind
    fun thisClass c₃ _ onward₃ this => ?_
  refine (ensures_of_pooling ensures_superIndex).bind fun superClass c₄ _ onward₄ super => ?_
  refine (ensures_of_pooling (Ensures.mapM each fun t i c c' onward leads =>
    onward.1.resolves leads)).bind fun interfaces c₅ _ onward₅ implemented => ?_
  refine (ensures_of_pooling ensures_sourceAttributes).bind
    fun attributes c₆ _ onward₆ source => ?_
  refine (ensures_of_pooling (ensures_nameAttributes attributes)).bind
    fun _ c₇ _ onward₇ named => ?_
  refine Ensures.get.bind fun here c₈ _ _ same => ?_
  obtain ⟨rfl, rfl⟩ := same
  refine (ensures_of_pooling (ensures_note _)).bind fun _ c₉ _ _ noted => ?_
  refine Ensures.pure _ fun _ => ?_
  obtain ⟨pool, keeps₉⟩ := noted
  have from₆ := Later.pool onward₇
  have from₅ := (Later.pool onward₆).trans from₆
  have from₄ := (Later.pool onward₅).trans from₅
  have keeps₆ := named.2.trans keeps₉
  have keeps₃ := super.2.trans (implemented.2.trans (source.2.trans keeps₆))
  have keeps := this.2.trans keeps₃
  refine ⟨?_, fun unwanted => (completed unwanted).trans keeps⟩
  refine ⟨pool.symm, ?_, ?_, ?_, ?_, ?_, source.1.1, ?_, ?_⟩
  · rw [keeps₉.fields]
  · rw [keeps₉.methods]
  · rw [keeps.name]
    exact ((Later.pool onward₄).trans from₄).classNameAt? this.1
  · have found := super.1
    rw [keeps₃.name, keeps₃.superName]
    split
    · rename_i top
      rwa [if_pos top] at found
    · rename_i below
      rw [if_neg below] at found
      exact from₄.classNameAt? found
  · exact forall_of_forall₂ implemented.1 fun t i leads => from₅.resolves leads
  · exact fun a inside => (source.1.2 a inside).mono from₆
  · rw [attributeKinds, keeps₆.fields, keeps₆.methods]
    exact named.1

end ClassBuilder
end ClassForge
