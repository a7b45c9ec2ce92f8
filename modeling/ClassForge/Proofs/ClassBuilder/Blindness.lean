import ClassForge.Proofs.ClassBuilder.Histories
import ClassForge.Proofs.Code.Blindness
import ClassForge.Proofs.Format.AlikeWriting
import ClassForge.Proofs.Pool.Changes

namespace ClassForge.ClassBuilder

open View (Keeps Blind)

/-- All that counts of a class besides its pool. What the last body told is left out if `told` is
`false`. -/
def view (told : Bool) : View ClassBuilder where
  pool := ClassBuilder.pool
  rest c := { c with
    pool := {}, cache := {}, journal := #[], lastRun := if told then c.lastRun else none }
  fixed c := { c with pool := {}, cache := {}, journal := #[], lastRun := none }

variable {told : Bool} {α : Type} {c d : ClassBuilder}

def withPool (c : ClassBuilder) (p : Pool) : ClassBuilder :=
  { c with pool := p, journal := c.journal ++ p.changes c.pool.size }

theorem onPool_onPart (m : PoolM α) : View.OnPart pool withPool m (onPool m) := by
  intro c
  unfold onPool
  dsimp only
  cases m c.pool <;> rfl

theorem blind_onPool {m : PoolM α} (blind : View.ofPool.Blind m) :
    (view told).Blind (onPool m) := by
  refine blind.onPart (onPool_onPart m) ?_ ?_
  · exact fun s t alike => ⟨alike.pool, rfl⟩
  · exact fun s t p q alike pools => ⟨pools.pool, alike.rest⟩

theorem keeps_onPool {m : PoolM α} (interns : Pool.Interns m) : (view told).Keeps (onPool m) := by
  refine interns.keeps.onPart (onPool_onPart m) ?_ ?_ ?_
  · exact fun s t alike => ⟨alike.pool, rfl⟩
  · exact fun s t p q alike pools => ⟨pools.pool, alike.rest⟩
  · exact fun s p onward => ⟨onward.grown, rfl⟩

theorem keeps_note (e : Event) : (view told).Keeps (note e) :=
  .modify (fun _ => rfl) (fun _ => by cases told <;> rfl) fun _ => rfl

theorem keeps_noteAll (j : Journal) : (view told).Keeps (noteAll j) :=
  .modify (fun _ => rfl) (fun _ => by cases told <;> rfl) fun _ => rfl

theorem keeps_decodeDescriptor (descriptor : String) :
    (view told).Keeps (decodeDescriptor descriptor) := by
  constructor
  · intro s t alike
    unfold decodeDescriptor
    simp only [DescriptorCache.method?_fst]
    split
    · exact .ok _ ⟨alike.pool, alike.rest⟩
    · exact .error _ ⟨alike.pool, alike.rest⟩
  · intro s
    unfold decodeDescriptor
    dsimp only
    split <;> rename_i h <;> split at h <;> cases h <;> exact ⟨.refl _, rfl⟩

theorem keeps_checkSignature (h : MethodHead) : (view told).Keeps (checkSignature h) := by
  refine (keeps_decodeDescriptor _).bind fun d => ?_
  split
  · exact Keeps.look (fun _ => rfl) fun _ => .throw _
  · split
    · exact .throw _
    · dsimp only
      split
      · exact .throw _
      · exact .pure ()

theorem keeps_finishMethod (h : MethodHead) (code : List Attribute) :
    (view told).Keeps (finishMethod h code) :=
  (keeps_onPool (.utf8 _)).bind fun _ => (keeps_onPool (.utf8 _)).bind fun _ =>
    (Keeps.mapM fun t => keeps_onPool (.classRef t)).bind fun _ => .pure _

inductive Starts (p q : Pool) : Except Error Body → Except Error Body → Prop where
  | ok {b b' : Body} (bodies : Body.view.Alike b b') (left : b.pool = p) :
    Starts p q (.ok b) (.ok b')
  | error (e : Error) : Starts p q (.error e) (.error e)

theorem starts {p q : Pool} (alike : p.Alike q) (known known' : DescriptorCache)
    (descriptor : String) (isStatic : Bool) :
    Starts p q (Body.start p known descriptor isStatic).1
      (Body.start q known' descriptor isStatic).1 := by
  unfold Body.start
  simp only [DescriptorCache.method?_fst]
  split
  · exact .error _
  · split
    · exact .error _
    · exact .ok ⟨alike, rfl⟩ rfl

def bodyRun (h : MethodHead) (steps : Listing) : BuilderM Body := do
  let b ← startBody h
  let b ← runBody steps b
  return Body.view.rest b

def takeBack (c : ClassBuilder) (size : Nat) (b : Body) (told : Transcript) : ClassBuilder :=
  { c with
    pool := b.pool, cache := b.cache, lastRun := some told
    journal := c.journal ++ b.pool.changes size }

theorem bodyRun_eq (h : MethodHead) (steps : Listing) (c : ClassBuilder) :
    bodyRun h steps c = match Body.start c.pool c.cache h.descriptor h.isStatic with
      | (.error e, known) => .error e { c with cache := known }
      | (.ok b, _) => match steps.run { b with declaredStack := h.maxStack } with
        | (.ok _, b', told) => .ok (Body.view.rest b') (c.takeBack b.pool.size b' told)
        | (.error e, b', told) => .error e (c.takeBack b.pool.size b' told) := by
  unfold bodyRun startBody runBody
  simp only [bind, EStateM.bind, pure, EStateM.pure]
  generalize Body.start c.pool c.cache h.descriptor h.isStatic = started
  obtain ⟨found, known⟩ := started
  cases found with
  | error e => rfl
  | ok b =>
    dsimp only
    generalize steps.run { b with declaredStack := h.maxStack } = run
    obtain ⟨ran, b', told⟩ := run
    cases ran <;> rfl

theorem alike_takeBack {s t : ClassBuilder} {b c : Body} (alike : (view told).Alike s t)
    (bodies : Body.view.Alike b c) (n m : Nat) (heard : Transcript) :
    (view told).Alike (s.takeBack n b heard) (t.takeBack m c heard) :=
  ⟨bodies.pool, congrArg (fun c => { c with lastRun := if told then some heard else none })
    alike.rest⟩

theorem blind_bodyRun (h : MethodHead) (steps : Listing) :
    (view told).Blind (bodyRun h steps) := by
  intro s t alike
  have pools : s.pool.Alike t.pool := alike.pool
  have started := starts pools s.cache t.cache h.descriptor h.isStatic
  rw [bodyRun_eq, bodyRun_eq]
  generalize Body.start s.pool s.cache h.descriptor h.isStatic = x at started
  generalize Body.start t.pool t.cache h.descriptor h.isStatic = y at started
  obtain ⟨x, known⟩ := x
  obtain ⟨y, known'⟩ := y
  cases started with
  | error e => exact .error e ⟨pools, alike.rest⟩
  | @ok b c bodies left =>
    have bodies : Body.view.Alike { b with declaredStack := h.maxStack }
        { c with declaredStack := h.maxStack } :=
      bodies.map (f := fun b => { b with declaredStack := h.maxStack }) (fun _ => rfl) fun _ => rfl
    obtain ⟨same, alike', transcript⟩ := steps.run_alike bodies
    dsimp only
    generalize steps.run { b with declaredStack := h.maxStack } = x at same alike' transcript
    generalize steps.run { c with declaredStack := h.maxStack } = y at same alike' transcript
    obtain ⟨ran, b', heard⟩ := x
    obtain ⟨ran', c', heard'⟩ := y
    cases same
    cases transcript
    have taken := alike_takeBack alike alike' b.pool.size c.pool.size heard
    cases ran with
    | ok u =>
      dsimp only at alike'
      dsimp only
      rw [alike'.rest]
      exact .ok _ taken
    | error e => exact .error e taken

theorem keeps_bodyRun (h : MethodHead) (steps : Listing) :
    (view told).Keeps (bodyRun h steps) := by
  refine ⟨blind_bodyRun h steps, fun s => ?_⟩
  have started := starts (.refl s.pool) s.cache s.cache h.descriptor h.isStatic
  rw [bodyRun_eq]
  generalize Body.start s.pool s.cache h.descriptor h.isStatic = x at started
  obtain ⟨x, known⟩ := x
  cases started with
  | error e => exact ⟨.refl _, rfl⟩
  | @ok b c bodies left =>
    have grown := steps.run_grown { b with declaredStack := h.maxStack }
    dsimp only
    generalize steps.run { b with declaredStack := h.maxStack } = x at grown
    obtain ⟨ran, b', heard⟩ := x
    have start : s.pool.Grown b'.pool := left ▸ grown
    cases ran <;> exact ⟨start, rfl⟩

theorem assemble_eq (h : MethodHead) (steps : Listing) : assemble h steps = (do
    let b ← bodyRun h steps
    let c ← get
    if stackMapMajor ≤ c.major ∧ b.needsStackMap then
      throw (.unsupported (.needsStackMap h.name h.descriptor c.major))
    else
      noteAll b.finishJournal
      match b.finish with
      | .ok code => return .code code
      | .error e => throw e) := by
  unfold assemble bodyRun
  simp only [bind_assoc, pure_bind]
  rfl

theorem keeps_assemble (h : MethodHead) (steps : Listing) :
    (view told).Keeps (assemble h steps) := by
  rw [assemble_eq]
  refine (keeps_bodyRun h steps).bind fun b => Keeps.look (fun _ => rfl) fun c => ?_
  split
  · exact .throw _
  · refine (keeps_noteAll _).bind fun _ => ?_
    split
    · exact .pure _
    · exact .throw _

theorem blind_addMethod (h : MethodHead) {make : BuilderM Member} (keeps : (view told).Keeps make) :
    (view told).Blind (addMethod h make) := by
  intro s t alike
  have pools : s.pool.Alike t.pool := alike.pool
  have ends := keeps.blind s t alike
  unfold addMethod
  rw [pools.size]
  dsimp only
  generalize make s = x at ends
  generalize make t = y at ends
  cases ends with
  | ok m alike =>
    exact .ok () ⟨alike.pool, congrArg (fun c : ClassBuilder => { c with
      methods := c.methods.push m
      hasConstructor := c.hasConstructor || h.name = constructorName }) alike.rest⟩
  | error e alike => exact .error e ⟨alike.pool.truncate _, alike.rest⟩

theorem blind_reset : (view told).Blind
    (modify fun c : ClassBuilder => { c with lastRun := none } : BuilderM Unit) :=
  .modify (fun _ => rfl) fun _ => by cases told <;> rfl

theorem blind_code (h : MethodHead) (steps : Listing) : (view told).Blind (code h steps) := by
  refine Blind.bind blind_reset fun _ => (keeps_checkSignature h).blind.bind fun _ => ?_
  split
  · exact blind_addMethod h ((keeps_assemble h steps).bind fun _ => keeps_finishMethod ..)
  · exact .throw _

theorem blind_noCode (h : MethodHead) : (view told).Blind (noCode h) := by
  refine Blind.bind blind_reset fun _ => (keeps_checkSignature h).blind.bind fun _ => ?_
  split
  · exact .throw _
  · exact blind_addMethod h (keeps_finishMethod ..)

theorem blind_addField (access : UInt16) (name : String) (type : FieldType)
    (attributes : List Attribute) : (view told).Blind (addField access name type attributes) := by
  refine (keeps_onPool (.utf8 _)).blind.bind fun n => ?_
  refine (keeps_onPool (.utf8 _)).blind.bind fun d => ?_
  refine Blind.look (fun _ => rfl) fun c => (keeps_note _).blind.bind fun _ => ?_
  exact .modify (fun _ => rfl) fun _ => by cases told <;> rfl

theorem blind_constantField (access : UInt16) (name : String) (type : FieldType) (value : Literal) :
    (view told).Blind (constantField access name type value) := by
  unfold constantField
  split
  · exact (keeps_onPool (.literal value)).blind.bind fun _ => blind_addField _ _ _ _
  · exact .throw _

theorem Call.blind (call : Call) : (view told).Blind call.perform := by
  cases call with
  | version _ _ | access _ | superClass _ | implements _ | sourceFile _ | defaultConstructor _
  | cache _ => exact .modify (fun _ => rfl) fun _ => by cases told <;> rfl
  | pool request => exact (keeps_onPool (.answer request)).blind.bind fun _ => .pure _
  | field flags name type => exact blind_addField _ _ _ _
  | constantField flags name type value => exact blind_constantField _ _ _ _
  | code head steps => exact blind_code head steps
  | noCode head => exact blind_noCode head

theorem blind_completeConstructors : (view told).Blind completeConstructors := by
  refine Blind.look (fun _ => rfl) fun c => ?_
  split
  · exact Blind.look (fun _ => rfl) fun _ => (keeps_note _).blind.bind fun _ => blind_code _ _
  · exact .pure _

theorem keeps_superIndex : (view told).Keeps superIndex := by
  refine Keeps.look (fun _ => rfl) fun c => ?_
  split
  · exact .pure _
  · exact keeps_onPool (.classRef _)

theorem keeps_sourceAttributes : (view told).Keeps sourceAttributes := by
  refine Keeps.look (fun _ => rfl) fun c => ?_
  split
  · exact (keeps_onPool (.utf8 _)).bind fun _ => .pure _
  · exact .pure _

theorem keeps_nameAttributes (own : List Attribute) : (view told).Keeps (nameAttributes own) :=
  Keeps.look (fun _ => rfl) fun _ => .forM fun _ => (keeps_onPool (.utf8 _)).bind fun _ => .pure _

def frozen (thisClass superClass : Index) (interfaces : List Index) (attributes : List Attribute)
    (c : ClassBuilder) : ClassFile where
  minor := c.minor
  major := c.major
  pool := c.pool
  access := c.access
  thisClass := thisClass
  superClass := superClass
  interfaces := interfaces
  attributes := attributes
  fields := c.fields.toList
  methods := c.methods.toList

theorem blind_build_bind {k : ClassFile → BuilderM α}
    (next : ∀ m p s t, m.pool.Alike p → (view told).Alike s t →
      (view told).Ends (k m s) (k { m with pool := p } t)) :
    (view told).Blind (build >>= k) := by
  unfold build
  simp only [bind_assoc, pure_bind]
  refine blind_completeConstructors.bind fun _ => Blind.look (fun _ => rfl) fun c => ?_
  refine (keeps_onPool (.classRef _)).blind.bind fun thisClass => ?_
  refine keeps_superIndex.blind.bind fun superClass => ?_
  refine (Keeps.mapM fun i => keeps_onPool (.classRef i)).blind.bind fun interfaces => ?_
  refine keeps_sourceAttributes.blind.bind fun attributes => ?_
  refine (keeps_nameAttributes attributes).blind.bind fun _ => ?_
  intro s t alike
  let file := frozen thisClass superClass interfaces attributes
  have others : { file s with pool := t.pool } = file t :=
    congrArg (fun c => { file c with pool := t.pool }) alike.rest
  change (view told).Ends (k (file s) _) (k (file t) _)
  rw [← others]
  exact next (file s) t.pool _ _ alike.pool ⟨alike.pool, alike.rest⟩

theorem blind_build_map {f : ClassFile → α}
    (same : ∀ m p, m.pool.Alike p → f { m with pool := p } = f m) :
    (view told).Blind (do return f (← build)) := by
  refine blind_build_bind fun m p s t pools alike => ?_
  change (view told).Ends (.ok (f m) s) (.ok (f { m with pool := p }) t)
  rw [same m p pools]
  exact .ok _ alike

theorem blind_toBytes : (view told).Blind toBytes := by
  refine blind_build_bind fun m p s t pools alike => ?_
  have written : m.write = ClassFile.write { m with pool := p } := ClassFile.write_congr pools
  rw [written]
  cases ClassFile.write { m with pool := p } with
  | ok bytes => exact .ok bytes ⟨alike.pool, alike.rest⟩
  | error e => exact .error e ⟨alike.pool, alike.rest⟩

end ClassForge.ClassBuilder
