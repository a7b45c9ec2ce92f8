import ClassForge.Proofs.Proxy.Handled
import ClassForge.Proofs.Proxy.SuperCalls

namespace ClassForge

variable {d : MethodDescriptor} {isStatic : Bool} {p : Pool} {is : List Instruction}

theorem Operation.eq_field_of_map {τ σ : Type} {f : τ → σ} {o : Operation τ} {access : FieldAccess}
    {j : Index} (same : o.map f = .field access j) : o = .field access j := by
  cases o with
  | field access j =>
    cases same
    rfl
  | _ => cases same

theorem Step.Means.field_of_mem {step : Step} (means : step.Means d isStatic p is) {i : Instruction}
    (inside : i ∈ is) {access : FieldAccess} {j : Index} (uses : i.operation = .field access j) :
    ∃ owner name t, step = .field access owner name t ∧
      p.memberAt? j = some ⟨Pool.internalName owner, name, t.descriptor⟩ := by
  cases means with
  | field named =>
    rw [List.mem_singleton] at inside
    subst inside
    cases uses
    exact ⟨_, _, _, rfl, named⟩
  | push loads =>
    rw [List.mem_singleton] at inside
    subst inside
    dsimp only at uses
    rw [uses] at loads
    cases loads
  | boxReference | unboxObject => cases inside
  | unbox =>
    simp only [List.mem_cons, List.not_mem_nil, or_false] at inside
    rcases inside with rfl | rfl <;> cases uses
  | _ =>
    rw [List.mem_singleton] at inside
    subst inside
    cases uses

theorem Listing.Means.field_of_mem {steps : Listing} (means : steps.Means d isStatic p is)
    {i : Instruction} (inside : i ∈ is) {access : FieldAccess} {j : Index}
    (uses : i.operation = .field access j) :
    ∃ owner name t, .field access owner name t ∈ steps ∧
      p.memberAt? j = some ⟨Pool.internalName owner, name, t.descriptor⟩ := by
  induction steps generalizing is with
  | nil =>
    cases means
    cases inside
  | cons step rest ih =>
    obtain ⟨new, others, here, behind, rfl⟩ := means
    rcases List.mem_append.1 inside with inside | inside
    · obtain ⟨owner, name, t, rfl, named⟩ := here.field_of_mem inside uses
      exact ⟨owner, name, t, List.mem_cons_self, named⟩
    · obtain ⟨owner, name, t, member, named⟩ := ih behind inside
      exact ⟨owner, name, t, List.mem_cons_of_mem _ member, named⟩

namespace ProxySpec

variable {s : ProxySpec} {c : HandlerContract}

def OwnFields (s : ProxySpec) (steps : Listing) : Prop :=
  ∀ access owner name t, .field access owner name t ∈ steps → owner = s.name ∧ (name, t) ∈ s.fields

theorem OwnFields.append {steps more : Listing} (first : s.OwnFields steps)
    (second : s.OwnFields more) : s.OwnFields (steps ++ more) := by
  intro access owner name t inside
  rcases List.mem_append.1 inside with inside | inside
  · exact first _ _ _ _ inside
  · exact second _ _ _ _ inside

theorem ownFields_of_forall {steps : Listing}
    (none : ∀ step ∈ steps, ∀ access owner name t, step ≠ .field access owner name t) :
    s.OwnFields steps :=
  fun access owner name t inside => absurd rfl (none _ inside access owner name t)

theorem ownFields_storeParam {name : String} {type : FieldType} (own : (name, type) ∈ s.fields)
    (position : Nat) : s.OwnFields (s.storeParam name type position) := by
  intro access owner name' t inside
  simp only [storeParam, List.mem_cons, List.not_mem_nil, reduceCtorEq, or_false, false_or] at inside
  cases inside
  exact ⟨rfl, own⟩

theorem mem_fields_of_handler (handler : s.handler = some c) : (c.field, c.type) ∈ s.fields := by
  refine List.mem_append_left _ ?_
  rw [handlerField, handler]
  exact List.mem_singleton_self _

theorem ownFields_storeHandler : s.OwnFields s.storeHandler := by
  unfold storeHandler
  split
  · rename_i c handler
    exact ownFields_storeParam (mem_fields_of_handler handler) 0
  · exact ownFields_of_forall nofun

theorem ownFields_storeCaptures (position : Nat) (captures : List String) :
    s.OwnFields (s.storeCaptures position captures) := by
  induction captures generalizing position with
  | nil => exact ownFields_of_forall nofun
  | cons name rest ih =>
    refine OwnFields.append ?_ (ih _)
    unfold storeCapture
    split
    · rename_i t captured
      exact ownFields_storeParam (mem_fields_of_captureType? captured) position
    · exact ownFields_of_forall (by simp)

theorem ownFields_pushArgument (params : List FieldType) (argument : Argument) (target : FieldType)
    (access : FieldAccess) (owner name : String) (t : FieldType) :
    s.pushArgument params argument target ≠ .field access owner name t := by
  unfold pushArgument
  dsimp only
  split
  · split
    · split <;> exact nofun
    · exact nofun
  · split <;> exact nofun
  · split <;> exact nofun

theorem ownFields_constructorBody (c : ConstructorSpec) : s.OwnFields (s.constructorBody c) := by
  unfold constructorBody
  cases c.kind with
  | forwarding superParams captures =>
    dsimp only
    unfold forwardingBody
    refine OwnFields.append (OwnFields.append (OwnFields.append (ownFields_of_forall ?_)
      ownFields_storeHandler) (ownFields_storeCaptures _ _)) (ownFields_of_forall (by simp))
    simp only [List.mem_append, List.mem_map, List.mem_cons, List.not_mem_nil, or_false]
    rintro step ((rfl | ⟨i, -, rfl⟩) | rfl) <;> simp
  | delegating params target arguments =>
    dsimp only
    unfold delegatingBody
    split
    · exact ownFields_of_forall (by simp)
    · refine ownFields_of_forall ?_
      simp only [List.mem_append, List.mem_map, Prod.exists]
      rintro step (((first | first) | ⟨a, t, -, rfl⟩) | last)
      · simp_all
      · split at first <;> simp_all
      · exact ownFields_pushArgument params a t
      · simp only [List.mem_cons, List.not_mem_nil, or_false] at last
        rcases last with rfl | rfl <;> simp

theorem ownFields_handlerBody (handler : s.handler = some c) (name : String)
    (d : MethodDescriptor) : s.OwnFields (s.handlerBody c name d) := by
  have passed (position : Nat) (types : List FieldType) :
      s.OwnFields (passArguments position types) := by
    induction types generalizing position with
    | nil => exact ownFields_of_forall nofun
    | cons t rest ih => exact OwnFields.append (ownFields_of_forall (by simp [passArgument])) (ih _)
  refine OwnFields.append (OwnFields.append ?_ (passed _ _)) (ownFields_of_forall ?_)
  · intro access owner name' t inside
    simp only [List.mem_cons, List.not_mem_nil, reduceCtorEq, or_false, false_or] at inside
    cases inside
    exact ⟨rfl, mem_fields_of_handler handler⟩
  · cases d.returns <;> simp

theorem ownFields_returningBody {field : String} {type : FieldType}
    (captured : s.captureType? field = some type) (d : MethodDescriptor) :
    s.OwnFields (s.returningBody field type d) := by
  unfold returningBody
  split
  · intro access owner name t inside
    simp only [List.mem_cons, List.not_mem_nil, reduceCtorEq, or_false, false_or] at inside
    cases inside
    exact ⟨rfl, mem_fields_of_captureType? captured⟩
  · exact ownFields_of_forall (by simp)

theorem bodyFor_cases (descriptor : String) (make : MethodDescriptor → Listing) :
    Generation.bodyFor descriptor make = [] ∨
      ∃ d, Generation.bodyFor descriptor make = make d := by
  unfold Generation.bodyFor
  cases MethodDescriptor.decode? descriptor with
  | none => exact .inl rfl
  | some d => exact .inr ⟨d, rfl⟩

theorem methodSteps_of_not_assembled {spec : MethodSpec} (admits : s.Admits spec)
    (other : ∀ steps, spec.body ≠ .assembled steps) :
    (∀ step ∈ s.methodSteps spec, step.isPlain = true) ∧ s.OwnFields (s.methodSteps spec) := by
  unfold methodSteps
  cases body : spec.body with
  | handled =>
    obtain ⟨⟨c, handler⟩, -⟩ := admits.handled body
    simp only [handler, Option.map_some, Option.getD_some]
    rcases bodyFor_cases spec.descriptor (s.handlerBody c spec.name) with none | ⟨d, made⟩
    · rw [none]
      exact ⟨List.forall_mem_nil _, ownFields_of_forall nofun⟩
    · rw [made]
      exact ⟨plain_handlerBody spec.name d, ownFields_handlerBody handler spec.name d⟩
  | returning field =>
    obtain ⟨⟨type, captured⟩, -⟩ := admits.returning field body
    simp only [captured, Option.map_some, Option.getD_some]
    rcases bodyFor_cases spec.descriptor (s.returningBody field type) with none | ⟨d, made⟩
    · rw [none]
      exact ⟨List.forall_mem_nil _, ownFields_of_forall nofun⟩
    · rw [made]
      exact ⟨plain_returningBody field type d, ownFields_returningBody captured d⟩
  | assembled steps => exact absurd body (other steps)

end ProxySpec

namespace ClassFile

structure Declares (file : ClassFile) (ref : MemberRef) : Prop where
  owner : file.pool.classNameAt? file.thisClass = some ref.owner
  field : ∃ f ∈ file.fields, f.name? file.pool = some ref.name ∧
    f.descriptor? file.pool = some ref.descriptor

/-- The method has code, and every field that its instructions read or write is one that the class
declares. -/
def UsesOwnFields (file : ClassFile) (m : Member) : Prop :=
  ∃ code os, m.code? = some code ∧ code.handlers = [] ∧
    Operation.Sweeps code.bytes.toArray 0 os ∧
    ∀ o ∈ os, ∀ access j, o = .field access j →
      ∃ ref, file.pool.memberAt? j = some ref ∧ file.Declares ref

end ClassFile

namespace ProxySpec

variable {s : ProxySpec} {all : List (String × ConstructorSpec)} {builder : ClassBuilder}
  {file : ClassFile}

theorem Describes.thisClass (describes : s.Describes all builder) (makes : builder.Makes file) :
    file.pool.classNameAt? file.thisClass = some (Pool.internalName s.name) := by
  rw [makes.thisClass, describes.name, Pool.internalName_internalName]

theorem Describes.usesOwnFields (describes : s.Describes all builder) (makes : builder.Makes file)
    {h : MethodHead} {steps : Listing} {m : Member} (written : h.Written steps builder.pool m)
    (plain : ∀ step ∈ steps, step.isPlain = true) (own : s.OwnFields steps) :
    file.UsesOwnFields m := by
  obtain ⟨code, d, is, coded, handlers, means, sweeps⟩ := written.sweeps plain
  refine ⟨code, _, coded, handlers, sweeps, ?_⟩
  intro o inside access j uses
  obtain ⟨i, member, rfl⟩ := List.mem_map.1 inside
  obtain ⟨owner, name, t, used, named⟩ :=
    means.field_of_mem member (Operation.eq_field_of_map uses)
  obtain ⟨rfl, declared⟩ := own _ _ _ _ used
  obtain ⟨f, kept, field⟩ := exists_of_forall₂ describes.fields _ declared
  refine ⟨_, makes.pool ▸ named, describes.thisClass makes, f, ?_, ?_, ?_⟩
  · exact makes.fields ▸ kept
  · exact makes.pool ▸ field.name
  · exact makes.pool ▸ field.descriptor

structure ConstructorMade (s : ProxySpec) (file : ClassFile) (c : ConstructorSpec) (m : Member) :
    Prop where
  name : m.name? file.pool = some constructorName
  descriptor : ∃ params, s.constructorParams c = .ok params ∧
    m.descriptor? file.pool = some (constructorDescriptor params)
  fields : file.UsesOwnFields m
  delegates : ∀ params target arguments, c.kind = .delegating params target arguments →
    ∃ next text, text = constructorDescriptor (s.declaredParams target) ∧
      file.HasConstructor text next ∧
      m.CallsOnce file.pool ⟨Pool.internalName s.name, constructorName, text⟩

/-- A method as it was asked for, which uses what the class has unless its code was given. -/
structure OrdinaryMade (file : ClassFile) (spec : MethodSpec) (m : Member) : Prop where
  name : m.name? file.pool = some spec.name
  ordinary : spec.name ≠ constructorName
  descriptor : m.descriptor? file.pool = some spec.descriptor
  fields : (∀ steps, spec.body ≠ .assembled steps) → file.UsesOwnFields m

/-- The class has members with names of their own, which use what the class has. -/
structure Coherent (s : ProxySpec) (file : ClassFile) : Prop where
  name : file.pool.classNameAt? file.thisClass = some (Pool.internalName s.name)
  fields : ∃ names : List String, names.Nodup ∧
    file.fields.map (·.name? file.pool) = names.map some
  methods : ∃ keys : List (String × String), keys.Nodup ∧
    file.methods.map (fun m => (m.name? file.pool, m.descriptor? file.pool)) =
      keys.map (Prod.map some some)
  members : ∃ constructors others, file.methods = constructors ++ others ∧
    List.Forall₂ (s.ConstructorMade file) (Generation.constructorsOf s) constructors ∧
    List.Forall₂ (OrdinaryMade file) s.methods others

theorem constructorMade (describes : s.Describes all builder) (makes : builder.Makes file)
    {c : ConstructorSpec} {x : String × ConstructorSpec} {m : Member} (known : x ∈ all)
    (resolved : ∃ params, s.constructorParams c = .ok params ∧
      x = (constructorDescriptor params, c))
    (written : (s.constructorPlan x.1 x.2).1.Written (s.constructorPlan x.1 x.2).2 builder.pool m) :
    s.ConstructorMade file c m := by
  obtain ⟨params, resolved, rfl⟩ := resolved
  obtain ⟨code, made, coded⟩ := id written
  refine ⟨makes.pool ▸ made.name, ⟨params, resolved, makes.pool ▸ made.descriptor⟩, ?_, ?_⟩
  · exact describes.usesOwnFields makes written (plain_constructorBody c)
      (ownFields_constructorBody c)
  · intro own target arguments delegating
    have calls := callsOnce_of_written written
    rw [constructorCall, delegating, ← makes.pool] at calls
    have target? : s.target? c = some (constructorDescriptor (s.declaredParams target)) :=
      target?_eq_some.2 ⟨own, target, arguments, delegating, rfl⟩
    obtain ⟨n, ends⟩ := ends_of_constructs describes.constructs known
    cases ends with
    | forwards last => cases target?.symm.trans last
    | on calls' found =>
      cases target?.symm.trans calls'
      obtain ⟨next, has, -⟩ := describes.hasConstructor makes (mem_of_lookup found)
      exact ⟨next, _, rfl, has, calls⟩

theorem ordinaryMade (describes : s.Describes all builder) (makes : builder.Makes file)
    {spec : MethodSpec} {m : Member} (asked : spec ∈ s.methods)
    (written : (s.methodPlan spec).1.Written (s.methodPlan spec).2 builder.pool m) :
    OrdinaryMade file spec m := by
  have admits := describes.admits spec asked
  obtain ⟨code, made, coded⟩ := id written
  refine ⟨makes.pool ▸ made.name, admits.name, makes.pool ▸ made.descriptor, fun other => ?_⟩
  obtain ⟨plain, own⟩ := methodSteps_of_not_assembled admits other
  exact describes.usesOwnFields makes written plain own

theorem coherent_of_describes (describes : s.Describes all builder) (makes : builder.Makes file) :
    s.Coherent file := by
  refine ⟨describes.thisClass makes, ⟨s.fields.map (·.1), describes.apart, ?_⟩,
    ⟨_, describes.distinct, ?_⟩, ?_⟩
  · rw [makes.fields, makes.pool, List.map_map]
    exact map_eq_of_forall₂ describes.fields fun f m kept => kept.name
  · rw [makes.methods, makes.pool]
    exact describes.map_methods
  · have planned := describes.methods.flip
    rw [plans] at planned
    have first := (List.forall₂_take_append _ _ _ planned).flip
    have second := (List.forall₂_drop_append _ _ _ planned).flip
    obtain ⟨-, signed, whole, resolved⟩ :=
      Generation.signatures_eq_ok describes.constructs.signed .nil
    rw [List.reverse_nil, List.nil_append] at whole
    subst whole
    have constructors := forall₂_comp resolved (List.forall₂_map_left_iff.1 first)
    have others := (List.forall₂_and_left _ _).2
      ⟨fun spec asked => asked, List.forall₂_map_left_iff.1 second⟩
    refine ⟨_, _, ?_, constructors.imp ?_, others.imp ?_⟩
    · rw [makes.methods]
      exact (List.take_append_drop _ _).symm
    · intro c m planned
      obtain ⟨x, known, resolved, written⟩ := planned
      exact constructorMade describes makes known resolved written
    · intro spec m planned
      obtain ⟨asked, written⟩ := planned
      exact ordinaryMade describes makes asked written

end ProxySpec
end ClassForge
