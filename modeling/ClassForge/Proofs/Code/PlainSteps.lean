import ClassForge.Proofs.Code.Listings

namespace ClassForge

namespace Step

/-- The instructions that a step stands for in a method with the given descriptor, where `p` holds
what they refer to. -/
inductive Means (d : MethodDescriptor) (isStatic : Bool) (p : Pool) :
    Step → List Instruction → Prop where
  | pushNull : Means d isStatic p .pushNull [⟨.pushNull, 0, 1⟩]
  | push {l : Literal} {o : Operation Label} (loads : o.loaded? p = some l) :
    Means d isStatic p (.push l) [⟨o, 0, l.slots⟩]
  | loadThis (bound : isStatic = false) : Means d isStatic p .loadThis [⟨.load .reference 0, 0, 1⟩]
  | loadParam {i : Nat} {t : FieldType} {slot : UInt16} (param : d.params[i]? = some t)
    (place : slot.toNat = Body.receiverSlots isStatic + FieldType.totalSlots (d.params.take i)) :
    Means d isStatic p (.loadParam i) [⟨.load (.ofType t) slot, 0, t.slots⟩]
  | field {access : FieldAccess} {owner name : String} {t : FieldType} {i : Index}
    (named : p.memberAt? i = some ⟨Pool.internalName owner, name, t.descriptor⟩) :
    Means d isStatic p (.field access owner name t)
      [⟨.field access i, (access.moves t).1, (access.moves t).2⟩]
  | invoke {kind : InvokeKind} {owner name descriptor : String} {d' : MethodDescriptor} {i : Index}
    (decoded : MethodDescriptor.decode? descriptor = some d')
    (named : p.memberAt? i = some ⟨Pool.internalName owner, name, descriptor⟩) :
    Means d isStatic p (.invoke kind owner name descriptor)
      [⟨.invoke kind i, Body.receiverSlots (kind = .static) + d'.paramSlots, d'.returnSlots⟩]
  | invokeInterface {owner name descriptor : String} {d' : MethodDescriptor} {i : Index}
    {count : UInt8} (decoded : MethodDescriptor.decode? descriptor = some d')
    (named : p.memberAt? i = some ⟨Pool.internalName owner, name, descriptor⟩) :
    Means d isStatic p (.invokeInterface owner name descriptor)
      [⟨.invokeInterface i count, 1 + d'.paramSlots, d'.returnSlots⟩]
  | newArray {component : FieldType} {name : String} {i : Index}
    (reference : component.className? = some name)
    (named : p.classNameAt? i = some (Pool.internalName name)) :
    Means d isStatic p (.newArray component) [⟨.newReferenceArray i, 1, 1⟩]
  | arrayStore {component : FieldType} : Means d isStatic p (.arrayStore component)
      [⟨.arrayStore (.ofType component), 2 + component.slots, 0⟩]
  | dup : Means d isStatic p .dup [⟨.dup, 1, 2⟩]
  | pop : Means d isStatic p .pop [⟨.pop, 1, 0⟩]
  | leave : Means d isStatic p .leave
      [⟨.leave (d.returns.map .ofType), d.returnSlots, 0⟩]
  | boxReference {t : FieldType} (reference : t.wrapper? = none) : Means d isStatic p (.box t) []
  | box {t : FieldType} {wrapper : String} {d' : MethodDescriptor} {i : Index}
    (wraps : t.wrapper? = some wrapper)
    (decoded : MethodDescriptor.decode? s!"({t.descriptor})L{wrapper};" = some d')
    (named : p.memberAt? i =
      some ⟨Pool.internalName wrapper, "valueOf", s!"({t.descriptor})L{wrapper};"⟩) :
    Means d isStatic p (.box t) [⟨.invoke .static i, d'.paramSlots, d'.returnSlots⟩]
  | unboxObject : Means d isStatic p (.unbox (.object objectClass)) []
  | unboxReference {t : FieldType} {i : Index} (reference : Body.unboxing? t = none)
    (other : t ≠ .object objectClass)
    (named : p.classNameAt? i = some (Pool.internalName (t.className?.getD ""))) :
    Means d isStatic p (.unbox t) [⟨.checkCast i, 1, 1⟩]
  | unbox {t : FieldType} {owner name : String} {d' : MethodDescriptor} {i j : Index}
    (through : Body.unboxing? t = some (owner, name))
    (cast : p.classNameAt? i = some (Pool.internalName owner))
    (decoded : MethodDescriptor.decode? s!"(){t.descriptor}" = some d')
    (named : p.memberAt? j = some ⟨Pool.internalName owner, name, s!"(){t.descriptor}"⟩) :
    Means d isStatic p (.unbox t)
      [⟨.checkCast i, 1, 1⟩, ⟨.invoke .virtual j, 1 + d'.paramSlots, d'.returnSlots⟩]

/-- Steps that stand for instructions by themselves, or for a failure. -/
def isPlain : Step → Bool
  | pushNull | push _ | loadThis | loadParam _ | field .. | invoke .. | invokeInterface ..
  | arrayStore _ | dup | pop | leave | box _ | unbox _ | refuse _ => true
  | newArray component => component.isReference
  | _ => false

variable {d : MethodDescriptor} {isStatic : Bool} {p q : Pool} {step : Step}
  {new : List Instruction}

theorem Means.mono (means : step.Means d isStatic p new) (extends_ : q.Extends p) :
    step.Means d isStatic q new := by
  cases means with
  | pushNull => exact .pushNull
  | push loads => exact .push (Operation.loaded?_of_extends extends_ loads)
  | loadThis bound => exact .loadThis bound
  | loadParam param place => exact .loadParam param place
  | field named => exact .field (extends_.memberAt? named)
  | invoke decoded named => exact .invoke decoded (extends_.memberAt? named)
  | invokeInterface decoded named => exact .invokeInterface decoded (extends_.memberAt? named)
  | newArray reference named => exact .newArray reference (extends_.classNameAt? named)
  | arrayStore => exact .arrayStore
  | dup => exact .dup
  | pop => exact .pop
  | leave => exact .leave
  | boxReference reference => exact .boxReference reference
  | box wraps decoded named => exact .box wraps decoded (extends_.memberAt? named)
  | unboxObject => exact .unboxObject
  | unboxReference reference other named =>
    exact .unboxReference reference other (extends_.classNameAt? named)
  | unbox through cast decoded named =>
    exact .unbox through (extends_.classNameAt? cast) decoded (extends_.memberAt? named)

end Step

namespace Listing

variable {d : MethodDescriptor} {isStatic : Bool} {p q : Pool} {is : List Instruction}

def Means (d : MethodDescriptor) (isStatic : Bool) (p : Pool) :
    Listing → List Instruction → Prop
  | [], is => is = []
  | step :: rest, is => ∃ new others, step.Means d isStatic p new ∧ Means d isStatic p rest others ∧
    is = new ++ others

theorem Means.append {steps more : Listing} (means : (steps ++ more).Means d isStatic p is) :
    ∃ first last, steps.Means d isStatic p first ∧ more.Means d isStatic p last ∧
      is = first ++ last := by
  induction steps generalizing is with
  | nil => exact ⟨[], is, rfl, means, rfl⟩
  | cons step rest ih =>
    obtain ⟨new, others, here, behind, rfl⟩ := means
    obtain ⟨first, last, left, right, rfl⟩ := ih behind
    exact ⟨new ++ first, last, ⟨new, first, here, left, rfl⟩, right, by rw [List.append_assoc]⟩

theorem Means.mono {steps : Listing} (means : steps.Means d isStatic p is)
    (extends_ : q.Extends p) : steps.Means d isStatic q is := by
  induction steps generalizing is with
  | nil => exact means
  | cons step rest ih =>
    obtain ⟨new, others, here, behind, rfl⟩ := means
    exact ⟨new, others, here.mono extends_, ih behind, rfl⟩

end Listing

namespace Assembly

open Discipline

variable {a : Assembly} {step : Step}

def Adds (b : Body) (step : Step) (b' : Body) : Prop :=
  ∃ new, step.Means b.descriptor b.isStatic b'.pool new ∧ b.Emits b' new

theorem ensures_plain (plain : step.isPlain = true) :
    assembling.Ensures (perform step) a (fun _ a' => Adds a.body step a'.body) := by
  cases step with
  | refuse reason => exact Ensures.throw _
  | pushNull =>
    exact (ensures_nothing Body.ensures_pushNull).mono fun _ _ _ _ given => ⟨_, .pushNull, given.2⟩
  | push l =>
    refine (ensures_nothing (Body.ensures_pushLiteral l)).mono fun _ _ _ _ given => ?_
    obtain ⟨o, loads, emitted⟩ := given
    exact ⟨_, .push loads, emitted⟩
  | loadThis =>
    refine (ensures_nothing Body.ensures_loadThis).mono fun _ _ _ _ given => ?_
    obtain ⟨bound, -, emitted⟩ := given
    exact ⟨_, .loadThis bound, emitted⟩
  | loadParam i =>
    refine (ensures_nothing (Body.ensures_loadParam i)).mono fun _ _ _ _ given => ?_
    obtain ⟨t, slot, param, place, -, emitted⟩ := given
    exact ⟨_, .loadParam param place, emitted⟩
  | field access owner name t =>
    refine (ensures_nothing (Body.ensures_field access owner name t)).mono fun _ _ _ _ given => ?_
    obtain ⟨i, named, emitted⟩ := given
    exact ⟨_, .field named, emitted⟩
  | invoke kind owner name descriptor =>
    refine (ensures_nothing (Body.ensures_invoke kind owner name descriptor)).mono
      fun _ _ _ _ given => ?_
    obtain ⟨d, i, decoded, named, emitted⟩ := given
    exact ⟨_, .invoke decoded named, emitted⟩
  | invokeInterface owner name descriptor =>
    refine (ensures_nothing (Body.ensures_invokeInterface owner name descriptor)).mono
      fun _ _ _ _ given => ?_
    obtain ⟨d, i, count, decoded, named, emitted⟩ := given
    exact ⟨_, .invokeInterface decoded named, emitted⟩
  | newArray component =>
    refine (ensures_nothing (Body.ensures_newArray component)).mono fun _ _ _ _ given => ?_
    obtain ⟨o, emitted, made⟩ := given
    cases component with
    | object name =>
      obtain ⟨i, rfl, named⟩ := made
      exact ⟨_, .newArray rfl named, emitted⟩
    | array c =>
      obtain ⟨i, rfl, named⟩ := made
      exact ⟨_, .newArray rfl named, emitted⟩
    | _ => cases plain
  | arrayStore component =>
    exact (ensures_nothing (Body.ensures_emit _ _ _)).mono fun _ _ _ _ given =>
      ⟨_, .arrayStore, given.2⟩
  | dup =>
    exact (ensures_nothing (Body.ensures_emit _ _ _)).mono fun _ _ _ _ given => ⟨_, .dup, given.2⟩
  | pop =>
    exact (ensures_nothing (Body.ensures_emit _ _ _)).mono fun _ _ _ _ given => ⟨_, .pop, given.2⟩
  | leave =>
    exact (ensures_nothing Body.ensures_leave).mono fun _ _ _ _ given => ⟨_, .leave, given.2⟩
  | box t =>
    refine (ensures_nothing (Body.ensures_box t)).mono fun _ _ _ _ given => ?_
    split at given
    · rename_i wraps
      obtain ⟨d, i, decoded, named, emitted⟩ := given
      exact ⟨_, .box wraps decoded named, emitted⟩
    · rename_i reference
      exact ⟨_, .boxReference reference, given⟩
  | unbox t =>
    refine (ensures_nothing (Body.ensures_unbox t)).mono fun _ _ _ _ given => ?_
    split at given
    · rename_i through
      obtain ⟨i, d, j, cast, decoded, named, emitted⟩ := given
      exact ⟨_, .unbox through cast decoded named, emitted⟩
    · rename_i reference
      split at given
      · rename_i same
        subst same
        exact ⟨_, .unboxObject, given⟩
      · rename_i other
        obtain ⟨i, named, emitted⟩ := given
        exact ⟨_, .unboxReference reference other named, emitted⟩
  | _ => cases plain

theorem runStep_of_isPlain (plain : step.isPlain = true) : runStep step = runSingle step := by
  cases step with
  | «repeat» n steps => cases plain
  | attempt steps => cases plain
  | _ => rfl

theorem ensures_runPlain {steps : Listing} (plain : ∀ step ∈ steps, step.isPlain = true) :
    assembling.Ensures (runSteps steps) a (fun _ a' => ∃ is,
      steps.Means a.body.descriptor a.body.isStatic a'.body.pool is ∧ a.body.Emits a'.body is) := by
  induction steps generalizing a with
  | nil => exact Ensures.pure _ fun _ => ⟨[], rfl, .refl _⟩
  | cons step rest ih =>
    simp only [List.mem_cons, forall_eq_or_imp] at plain
    change assembling.Ensures (runStep step >>= fun _ => runSteps rest) a _
    refine (stepwise_assembling.runSingle _ (runStep_of_isPlain plain.1)
      (ensures_plain plain.1)).bind fun _ b _ moved first => ?_
    obtain ⟨new, means, emitted⟩ := first
    refine (ih plain.2).mono fun _ c _ moved' others => ?_
    obtain ⟨is, mean, emitted'⟩ := others
    rw [moved.descriptor, moved.isStatic] at mean
    exact ⟨new ++ is, ⟨new, is, means.mono moved'.pool, mean, rfl⟩, emitted.trans emitted'⟩

end Assembly

theorem Listing.run_plain {steps : Listing} {b b' : Body} {transcript : Transcript}
    (plain : ∀ step ∈ steps, step.isPlain = true) (sound : b.Sound)
    (ran : steps.run b = (.ok (), b', transcript)) :
    b.Later b' ∧ ∃ is, steps.Means b.descriptor b.isStatic b'.pool is ∧ b.Emits b' is := by
  let start : Assembly := { body := b }
  have outcome := (Assembly.ensures_runPlain (a := start) plain).outcome sound
  unfold Listing.run at ran
  cases h : Assembly.runSteps steps start with
  | ok u a =>
    rw [h] at outcome ran
    cases ran
    exact ⟨outcome.2.1, outcome.2.2⟩
  | error e a =>
    rw [h] at ran
    cases ran

end ClassForge
