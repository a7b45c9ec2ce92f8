import ClassForge.Proofs.Proxy.Chains
import ClassForge.Proofs.Proxy.Constructors

namespace ClassForge

def Operation.special? {τ : Type} : Operation τ → Option Index
  | .invoke .special i => some i
  | _ => none

theorem Operation.special?_map {τ σ : Type} (f : τ → σ) (o : Operation τ) :
    (o.map f).special? = o.special? := by
  cases o with
  | invoke kind i => cases kind <;> rfl
  | _ => rfl

def Step.special? : Step → Option MemberRef
  | .invoke .special o n t => some ⟨Pool.internalName o, n, t⟩
  | _ => none

variable {d : MethodDescriptor} {isStatic : Bool} {p q : Pool} {is : List Instruction}

def Specials (p : Pool) (is : List Instruction) (refs : List MemberRef) : Prop :=
  List.Forall₂ (fun i ref => p.memberAt? i = some ref)
    (is.filterMap fun i => i.operation.special?) refs

theorem Step.Means.specials {step : Step} (means : step.Means d isStatic p is) :
    Specials p is step.special?.toList := by
  cases means with
  | @push _ o loads =>
    cases o with
    | invoke => cases loads
    | _ => exact .nil
  | @invoke kind _ _ _ _ i decoded named =>
    cases kind with
    | special => exact .cons named .nil
    | virtual | static => exact .nil
  | _ => exact .nil

theorem Step.Means.follows {step : Step} (means : step.Means d isStatic p is)
    (other : step ≠ .leave) :
    ∀ i ∈ is, i.operation.target? = none ∧ i.operation.fallsThrough = true := by
  cases means with
  | leave => exact absurd rfl other
  | push loads => exact List.forall_mem_singleton.2 (Operation.straight_of_loaded? loads)
  | boxReference | unboxObject => exact nofun
  | _ => simp [Operation.target?, Operation.fallsThrough]

theorem Step.Means.straight {step : Step} (means : step.Means d isStatic p is) :
    ∀ i ∈ is, i.operation.target? = none := by
  by_cases last : step = .leave
  · subst last
    cases means with
    | leave => exact List.forall_mem_singleton.2 rfl
  · exact fun i inside => (means.follows last i inside).1

namespace Listing

theorem Means.specials {steps : Listing} (means : steps.Means d isStatic p is) :
    Specials p is (steps.filterMap Step.special?) := by
  induction steps generalizing is with
  | nil =>
    cases means
    exact .nil
  | cons step rest ih =>
    obtain ⟨new, others, here, behind, rfl⟩ := means
    have first := here.specials
    rw [Specials, List.filterMap_append]
    cases called : step.special? with
    | none =>
      rw [called] at first
      rw [List.filterMap_cons_none called]
      exact List.rel_append first (ih behind)
    | some ref =>
      rw [called] at first
      rw [List.filterMap_cons_some called]
      exact List.rel_append first (ih behind)

theorem Means.follows {steps : Listing} (means : steps.Means d isStatic p is)
    (others : ∀ step ∈ steps, step ≠ .leave) :
    ∀ i ∈ is, i.operation.target? = none ∧ i.operation.fallsThrough = true := by
  induction steps generalizing is with
  | nil =>
    cases means
    exact nofun
  | cons step rest ih =>
    obtain ⟨new, others', here, behind, rfl⟩ := means
    simp only [List.mem_cons, forall_eq_or_imp] at others
    rw [List.forall_mem_append]
    exact ⟨here.follows others.1, ih behind others.2⟩

theorem Means.straight {steps : Listing} (means : steps.Means d isStatic p is) :
    ∀ i ∈ is, i.operation.target? = none := by
  induction steps generalizing is with
  | nil =>
    cases means
    exact nofun
  | cons step rest ih =>
    obtain ⟨new, others, here, behind, rfl⟩ := means
    rw [List.forall_mem_append]
    exact ⟨here.straight, ih behind⟩

end Listing

namespace ProxySpec

variable {s : ProxySpec} {all : List (String × ConstructorSpec)} {c : ConstructorSpec}

def constructorCall (s : ProxySpec) (c : ConstructorSpec) : MemberRef :=
  match c.kind with
  | .forwarding superParams _ =>
    ⟨Pool.internalName s.superName, constructorName, constructorDescriptor superParams⟩
  | .delegating _ target _ =>
    ⟨Pool.internalName s.name, constructorName, constructorDescriptor (s.declaredParams target)⟩

/-- Steps that neither call a constructor nor end the method. -/
def Silent (steps : Listing) : Prop := ∀ step ∈ steps, step.special? = none ∧ step ≠ .leave

theorem Silent.nil : Silent [] := List.forall_mem_nil _

theorem Silent.append {steps more : Listing} (first : Silent steps) (second : Silent more) :
    Silent (steps ++ more) := List.forall_mem_append.2 ⟨first, second⟩

theorem silent_storeParam (field : String) (type : FieldType) (position : Nat) :
    Silent (s.storeParam field type position) := by
  simp [Silent, storeParam, Step.special?]

theorem silent_storeHandler : Silent s.storeHandler := by
  unfold storeHandler
  cases s.handler with
  | none => exact .nil
  | some c => exact silent_storeParam _ _ _

theorem silent_storeCaptures (position : Nat) (captures : List String) :
    Silent (s.storeCaptures position captures) := by
  induction captures generalizing position with
  | nil => exact .nil
  | cons name captures ih =>
    refine Silent.append ?_ (ih _)
    unfold storeCapture
    cases s.captureType? name with
    | none => simp [Silent, Step.special?]
    | some t => exact silent_storeParam _ _ _

theorem silent_pushArguments (params : List FieldType) (arguments : List (Argument × FieldType)) :
    Silent (arguments.map fun x => s.pushArgument params x.1 x.2) := by
  refine List.forall_mem_map.2 fun x _ => ?_
  unfold pushArgument
  dsimp only
  split
  · split
    · split <;> simp [Step.special?]
    · simp [Step.special?]
  · split <;> simp [Step.special?]
  · split <;> simp [Step.special?]

theorem constructorBody_calls (c : ConstructorSpec) :
    (∃ reason, s.constructorBody c = [.refuse reason]) ∨ ∃ first owner descriptor last,
      s.constructorBody c =
        first ++ [.invoke .special owner constructorName descriptor] ++ last ++ [.leave] ∧
      Silent first ∧ Silent last ∧
      s.constructorCall c = ⟨Pool.internalName owner, constructorName, descriptor⟩ := by
  unfold constructorBody constructorCall
  cases c.kind with
  | forwarding superParams captures =>
    refine .inr ⟨[.loadThis] ++ (List.range superParams.length).map
      (fun i => .loadParam (s.handlerParams + i)), _, _, s.storeHandler ++ s.storeCaptures
        (s.handlerParams + superParams.length) captures, ?_, ?_, ?_, rfl⟩
    · simp only [forwardingBody, List.append_assoc]
    · simp [Silent, Step.special?]
    · exact silent_storeHandler.append (silent_storeCaptures _ _)
  | delegating params target arguments =>
    dsimp only
    unfold delegatingBody
    split
    · exact .inl ⟨_, rfl⟩
    · refine .inr ⟨[.loadThis] ++ (if s.handler.isSome then [.loadParam 0] else []) ++
        (arguments.zip target).map (fun x => s.pushArgument params x.1 x.2), _, _, [], ?_, ?_,
        .nil, rfl⟩
      · simp only [List.append_assoc]
        rfl
      · refine Silent.append ?_ (silent_pushArguments params _)
        split <;> simp [Silent, Step.special?]

end ProxySpec

theorem MethodHead.Written.sweeps {h : MethodHead} {steps : Listing} {m : Member}
    (written : h.Written steps p m) (plain : ∀ step ∈ steps, step.isPlain = true) :
    ∃ code d is, m.code? = some code ∧ code.handlers = [] ∧ steps.Means d h.isStatic p is ∧
      Operation.Sweeps code.bytes.toArray 0 (is.map fun i => i.operation.map fun _ => none) := by
  obtain ⟨code, made, coded⟩ := written
  obtain ⟨before, b', sound, ⟨b, transcript, started, ran, finish⟩, within⟩ := coded.body
  obtain ⟨-, is, means, emits⟩ := Listing.run_plain plain (started.sound sound) ran
  obtain ⟨s', -, finished⟩ := Body.finished_of_eq_ok finish
  have emitted : b'.emitted = is := by
    rw [Body.emitted, emits.items, started.items]
    simp [Item.emitted, Item.instruction?, List.filterMap_map, Function.comp_def]
  have sweeps := finished.sweeps (emitted ▸ means.straight)
  rw [emitted] at sweeps
  rw [started.isStatic] at means
  refine ⟨code, _, is, ?_, ?_, means.mono within, sweeps⟩
  · obtain ⟨rest, attributes, -⟩ := made.attributes
    rw [Member.code?, attributes]
    rfl
  · obtain ⟨l, handlers, -, -, same, guards⟩ := finished.handlers
    rw [emits.protections, started.protections] at guards
    cases guards
    exact same

/-- The method has code that goes from its first instruction to a return at its end, whatever the
instructions find, and with one special call on the way. -/
def Member.CallsOnce (p : Pool) (m : Member) (ref : MemberRef) : Prop :=
  ∃ code os k i, m.code? = some code ∧ code.handlers = [] ∧
    Operation.Sweeps code.bytes.toArray 0 (os ++ [.leave k]) ∧
    (∀ o ∈ os, o.target? = none ∧ o.fallsThrough = true) ∧
    os.filterMap Operation.special? = [i] ∧ p.memberAt? i = some ref

namespace ProxySpec

variable {s : ProxySpec} {all : List (String × ConstructorSpec)} {c : ConstructorSpec}

theorem calls_of_means (means : (s.constructorBody c).Means d isStatic p is) :
    ∃ js k pops i, is = js ++ [⟨.leave k, pops, 0⟩] ∧
      (∀ j ∈ js, j.operation.target? = none ∧ j.operation.fallsThrough = true) ∧
      js.filterMap (fun j => j.operation.special?) = [i] ∧
      p.memberAt? i = some (s.constructorCall c) := by
  rcases constructorBody_calls (s := s) c with
    ⟨reason, same⟩ | ⟨first, owner, descriptor, last, same, silent, silent', called⟩
  · rw [same] at means
    obtain ⟨_, _, refuses, -⟩ := means
    cases refuses
  · rw [same] at means
    obtain ⟨js, _, before, ⟨_, _, leaves, rfl, rfl⟩, rfl⟩ := means.append
    cases leaves with
    | leave =>
    have specials := before.specials
    have quiet {steps : Listing} (silent : Silent steps) :
        steps.filterMap Step.special? = [] :=
      List.filterMap_eq_nil_iff.2 fun step inside => (silent step inside).1
    rw [List.filterMap_append, List.filterMap_append, quiet silent, quiet silent'] at specials
    obtain ⟨i, _, named, rest, whole⟩ := List.forall₂_cons_right_iff.1 specials
    cases rest
    refine ⟨js, _, _, i, rfl, before.follows ?_, whole, called ▸ named⟩
    rw [List.forall_mem_append, List.forall_mem_append, List.forall_mem_singleton]
    exact ⟨⟨fun step inside => (silent step inside).2, nofun⟩,
      fun step inside => (silent' step inside).2⟩

theorem callsOnce_of_written {descriptor : String} {m : Member}
    (written : (s.constructorPlan descriptor c).1.Written (s.constructorPlan descriptor c).2 p m) :
    m.CallsOnce p (s.constructorCall c) := by
  obtain ⟨code, d, is, coded, handlers, means, sweeps⟩ := written.sweeps (plain_constructorBody c)
  obtain ⟨js, k, pops, i, rfl, follow, special, named⟩ := calls_of_means means
  rw [List.map_append] at sweeps
  refine ⟨code, _, k, i, coded, handlers, sweeps, ?_, ?_, named⟩
  · refine List.forall_mem_map.2 fun j inside => ?_
    obtain ⟨straight, falls⟩ := follow j inside
    rw [Operation.target?_map, straight, Operation.fallsThrough_map]
    exact ⟨rfl, falls⟩
  · rw [List.filterMap_map, ← special]
    exact List.filterMap_congr fun j _ => Operation.special?_map _ j.operation

end ProxySpec

namespace ClassFile

structure HasConstructor (file : ClassFile) (text : String) (m : Member) : Prop where
  inside : m ∈ file.methods
  name : m.name? file.pool = some constructorName
  descriptor : m.descriptor? file.pool = some text
  only : ∀ other ∈ file.methods, other.name? file.pool = some constructorName →
    other.descriptor? file.pool = some text → other = m

/-- The constructor calls one constructor: one of the superclass, or one of the class itself that
leads to one of the superclass. -/
inductive LeadsToSuper (file : ClassFile) (own superName : String) : Member → Prop where
  | last {m : Member} {descriptor : String}
    (calls : m.CallsOnce file.pool ⟨superName, constructorName, descriptor⟩) :
    LeadsToSuper file own superName m
  | on {m next : Member} {descriptor : String}
    (calls : m.CallsOnce file.pool ⟨own, constructorName, descriptor⟩)
    (has : file.HasConstructor descriptor next) (leads : LeadsToSuper file own superName next) :
    LeadsToSuper file own superName m

end ClassFile

namespace ProxySpec

variable {s : ProxySpec} {all : List (String × ConstructorSpec)} {c : ConstructorSpec}
  {builder : ClassBuilder} {file : ClassFile}

theorem Describes.map_methods (describes : s.Describes all builder) :
    builder.methods.toList.map (fun m => (m.name? builder.pool, m.descriptor? builder.pool)) =
      ((s.plans all).map fun plan => (plan.1.name, plan.1.descriptor)).map (Prod.map some some) := by
  rw [List.map_map]
  refine map_eq_of_forall₂ describes.methods fun plan m written => ?_
  obtain ⟨code, made, -⟩ := written
  rw [made.name, made.descriptor]
  rfl

theorem Describes.eq_of_same (describes : s.Describes all builder) {m m' : Member}
    (inside : m ∈ builder.methods.toList) (inside' : m' ∈ builder.methods.toList)
    (name : m.name? builder.pool = m'.name? builder.pool)
    (descriptor : m.descriptor? builder.pool = m'.descriptor? builder.pool) : m = m' := by
  have distinct := describes.distinct.map (f := Prod.map some some) fun x y same => by
    simpa [Prod.ext_iff] using same
  rw [← describes.map_methods] at distinct
  exact List.inj_on_of_nodup_map distinct inside inside' (Prod.ext name descriptor)

theorem Describes.exists_planned (describes : s.Describes all builder) {m : Member}
    (inside : m ∈ builder.methods.toList)
    (named : m.name? builder.pool = some constructorName) : ∃ x ∈ all,
      (s.constructorPlan x.1 x.2).1.Written (s.constructorPlan x.1 x.2).2 builder.pool m := by
  obtain ⟨plan, planned, written⟩ := exists_of_forall₂_right describes.methods m inside
  rw [plans, List.mem_append] at planned
  rcases planned with planned | planned
  · obtain ⟨x, known, rfl⟩ := List.mem_map.1 planned
    exact ⟨x, known, written⟩
  · obtain ⟨x, known, rfl⟩ := List.mem_map.1 planned
    obtain ⟨code, made, -⟩ := written
    have same := made.name.symm.trans named
    exact absurd (Option.some.inj same) (describes.admits x known).name

theorem Describes.hasConstructor (describes : s.Describes all builder)
    (makes : builder.Makes file) {descriptor : String} (known : (descriptor, c) ∈ all) :
    ∃ m, file.HasConstructor descriptor m ∧
      (s.constructorPlan descriptor c).1.Written (s.constructorPlan descriptor c).2 builder.pool m := by
  have planned : s.constructorPlan descriptor c ∈ s.plans all :=
    List.mem_append_left _ (List.mem_map_of_mem known)
  obtain ⟨m, inside, written⟩ := exists_of_forall₂ describes.methods _ planned
  obtain ⟨code, made, coded⟩ := written
  refine ⟨m, ⟨makes.methods ▸ inside, makes.pool ▸ made.name, makes.pool ▸ made.descriptor, ?_⟩,
    code, made, coded⟩
  intro other inside' named typed
  rw [makes.pool] at named typed
  rw [makes.methods] at inside'
  exact describes.eq_of_same inside' inside (named.trans made.name.symm)
    (typed.trans made.descriptor.symm)

theorem Describes.leadsToSuper (describes : s.Describes all builder) (makes : builder.Makes file)
    {n : Nat} (ends : s.Ends all c n none) {descriptor : String} {m : Member}
    (written : (s.constructorPlan descriptor c).1.Written (s.constructorPlan descriptor c).2
      builder.pool m) :
    file.LeadsToSuper (Pool.internalName s.name) (Pool.internalName s.superName) m := by
  generalize reached : (none : Option String) = e at ends
  induction ends generalizing descriptor m with
  | forwards last =>
    have calls := callsOnce_of_written written
    obtain ⟨superParams, captures, forwards⟩ := target?_eq_none.1 last
    rw [constructorCall, forwards, ← makes.pool] at calls
    exact .last calls
  | missing => cases reached
  | on target found _ ih =>
    have calls := callsOnce_of_written written
    obtain ⟨params, target, arguments, delegates, rfl⟩ := target?_eq_some.1 target
    rw [constructorCall, delegates, ← makes.pool] at calls
    obtain ⟨next, has, written'⟩ := describes.hasConstructor makes (mem_of_lookup found)
    exact .on calls has (ih written' reached)

theorem leadsToSuper_of_generate {cache : DescriptorCache} {g : Generation}
    (generated : s.generate cache = (.ok file, g)) {m : Member} (inside : m ∈ file.methods)
    (named : m.name? file.pool = some constructorName) :
    file.LeadsToSuper (Pool.internalName s.name) (Pool.internalName s.superName) m := by
  obtain ⟨all, describes, -, makes⟩ := describes_of_generate generated
  rw [makes.methods] at inside
  rw [makes.pool] at named
  obtain ⟨x, known, written⟩ := describes.exists_planned inside named
  obtain ⟨n, ends⟩ := ends_of_constructs describes.constructs known
  exact describes.leadsToSuper makes ends written

/-- Delegation is accepted where it is well-founded. Constructors that can be resolved and have
signatures of their own are checked with at most one lookup each, and the check from every one of
them tells how its chain of calls goes. So the constructors of a class that is generated lead to one
of the superclass. -/
theorem delegation_well_founded (s : ProxySpec) {cs : List ConstructorSpec}
    {types : List (List FieldType)} (resolved : cs.mapM s.constructorParams = .ok types)
    (distinct : (types.map constructorDescriptor).Nodup) :
    let all := (types.map constructorDescriptor).zip cs
    let check x := Generation.checkDelegation s all [] x.1 x.2 all.length
    Generation.signatures s [] cs = .ok all ∧ all.length = cs.length ∧
      ((∀ x ∈ all, check x = .ok ()) ↔ ∀ x ∈ all, s.target? x.2 ≠ none → s.Reaches all x) ∧
      (∀ x ∈ all, s.Checked all x (check x)) ∧
      ∀ cache file g, s.generate cache = (.ok file, g) → ∀ m ∈ file.methods,
        m.name? file.pool = some constructorName →
        file.LeadsToSuper (Pool.internalName s.name) (Pool.internalName s.superName) m := by
  intro all check
  have count : types.length = cs.length := Outcome.length_of_mapM_eq_ok resolved
  have keys : all.map (·.1) = types.map constructorDescriptor := by
    rw [List.map_fst_zip]
    rw [List.length_map, count]
  have checks : ∀ x ∈ all, s.Checked all x (check x) := fun x inside =>
    checked (keys ▸ distinct) inside
  refine ⟨signatures_eq resolved distinct, ?_, ?_, checks, ?_⟩
  · rw [List.length_zip, List.length_map, count, Nat.min_self]
  · constructor
    · exact fun accepted x inside _ => (checks x inside).reaches.1 (accepted x inside)
    · intro reach x inside
      refine (checks x inside).reaches.2 ?_
      by_cases last : s.target? x.2 = none
      · exact ⟨[], x, .start, last⟩
      · exact reach x inside last
  · exact fun cache file g generated m inside named =>
      leadsToSuper_of_generate generated inside named

/-- Two constructors that lead to a third. -/
def converging : ProxySpec where
  name := "pair"
  captures := [("x", .int)]
  constructors := [⟨.delegating [] [.int] [.literal (.int 7)], Access.publicFlag⟩,
    ⟨.delegating [.int, .int] [.int] [.parameter 1], Access.publicFlag⟩,
    ⟨.forwarding [] ["x"], Access.publicFlag⟩]

theorem delegation_well_founded_converging :
    let astray : List ConstructorSpec :=
      [⟨.delegating [.char] [.long] [], Access.publicFlag⟩,
        ⟨.delegating [.long] [.float] [], Access.publicFlag⟩,
        ⟨.delegating [.float] [.long] [], Access.publicFlag⟩,
        ⟨.delegating [.byte] [.short] [], Access.publicFlag⟩]
    ∃ all, Generation.signatures converging [] (converging.constructors ++ astray) = .ok all ∧
      (∃ x ∈ all, x.1 = "()V" ∧ converging.Reaches all x) ∧
      (∃ x ∈ all, x.1 = "(C)V" ∧ converging.Loops all x "(J)V") ∧
      (∃ x ∈ all, x.1 = "(B)V" ∧ converging.Misses all x "(S)V") ∧
      ∃ file g, converging.generate {} = (.ok file, g) ∧ file.methods.length = 3 ∧
        ∀ m ∈ file.methods, m.name? file.pool = some constructorName →
          file.LeadsToSuper "pair" objectClass m := by
  intro astray
  have resolved : (converging.constructors ++ astray).mapM converging.constructorParams =
      .ok [[], [.int, .int], [.int], [.char], [.long], [.float], [.byte]] := rfl
  obtain ⟨signed, -, -, checks, leads⟩ :=
    delegation_well_founded converging resolved (by decide)
  let all := (constructorDescriptor <$> [[], [.int, .int], [.int], [.char], [.long], [.float],
    [.byte]]).zip (converging.constructors ++ astray)
  have inside (i : Nat) (h : i < all.length) : all[i] ∈ all := List.getElem_mem h
  obtain ⟨file, generates, count⟩ := Outcome.exists_of_any (x := (converging.generate {}).1)
    (p := fun file => file.methods.length = 3) (by decide +kernel)
  refine ⟨all, signed, ⟨_, inside 0 (by decide), rfl, ?_⟩, ⟨_, inside 3 (by decide), rfl, ?_⟩,
    ⟨_, inside 6 (by decide), rfl, ?_⟩, file, _, Prod.ext generates rfl, by simpa using count,
    fun m => leads {} file _ (Prod.ext generates rfl) m⟩
  · exact (checks _ (inside 0 _)).reaches.1 rfl
  · exact (checks _ (inside 3 _)).loopsTo "(J)V" rfl
  · exact ((checks _ (inside 6 _)).misses "(S)V").1 rfl

end ProxySpec
end ClassForge
