import ClassForge.Proofs.Proxy.Chains
import ClassForge.Proofs.Proxy.Constructors

namespace ClassForge.ProxySpec

open Activation Object

variable {s : ProxySpec} {all : List (String × ConstructorSpec)} {k : LoadedClass}
  {c : ConstructorSpec} {types params target : List FieldType} {a : Activation} {m : Machine}
  {r : Address} {args : List Value} {is : List Instruction} {own passed : List Supply}

/-- A constructor that is supplied with something for each of its parameters, the handler not
counted, leads to a forwarding one, which is then supplied with what was passed on to it. -/
inductive Leads (s : ProxySpec) :
    ConstructorSpec → List Supply → ConstructorSpec → List Supply → Prop where
  | here {c : ConstructorSpec} {own : List Supply} {superParams : List FieldType}
    {captures : List String} (forwards : c.kind = .forwarding superParams captures) :
    Leads s c own c own
  | on {c next final : ConstructorSpec} {own passed last : List Supply}
    {params target types : List FieldType} {arguments : List Argument}
    (delegates : c.kind = .delegating params target arguments)
    (member : next ∈ Generation.constructorsOf s) (typed : s.constructorParams next = .ok types)
    (called : constructorDescriptor types = constructorDescriptor (s.declaredParams target))
    (passes : arguments.mapM (Argument.supply? own) = some passed)
    (leads : Leads s next passed final last) : Leads s c own final last

inductive Arrives (s : ProxySpec) (all : List (String × ConstructorSpec)) : ConstructorSpec → Prop where
  | here {c : ConstructorSpec} {superParams : List FieldType} {captures : List String}
    (forwards : c.kind = .forwarding superParams captures) : Arrives s all c
  | on {c next : ConstructorSpec} {params target : List FieldType} {arguments : List Argument}
    (delegates : c.kind = .delegating params target arguments)
    (inside : (constructorDescriptor (s.declaredParams target), next) ∈ all)
    (arrives : Arrives s all next) : Arrives s all c

theorem Ends.arrives {n : Nat} (ends : s.Ends all c n none) : s.Arrives all c := by
  generalize reached : (none : Option String) = e at ends
  induction ends with
  | forwards last =>
    obtain ⟨superParams, captures, forwards⟩ := target?_eq_none.1 last
    exact .here forwards
  | missing => cases reached
  | on calls found _ ih =>
    obtain ⟨params, target, arguments, delegates, rfl⟩ := target?_eq_some.1 calls
    exact .on delegates (mem_of_lookup found) (ih reached)

theorem Loaded.arrives (loaded : s.Loaded all k) {descriptor : String}
    (inside : (descriptor, c) ∈ all) : s.Arrives all c := by
  obtain ⟨n, ends⟩ := ends_of_constructs loaded.constructs inside
  exact ends.arrives

theorem plays_passHandler (means : Listing.Means ⟨s.declaredParams params, none⟩ false a.owner.pool
      (if s.handler.isSome then [.loadParam 0] else []) is)
    (given : a.Given (.reference r) args) (suit : Value.Suit (s.declaredParams params) args)
    (stack : List Value) :
    a.Plays is stack m ((args.take s.handlerParams).reverse ++ stack) m := by
  unfold handlerParams
  cases handler : s.handler with
  | none =>
    rw [handler] at means
    cases means
    exact .nil
  | some c =>
    rw [handler] at means
    obtain ⟨_, _, loads, rfl, rfl⟩ := means
    cases loads with
    | @loadParam _ t slot param place =>
    have kinds := suit
    rw [declaredParams, handler] at kinds param
    cases kinds with
    | @cons _ v _ rest kind _ =>
    cases param
    have held := given.param suit (i := 0) rfl
    rw [show 1 = Body.receiverSlots false from rfl, ← place] at held
    exact plays_load held (Value.slots_of_kind kind)

theorem suit_declaredParams {ws : List Value} (suit : Value.Suit (s.declaredParams params) args)
    (others : Value.Suit target ws) :
    Value.Suit (s.declaredParams target) (args.take s.handlerParams ++ ws) := by
  unfold declaredParams at suit ⊢
  unfold handlerParams
  cases handler : s.handler with
  | none => exact others
  | some c =>
    rw [handler] at suit
    cases suit with
    | cons kind _ => exact .cons kind others

theorem length_handlers (suit : Value.Suit (s.declaredParams params) args) :
    (args.take s.handlerParams).length = s.handlerParams := by
  unfold declaredParams at suit
  unfold handlerParams
  cases handler : s.handler with
  | none => rfl
  | some c =>
    rw [handler] at suit
    cases suit
    rfl

theorem length_of_means {arguments : List Argument} {d : MethodDescriptor} {p : Pool}
    (means : (s.delegatingBody params target arguments).Means d false p is) :
    arguments.length = target.length := by
  by_contra other
  rw [delegatingBody, if_pos other] at means
  obtain ⟨_, _, refuses, -⟩ := means
  cases refuses

theorem exists_passed {arguments : List Argument} {d : MethodDescriptor} {p : Pool} {h : Heap}
    (means : (s.delegatingBody params target arguments).Means d false p is)
    (suit : Value.Suit (s.declaredParams params) args)
    (holds : List.Forall₂ (Supply.Holds h) own (args.drop s.handlerParams)) :
    ∃ passed, arguments.mapM (Argument.supply? own) = some passed := by
  have count := length_of_means means
  rw [delegatingBody, if_neg (not_not.2 count)] at means
  simp only [List.append_assoc, List.singleton_append] at means
  obtain ⟨_, _, -, behind, rfl⟩ := means
  obtain ⟨_, _, -, left, rfl⟩ := Listing.Means.append behind
  obtain ⟨_, _, pushes, -, rfl⟩ := Listing.Means.append left
  refine exists_supplies pushes count ?_
  rw [holds.length_eq, List.length_drop, ← suit.length_eq, ← List.length_drop, drop_declaredParams]

theorem plays_delegatingBody {arguments : List Argument}
    (means : (s.delegatingBody params target arguments).Means ⟨s.declaredParams params, none⟩ false
      a.owner.pool is)
    (given : a.Given (.reference r) args) (suit : Value.Suit (s.declaredParams params) args)
    (holds : List.Forall₂ (Supply.Holds m.heap) own (args.drop s.handlerParams))
    (passes : arguments.mapM (Argument.supply? own) = some passed)
    (readable : ∀ t ∈ types, t.Readable)
    (called : constructorDescriptor types = constructorDescriptor (s.declaredParams target)) :
    ∃ js i ws m₁, is = js ++ [⟨.invoke .special i, 1 + FieldType.totalSlots types, 0⟩] ++
        [⟨.leave none, 0, 0⟩] ∧
      a.owner.pool.memberAt? i =
        some ⟨Pool.internalName s.name, constructorName, constructorDescriptor types⟩ ∧
      a.Plays js [] m ((.reference r :: (args.take s.handlerParams ++ ws)).reverse ++ []) m₁ ∧
      m.Expands m₁ ∧ List.Forall₂ (Supply.Holds m₁.heap) passed ws ∧
      Value.Suit (s.declaredParams target) (args.take s.handlerParams ++ ws) := by
  have count := length_of_means means
  rw [delegatingBody, if_neg (not_not.2 count)] at means
  simp only [List.append_assoc, List.singleton_append] at means
  obtain ⟨_, _, receives, behind, rfl⟩ := means
  obtain ⟨hands, _, passesOn, left, rfl⟩ := Listing.Means.append behind
  obtain ⟨pushed, _, pushes, calls, rfl⟩ := Listing.Means.append left
  obtain ⟨_, _, invokes, ⟨_, _, leaves, rfl, rfl⟩, rfl⟩ := calls
  cases receives with
  | loadThis =>
  cases leaves with
  | leave =>
  cases invokes with
  | @invoke _ _ _ _ d' i decoded named =>
  rw [← called] at decoded named
  have known : MethodDescriptor.decode? (constructorDescriptor types) = some ⟨types, none⟩ :=
    MethodDescriptor.decode?_descriptor readable nofun
  rw [known, Option.some.injEq] at decoded
  subst decoded
  obtain ⟨ws, m₁, pushing, expands, held, kinds⟩ := plays_pushArguments pushes given suit rfl holds
    count passes ((args.take s.handlerParams).reverse ++ [.reference r])
  have opening := (plays_passHandler passesOn given suit [.reference r]).append pushing
  refine ⟨[⟨.load .reference 0, 0, 1⟩] ++ (hands ++ pushed), i, ws, m₁, ?_, named, ?_, expands, held,
    suit_declaredParams suit kinds⟩
  · simp only [List.append_assoc]
    rfl
  · rw [List.append_nil, List.reverse_cons, List.reverse_append, List.append_assoc]
    exact (plays_load given.this given.receiver).append opening

/-- A delegating constructor ends as the one that it calls. What it passes on takes the slots that
are declared there, so its types are those that are declared there. -/
theorem settles_delegatingBody {arguments : List Argument} (spelled : s.Spelled)
    (loaded : s.Loaded all k) (owner : a.owner = k)
    (means : (s.delegatingBody params target arguments).Means ⟨s.declaredParams params, none⟩ false
      k.pool is)
    (runs : a.Runs is) (given : a.Given (.reference r) args)
    (suit : Value.Suit (s.declaredParams params) args)
    (holds : List.Forall₂ (Supply.Holds m.heap) own (args.drop s.handlerParams))
    (passes : arguments.mapM (Argument.supply? own) = some passed)
    (readable : ∀ t ∈ types, t.Readable)
    (called : constructorDescriptor types = constructorDescriptor (s.declaredParams target))
    (present : m.classes[Pool.internalName s.name]? = some k) :
    ∃ ws m₁, m.Expands m₁ ∧ List.Forall₂ (Supply.Holds m₁.heap) passed ws ∧
      Value.Suit types (args.take s.handlerParams ++ ws) ∧ ∀ m₂,
        k.Initializes (constructorDescriptor types) r (args.take s.handlerParams ++ ws) m₁ m₂ →
          a.Settles m (.ok none m₂) := by
  subst owner
  obtain ⟨js, i, ws, m₁, rfl, named, opening, expands, held, whole⟩ :=
    plays_delegatingBody means given suit holds passes readable called
  have known : MethodDescriptor.decode? (constructorDescriptor types) = some ⟨types, none⟩ :=
    MethodDescriptor.decode?_descriptor readable nofun
  have enough := runs.enough ⟨_, rfl⟩ opening
  have same : s.declaredParams target = types := by
    obtain ⟨le, equal⟩ := FieldType.declared_of_called readable called
    refine equal (Nat.le_antisymm le ?_)
    rw [List.append_nil, Value.totalSlots_reverse, Value.totalSlots_cons,
      Value.totalSlots_of_suit whole] at enough
    exact Nat.le_of_add_le_add_left enough
  rw [same] at whole
  refine ⟨ws, m₁.remembering (constructorDescriptor types),
    expands.trans (m₁.expands_remembering _), held, whole, fun m₂ initializes => ?_⟩
  obtain ⟨method, callee, m₃, declared, entered, settles⟩ := initializes
  have there : (m₁.remembering (constructorDescriptor types)).classes[Pool.internalName s.name]? =
      some a.owner := expands.classes ▸ present
  have dispatched := (Dispatch.special_constructor (r := r) loaded.other spelled.ordinary there
    declared).trans entered
  have slots : Value.totalSlots (.reference r :: (args.take s.handlerParams ++ ws)) =
      1 + FieldType.totalSlots types := by
    rw [Value.totalSlots_cons, Value.totalSlots_of_suit whole, Value.slots_reference]
  have calls : a.Plays [_] (_ ++ []) m₁ [] m₂ := plays_entered _ (isCall_invoke .special i) named
    known (congrArg (· + 1) whole.length_eq.symm) slots rfl dispatched settles
  refine runs.settles ?_
  rw [List.append_assoc]
  exact opening.ends (calls.ends (stops_leave.ends rfl []))

theorem Loaded.exists_leads (spelled : s.Spelled) (loaded : s.Loaded all k)
    (member : c ∈ Generation.constructorsOf s) (typed : s.constructorParams c = .ok types)
    (present : m.classes[Pool.internalName s.name]? = some k) (suit : Value.Suit types args)
    (holds : List.Forall₂ (Supply.Holds m.heap) own (args.drop s.handlerParams)) :
    ∃ final last, s.Leads c own final last := by
  have arrives := loaded.arrives (loaded.constructs.mem member typed)
  induction arrives generalizing types m args own with
  | here forwards => exact ⟨_, own, .here forwards⟩
  | @on c next params target arguments delegates inside _ ih =>
    obtain ⟨member₁, types₁, typed₁, called⟩ := loaded.constructs.exists_params inside
    cases types_of_delegating delegates typed
    obtain ⟨method, is, there, means, enters⟩ := loaded.exists_constructor member typed
      (loaded.readable_params spelled member typed)
    obtain ⟨a, owner, given, runs, -⟩ := enters (.reference ⟨0⟩) args rfl suit
    rw [constructorBody, delegates] at means
    obtain ⟨passed, passes⟩ := exists_passed means suit holds
    obtain ⟨ws, m₂, expands, held, suit₁, -⟩ := settles_delegatingBody spelled loaded
      owner means runs given suit holds passes (loaded.readable_params spelled member₁ typed₁)
      called.symm present
    have apart := length_handlers suit
    obtain ⟨final, last, leads⟩ := ih member₁ typed₁ (expands.classes ▸ present) suit₁
      (by rwa [List.drop_left' apart])
    exact ⟨final, last, .on delegates member₁ typed₁ called.symm passes leads⟩

theorem Leads.unique (constructs : Generation.Constructs s all) {final final' : ConstructorSpec}
    {last last' : List Supply} (leads : s.Leads c own final last)
    (leads' : s.Leads c own final' last') : final' = final ∧ last' = last := by
  induction leads with
  | here forwards =>
    cases leads' with
    | here => exact ⟨rfl, rfl⟩
    | on delegates =>
      rw [forwards] at delegates
      cases delegates
  | on delegates member typed called passes _ ih =>
    cases leads' with
    | here forwards =>
      rw [forwards] at delegates
      cases delegates
    | on delegates' member' typed' called' passes' leads' =>
      rw [delegates] at delegates'
      cases delegates'
      rw [passes] at passes'
      cases passes'
      have one := constructs.mem member typed
      have other := constructs.mem member' typed'
      rw [called] at one
      rw [called'] at other
      cases constructs.eq_of_mem one other
      exact ih leads'

theorem Leads.initializes (spelled : s.Spelled) (loaded : s.Loaded all k) {final : ConstructorSpec}
    {last : List Supply} (leads : s.Leads c own final last) {fields : Std.TreeMap String Value}
    (member : c ∈ Generation.constructorsOf s) (typed : s.constructorParams c = .ok types)
    (present : m.classes[Pool.internalName s.name]? = some k)
    (plain : m.heap.get r = .plain k fields)
    (declared : ∀ f ∈ s.fields, fields.contains f.1 = true) (suit : Value.Suit types args)
    (holds : List.Forall₂ (Supply.Holds m.heap) own (args.drop s.handlerParams)) :
    ∃ captures types' vs m', final.kind = .forwarding [] captures ∧
      s.constructorParams final = .ok types' ∧
      Value.Suit types' (args.take s.handlerParams ++ vs) ∧
      k.Initializes (constructorDescriptor types) r args m m' ∧
      Refills m m' r k (fill fields (s.filled captures) (args.take s.handlerParams ++ vs)) ∧
      List.Forall₂ (Supply.Holds m'.heap) last vs := by
  induction leads generalizing types m args with
  | @here c own superParams captures forwards =>
    cases spelled.bare c member _ _ forwards
    obtain ⟨captured, known, rfl⟩ := types_of_forwarding forwards typed
    have readable := loaded.readable_params spelled member typed
    obtain ⟨method, is, there, means, enters⟩ := loaded.exists_constructor member typed readable
    obtain ⟨a, rfl, given, runs, entered⟩ := enters (.reference r) args rfl suit
    rw [constructorBody, forwards] at means
    obtain ⟨m', ends, refills⟩ := ends_forwardingBody
      (m := m.noting (.calling a.owner.name method.name method.descriptor)) means spelled.superName
      known given suit plain declared
    refine ⟨captures, _, args.drop s.handlerParams, m', forwards, typed, ?_,
      ⟨method, a, _, there, entered m, runs.settles ends⟩, ?_, ?_⟩
    · rwa [List.take_append_drop]
    · rw [List.take_append_drop]
      exact refills.of_expands (m.expands_noting _)
    · exact holds.imp fun _ _ holds => holds.spares refills.heap fun text same => by
        rw [show _ = _ from plain] at same
        cases same
  | @on c next final own passed last params target types₁ arguments delegates member₁ typed₁ called
      passes _ ih =>
    cases types_of_delegating delegates typed
    obtain ⟨method, is, there, means, enters⟩ := loaded.exists_constructor member typed
      (loaded.readable_params spelled member typed)
    obtain ⟨a, owner, given, runs, entered⟩ := enters (.reference r) args rfl suit
    rw [constructorBody, delegates] at means
    let m₁ := m.noting (.calling k.name method.name method.descriptor)
    obtain ⟨ws, m₂, expands, held, suit₁, settles⟩ := settles_delegatingBody (m := m₁) spelled loaded
      owner means runs given suit holds passes (loaded.readable_params spelled member₁ typed₁) called
      present
    have apart := length_handlers suit
    obtain ⟨captures, types', vs, m', forwards, typed', suit', initializes, refills, held'⟩ :=
      ih member₁ typed₁ (expands.classes ▸ present)
        ((expands.heap.same r (Heap.lt_size_of_plain plain)).trans plain) suit₁
        (by rwa [List.drop_left' apart])
    rw [List.take_left' apart] at suit' refills
    exact ⟨captures, types', vs, m', forwards, typed', suit',
      ⟨method, a, m₁, there, entered m, settles m' initializes⟩,
      refills.of_expands ((m.expands_noting _).trans expands), held'⟩

end ClassForge.ProxySpec
