import ClassForge.Proofs.Machine.Handlers
import ClassForge.Proofs.Proxy.Fields
import ClassForge.Proofs.Proxy.Handled

namespace ClassForge

open Outcome

structure Machine.Creates (m : Machine) (k : LoadedClass) (descriptor : String) (args : List Value)
    (r : Address) (m' : Machine) (fields : Std.TreeMap String Value) : Prop where
  enough : ∃ enough, ∀ fuel, enough ≤ fuel →
    newInstance fuel k.name descriptor args m = .ok (.reference r) m'
  plain : m'.heap.get r = .plain k fields

namespace Machine

variable {m m' : Machine} {k : LoadedClass} {descriptor : String} {args : List Value}

theorem exists_newInstance (present : m.classes[k.name]? = some k)
    (initializes : k.Initializes descriptor ⟨m.heap.size⟩ args (m.adding (.ofClass k)) m') :
    ∃ enough, ∀ fuel, enough ≤ fuel →
      newInstance fuel k.name descriptor args m = .ok (.reference ⟨m.heap.size⟩) m' := by
  obtain ⟨method, a, m₁, declared, entered, enough, settles⟩ := initializes
  refine ⟨enough, fun fuel le => ?_⟩
  have ended : finish fuel (.entered a) m₁ = .ok none m' := settles fuel le
  rw [newInstance, bind_of_ok (resolve_eq present), declared]
  dsimp only
  rw [bind_of_ok (m.alloc_eq _), bind_of_ok entered, bind_of_ok ended]
  rfl

end Machine

theorem Value.kind_initial (t : FieldType) : (initial t).kind = .ofType t := by cases t <;> rfl

namespace ProxySpec

open Object

variable {s : ProxySpec} {all : List (String × ConstructorSpec)} {k : LoadedClass}
  {c final : ConstructorSpec} {types : List FieldType} {m : Machine} {args : List Value}
  {captures : List String}

/-- What the fields of an object hold that a forwarding constructor was called for. -/
structure Filled (s : ProxySpec) (captures : List String) (args : List Value)
    (fields : Std.TreeMap String Value) : Prop where
  handler : ∀ contract, s.handler = some contract →
    ∃ v rest, args = v :: rest ∧ fields[contract.field]? = some v
  /-- Of arguments for one capture the last is kept. -/
  captured : ∀ f ∈ s.captures, fields[f.1]? =
    some (((captures.zip (args.drop s.handlerParams)).reverse.lookup f.1).getD (.initial f.2))

theorem Loaded.not_mem_handlerField (loaded : s.Loaded all k) {f : String × FieldType}
    (inside : f ∈ s.captures) : f.1 ∉ s.handlerField.map (·.1) := by
  have apart := loaded.apart
  rw [ProxySpec.fields, List.map_append] at apart
  exact fun own => (List.nodup_append.1 apart).2.2 _ own _ (List.mem_map_of_mem inside) rfl

theorem lookup_zip_of_not_mem {names : List String} {vs : List Value} {name : String}
    (other : name ∉ names) : (names.zip vs).reverse.lookup name = none := by
  rw [List.lookup_eq_none_iff]
  intro p inside
  rw [bne_iff_ne]
  rintro rfl
  exact other (List.of_mem_zip (List.mem_reverse.1 inside)).1

theorem Loaded.filled (loaded : s.Loaded all k)
    (captured : List.Forall₂ (fun n t => s.captureType? n = some t) captures types)
    (suit : Value.Suit (s.declaredParams types) args) :
    s.Filled captures args (fill (blank k) (s.filled captures) args) where
  handler := by
    intro contract handler
    have own : s.handlerField = [(contract.field, contract.type)] := by rw [handlerField, handler]; rfl
    have other : contract.field ∉ captures := fun inside => by
      obtain ⟨t, -, known⟩ := exists_of_forall₂ captured _ inside
      refine loaded.not_mem_handlerField (mem_of_lookup known) ?_
      rw [own]
      exact List.mem_singleton_self _
    have kinds := suit
    rw [declaredParams, handler] at kinds
    cases kinds with
    | @cons _ v _ rest kind _ =>
    refine ⟨v, rest, rfl, ?_⟩
    rw [← fill_filled suit, getElem?_fill, lookup_zip_of_not_mem other, Option.none_or, own]
    exact Std.TreeMap.getElem?_insert_self
  captured := by
    intro f inside
    rw [← fill_filled suit, getElem?_fill, getElem?_fill,
      lookup_zip_of_not_mem (loaded.not_mem_handlerField inside), Option.none_or,
      loaded.getElem?_blank (List.mem_append_right _ inside), Option.or_some]

theorem kind_captured {vs : List Value} {name : String} {t : FieldType}
    (captured : List.Forall₂ (fun n t => s.captureType? n = some t) captures types)
    (suit : Value.Suit types vs) (known : s.captureType? name = some t) :
    (((captures.zip vs).reverse.lookup name).getD (.initial t)).kind = .ofType t := by
  have kinds : ∀ p ∈ captures.zip vs, ∀ t, s.captureType? p.1 = some t → p.2.kind = .ofType t := by
    induction captured generalizing vs with
    | nil => exact nofun
    | cons first _ ih =>
      cases suit with
      | cons kind others =>
      rw [List.zip_cons_cons, List.forall_mem_cons]
      refine ⟨fun t known => ?_, ih others⟩
      rw [first, Option.some.injEq] at known
      exact known ▸ kind
  cases found : (captures.zip vs).reverse.lookup name with
  | none => exact Value.kind_initial t
  | some v => exact kinds _ (List.mem_reverse.1 (mem_of_lookup found)) t known

theorem ends_returningBody {a : Activation} {d : MethodDescriptor} {is : List Instruction}
    {field : String} {t : FieldType} {r : Address} {fields : Std.TreeMap String Value} {v : Value}
    (means : (s.returningBody field t d).Means d false a.owner.pool is)
    (given : a.Given (.reference r) args) (plain : m.heap.get r = .plain k fields)
    (found : fields[field]? = some v) (kind : v.kind = .ofType t) :
    a.Ends is [] m (.ok (some v) m) := by
  unfold returningBody at means
  split at means
  · rename_i fits
    obtain ⟨t', returns, -⟩ := (Option.any_eq_true _ _).1 fits
    obtain ⟨_, _, receives, ⟨_, _, gets, leaves, rfl⟩, rfl⟩ := means
    cases receives with
    | loadThis =>
    exact (Activation.plays_load given.this given.receiver).ends
      ((Activation.plays_getField gets plain found (Value.slots_of_kind kind)).ends
        (Activation.ends_leave leaves returns))
  · obtain ⟨_, _, refuses, -⟩ := means
    cases refuses

/-- Methods that return fields give what the object at `r` holds in them. -/
def Returns (s : ProxySpec) (m : Machine) (r : Address) (fields : Std.TreeMap String Value) : Prop :=
  ∀ spec ∈ s.methods, ∀ field, spec.body = .returning field → ∃ v, fields[field]? = some v ∧
    ∀ d args, MethodDescriptor.decode? spec.descriptor = some d → Value.Suit d.params args →
      ∃ m' enough, m'.heap = m.heap ∧ ∀ fuel, enough ≤ fuel →
        Machine.invokeVirtual fuel (.reference r) spec.name spec.descriptor args m = .ok (some v) m'

theorem Loaded.returns (loaded : s.Loaded all k) {r : Address}
    {fields : Std.TreeMap String Value} (plain : m.heap.get r = .plain k fields)
    (holds : ∀ name t, s.captureType? name = some t →
      ∃ v, fields[name]? = some v ∧ v.kind = .ofType t) : s.Returns m r fields := by
  intro spec member field returning
  obtain ⟨⟨t, known⟩, bound⟩ := (loaded.admits spec member).returning field returning
  obtain ⟨v, found, kind⟩ := holds field t known
  refine ⟨v, found, fun d args decoded suit => ?_⟩
  have steps : s.methodSteps spec = s.returningBody field t d := by
    rw [methodSteps, returning]
    dsimp only
    rw [known, Option.map_some, Option.getD_some, Generation.bodyFor, decoded]
    rfl
  obtain ⟨-, is, means, invokes⟩ := loaded.invokes member bound decoded
    (steps ▸ plain_returningBody field t d)
  obtain ⟨a, e, rfl, given, runs, same⟩ := invokes plain rfl suit
  rw [steps] at means
  obtain ⟨enough, settles⟩ :=
    runs.settles (ends_returningBody (m := m.noting e) means given plain found kind)
  exact ⟨m.noting e, enough, rfl, fun fuel le => (same fuel).trans (settles fuel le)⟩

/-- The same is in fields of one name, text by its content. -/
def SameFields (h h' : Heap) (fields fields' : Std.TreeMap String Value) : Prop :=
  ∀ name : String, Option.Rel (Value.Alike h h') fields[name]? fields'[name]?

theorem Loaded.stores (loaded : s.Loaded all k) (stores : c.kind = .forwarding [] captures)
    (typed : s.constructorParams c = .ok types) (suit : Value.Suit types args) {r : Address} :
    s.Filled captures args (fill (blank k) (s.filled captures) args) ∧ ∀ m : Machine,
      m.heap.get r = .plain k (fill (blank k) (s.filled captures) args) →
        s.Returns m r (fill (blank k) (s.filled captures) args) := by
  obtain ⟨captured, known, rfl⟩ := types_of_forwarding stores typed
  rw [List.nil_append] at suit
  have filled := loaded.filled known suit
  have others : Value.Suit captured (args.drop s.handlerParams) := by
    have kinds := List.forall₂_drop s.handlerParams suit
    rwa [drop_declaredParams] at kinds
  exact ⟨filled, fun m plain => loaded.returns plain fun name t captures =>
    ⟨_, filled.captured (name, t) (mem_of_lookup captures), kind_captured known others captures⟩⟩

theorem forall₂_of_common {α β γ : Type} {R : α → β → Prop} {S : α → γ → Prop} {Q : β → γ → Prop}
    {xs : List α} {ys : List β} {zs : List γ} (left : List.Forall₂ R xs ys)
    (right : List.Forall₂ S xs zs) (each : ∀ x y z, R x y → S x z → Q y z) :
    List.Forall₂ Q ys zs := by
  induction left generalizing zs with
  | nil =>
    cases right
    exact .nil
  | cons first _ ih =>
    cases right with
    | cons other others => exact .cons (each _ _ _ first other) (ih others)

theorem Supply.holds_values (h : Heap) (vs : List Value) :
    List.Forall₂ (Supply.Holds h) (vs.map .value) vs := by
  rw [List.forall₂_map_left_iff]
  exact List.forall₂_same.2 fun _ _ => rfl

theorem Supply.eq_of_holds_values {h : Heap} {vs ws : List Value}
    (holds : List.Forall₂ (Supply.Holds h) (vs.map .value) ws) : ws = vs := by
  rw [List.forall₂_map_left_iff] at holds
  have same : List.Forall₂ (· = ·) ws vs := holds.flip
  rwa [List.forall₂_eq_eq_eq] at same

theorem Leads.mem {own last : List Supply} (leads : s.Leads c own final last)
    (member : c ∈ Generation.constructorsOf s) : final ∈ Generation.constructorsOf s := by
  induction leads with
  | here => exact member
  | on _ next _ _ _ _ ih => exact ih next

theorem Leads.creates {own last : List Supply} (leads : s.Leads c own final last)
    (spelled : s.Spelled) (loaded : s.Loaded all k) (member : c ∈ Generation.constructorsOf s)
    (typed : s.constructorParams c = .ok types) (present : m.classes[k.name]? = some k)
    (suit : Value.Suit types args)
    (holds : List.Forall₂ (Supply.Holds m.heap) own (args.drop s.handlerParams)) :
    ∃ captures types' vs r m', final.kind = .forwarding [] captures ∧
      s.constructorParams final = .ok types' ∧
      Value.Suit types' (args.take s.handlerParams ++ vs) ∧
      List.Forall₂ (Supply.Holds m'.heap) last vs ∧
      m.Creates k (constructorDescriptor types) args r m'
        (fill (blank k) (s.filled captures) (args.take s.handlerParams ++ vs)) := by
  let r : Address := ⟨m.heap.size⟩
  let m₁ := m.adding (.ofClass k)
  have plain : m₁.heap.get r = .plain k (blank k) :=
    (Heap.get_alloc _ _).trans (ofClass_eq k)
  have declared : ∀ f ∈ s.fields, (blank k).contains f.1 = true := fun f inside => by
    rw [Std.TreeMap.contains_eq_isSome_getElem?, loaded.getElem?_blank inside]
    rfl
  have present₁ : m₁.classes[Pool.internalName s.name]? = some k := loaded.name ▸ present
  have holds₁ := holds.imp fun _ _ holds =>
    Supply.Holds.grown holds (m.expands_adding (.ofClass k)).heap
  obtain ⟨captures, types', vs, m', forwards, typed', suit', initializes, refills, held⟩ :=
    leads.initializes (r := r) spelled loaded member typed present₁ plain declared suit holds₁
  exact ⟨captures, types', vs, r, m', forwards, typed', suit', held,
    Machine.exists_newInstance present initializes, refills.plain⟩

theorem sameFields_of_holds {last : List Supply} {names : List String} {before vs ws : List Value}
    {h h' : Heap} (left : List.Forall₂ (Supply.Holds h) last vs)
    (right : List.Forall₂ (Supply.Holds h') last ws) (fields : Std.TreeMap String Value) :
    SameFields h h' (fill fields names (before ++ vs)) (fill fields names (before ++ ws)) := by
  have before_ : List.Forall₂ (Value.Alike h h') before before :=
    List.forall₂_same.2 fun _ _ => .inl rfl
  have alike := List.rel_append before_ (forall₂_of_common left right fun _ _ _ => Supply.Holds.alike)
  refine fill_related alike fun name => ?_
  cases fields[name]? with
  | none => exact .none
  | some v => exact .some (.inl rfl)

theorem Loaded.creates_alike (spelled : s.Spelled) (loaded : s.Loaded all k)
    (forwards : final.kind = .forwarding [] captures)
    (member : final ∈ Generation.constructorsOf s) (typed : s.constructorParams final = .ok types)
    {before vs ws : List Value} {last : List Supply} {h : Heap}
    (length : before.length = s.handlerParams) (suit : Value.Suit types (before ++ vs))
    (left : List.Forall₂ (Supply.Holds h) last vs) (present : m.classes[k.name]? = some k)
    (right : List.Forall₂ (Supply.Holds m.heap) last ws) :
    ∃ r m' fields, m.Creates k (constructorDescriptor types) (before ++ ws) r m' fields ∧
      SameFields h m'.heap (fill (blank k) (s.filled captures) (before ++ vs)) fields := by
  have kinds : List.Forall₂ (fun v w : Value => v.kind = w.kind) vs ws :=
    forall₂_of_common left right fun _ _ _ => Supply.Holds.kind_eq
  have before_ : List.Forall₂ (fun v w : Value => v.kind = w.kind) before before :=
    List.forall₂_same.2 fun _ _ => rfl
  have suit₂ : Value.Suit types (before ++ ws) :=
    forall₂_of_common suit.flip (List.rel_append before_ kinds) fun _ _ _ kind same => same ▸ kind
  have holds : List.Forall₂ (Supply.Holds m.heap) last ((before ++ ws).drop s.handlerParams) := by
    rwa [List.drop_left' length]
  obtain ⟨captures', _, us, r, m', forwards', -, -, held, creates⟩ :=
    (Leads.here forwards).creates spelled loaded member typed present suit₂ holds
  rw [forwards] at forwards'
  cases forwards'
  rw [List.take_left' length] at creates
  exact ⟨r, m', _, creates, sameFields_of_holds left held _⟩

/-- Each constructor leaves a new object. One that stores its parameters fills the captures that
it lists, and methods that return a field give what is in it. Another one fills the fields as the
constructor at the end of its way does, called with what its arguments stand for there. -/
theorem constructors_fill {cache : DescriptorCache} {file : ClassFile} {g : Generation}
    {bytes : List UInt8} {m₀ m₁ : Machine} {name : String} {k : LoadedClass}
    (generated : s.generate cache = (.ok file, g)) (written : file.write = .ok bytes)
    (defined : Machine.define bytes m₀ = .ok name m₁) (loads : m₁.classes[name]? = some k)
    (spelled : s.Spelled) {c : ConstructorSpec} (member : c ∈ Generation.constructorsOf s) :
    ∃ types, s.constructorParams c = .ok types ∧ ∀ (m : Machine) (args : List Value),
      m.classes[name]? = some k → Value.Suit types args →
      ∃ r m' fields, m.Creates k (constructorDescriptor types) args r m' fields ∧
        (∀ superParams captures, c.kind = .forwarding superParams captures →
          s.Filled captures args fields ∧
            ∀ m₂ : Machine, m₂.heap.get r = .plain k fields → s.Returns m₂ r fields) ∧
        (∀ params target arguments, c.kind = .delegating params target arguments →
          ∃ final last captures types', final ∈ Generation.constructorsOf s ∧
            final.kind = .forwarding [] captures ∧ s.constructorParams final = .ok types' ∧
            s.Leads c ((args.drop s.handlerParams).map .value) final last ∧
            (∀ final' last', s.Leads c ((args.drop s.handlerParams).map .value) final' last' →
              final' = final ∧ last' = last) ∧
            ∀ (m₂ : Machine) (vs : List Value), m₂.classes[name]? = some k →
              List.Forall₂ (Supply.Holds m₂.heap) last vs →
              ∃ r₂ m₂' fields₂, m₂.Creates k (constructorDescriptor types')
                (args.take s.handlerParams ++ vs) r₂ m₂' fields₂ ∧
                SameFields m'.heap m₂'.heap fields fields₂) := by
  obtain ⟨all, k', same, found, loaded⟩ := loaded_of_define generated written defined
  rw [loads, Option.some.injEq] at found
  subst found
  rw [← loaded.name] at same
  subst same
  obtain ⟨types, typed⟩ := loaded.constructs.exists_types member
  refine ⟨types, typed, fun m args present suit => ?_⟩
  have holds := Supply.holds_values m.heap (args.drop s.handlerParams)
  obtain ⟨final, last, leads⟩ :=
    loaded.exists_leads spelled member typed (loaded.name ▸ present) suit holds
  obtain ⟨captures, types', vs, r, m', forwards, typed', suit', held, creates⟩ :=
    leads.creates spelled loaded member typed present suit holds
  refine ⟨r, m', _, creates, fun superParams own stores => ?_,
    fun params target arguments delegates => ?_⟩
  · -- A constructor that stores its parameters is at the end of its own way.
    cases leads with
    | on delegates =>
      rw [stores] at delegates
      cases delegates
    | here =>
    rw [stores] at forwards
    cases forwards
    rw [Supply.eq_of_holds_values held, List.take_append_drop]
    exact loaded.stores stores typed suit
  · cases types_of_delegating delegates typed
    have length := length_handlers suit
    have ends := leads.mem member
    exact ⟨final, last, captures, types', ends, forwards, typed', leads,
      fun _ _ leads' => leads.unique loaded.constructs leads', fun m₂ ws there supplied =>
        loaded.creates_alike spelled forwards ends typed' length suit' held there supplied⟩

/-- A constructor that stores its parameters, one of them over another. -/
def storing : ConstructorSpec where
  kind := .forwarding [] ["n", "s", "n"]

/-- A constructor that goes on with one that goes on with the storing one. -/
def preset : ConstructorSpec where
  kind := .delegating [] [.object "java/lang/String"] [.literal (.string "x")]

def tagged : ProxySpec where
  name := "p.Tagged"
  handler := some {}
  captures := [("n", .long), ("s", .object "java/lang/String")]
  constructors := [storing,
    { kind := .delegating [.object "java/lang/String"] [.long, .object "java/lang/String", .long]
        [.literal (.long 1), .parameter 0, .literal (.long 2)] }, preset]
  methods := [{ name := "count", descriptor := "()J", body := .returning "n" }]

theorem spelled_tagged : tagged.Spelled := by
  refine { superName := by decide, ordinary := by decide, bare := ?_, readable := ?_ }
  · simp [tagged, storing, preset, Generation.constructorsOf]
  · simp [tagged, storing, preset, Generation.constructorsOf]
    decide

theorem constructors_fill_tagged : ∃ (k : LoadedClass) (m m₂ : Machine),
    (∃ r m' fields, m.Creates k
        (constructorDescriptor [HandlerContract.type {}, .long, .object "java/lang/String", .long])
        [.null, .long 1, .null, .long 2] r m' fields ∧ fields["n"]? = some (.long 2)) ∧
    ∃ r m' fields r₂ m₂' fields₂,
      m.Creates k (constructorDescriptor [HandlerContract.type {}]) [.null] r m' fields ∧
      m₂.Creates k
        (constructorDescriptor [HandlerContract.type {}, .long, .object "java/lang/String", .long])
        [.null, .long 1, .reference ⟨0⟩, .long 2] r₂ m₂' fields₂ ∧
      SameFields m'.heap m₂'.heap fields fields₂ := by
  obtain ⟨k, loads⟩ := Option.isSome_iff_exists.1 (by decide +kernel : tagged.load?.isSome = true)
  obtain ⟨file, g, bytes, m₁, name, generated, written, defined, loaded⟩ := exists_of_load? loads
  have fills {c : ConstructorSpec} (member : c ∈ Generation.constructorsOf tagged) :=
    constructors_fill generated written defined loaded spelled_tagged member
  refine ⟨k, m₁, { m₁ with heap := ⟨#[.string "x"]⟩ }, ?_, ?_⟩
  · obtain ⟨types, typed, each⟩ := fills (c := storing) (.head _)
    cases typed
    obtain ⟨r, m', fields, creates, stores, -⟩ := each m₁ [.null, .long 1, .null, .long 2] loaded
      (.cons rfl (.cons rfl (.cons rfl (.cons rfl .nil))))
    obtain ⟨⟨-, captured⟩, -⟩ := stores _ _ rfl
    exact ⟨r, m', fields, creates, captured ("n", .long) (.head _)⟩
  · obtain ⟨types, typed, each⟩ := fills (c := preset) (.tail _ (.tail _ (.head _)))
    cases typed
    obtain ⟨r, m', fields, creates, -, goes⟩ := each m₁ [.null] loaded (.cons rfl .nil)
    obtain ⟨final, last, captures, types', -, -, typed', -, unique, direct⟩ := goes _ _ _ rfl
    obtain ⟨rfl, rfl⟩ := unique storing
      [.literal (.long 1), .literal (.string "x"), .literal (.long 2)]
      (.on rfl (.tail _ (.head _)) rfl rfl rfl (.on rfl (.head _) rfl rfl rfl (.here rfl)))
    cases typed'
    obtain ⟨r₂, m₂', fields₂, creates₂, same⟩ := direct { m₁ with heap := ⟨#[.string "x"]⟩ }
      [.long 1, .reference ⟨0⟩, .long 2] loaded
      (.cons rfl (.cons ⟨⟨0⟩, rfl, Nat.one_pos, rfl⟩ (.cons rfl .nil)))
    exact ⟨r, m', fields, r₂, m₂', fields₂, creates, creates₂, same⟩

/-- The first name is spelled like the end of one class and the beginning of another, so that the
descriptor of these parameters has four. -/
def oddParams : List FieldType := [.object "a;Lb", .long, .object "c"]

def misspelled : ProxySpec where
  name := "p.Odd"
  captures := [("n", .long), ("o", .object objectClass)]
  constructors := [{ kind := .forwarding [] ["n", "o"] },
    { kind := .delegating oddParams [.long, .object objectClass] [.parameter 1, .parameter 2] }]

theorem rooted_misspelled : misspelled.Rooted := by
  refine ⟨by decide, by decide, ?_⟩
  simp [misspelled, Generation.constructorsOf]

def oddError? (args : List Value) (name : String) (m : Machine) : Option MachineError :=
  match Machine.newInstance 100 name (constructorDescriptor oddParams) args m with
  | .ok .. => none
  | .error e _ => some e

theorem newInstance_of_oddError? {args : List Value} {name : String} {m : Machine} {e : MachineError}
    (failed : oddError? args name m = some e) (fatal : e ≠ .outOfFuel) (fuel : Nat) (v : Value)
    (m' : Machine) :
    Machine.newInstance fuel name (constructorDescriptor oddParams) args m ≠ .ok v m' := by
  unfold oddError? at failed
  split at failed
  · cases failed
  · rename_i ran
    cases failed
    exact Machine.newInstance_ne_ok ran fatal v m'

/-- The constructor does not find the long that it passes on, whether its parameters are counted as
they were given or as their descriptor is read. -/
theorem misspelled_not_created : misspelled.Rooted ∧ ∃ file g bytes m₁ name,
    misspelled.generate {} = (.ok file, g) ∧ file.write = .ok bytes ∧
    Machine.define bytes {} = .ok name m₁ ∧ m₁.classes[name]?.isSome = true ∧
    ∃ c ∈ Generation.constructorsOf misspelled, misspelled.constructorParams c = .ok oddParams ∧
      Value.Suit oddParams [.null, .long 5, .null] ∧
      ∀ args ∈ [[.null, .long 5, .null], [.null, .null, .long 5, .null]], ∀ fuel v m',
        Machine.newInstance fuel name (constructorDescriptor oddParams) args m₁ ≠ .ok v m' := by
  have run : misspelled.define?.map (fun d => (d.2.classes[d.1]?.isSome,
      oddError? [.null, .long 5, .null] d.1 d.2, oddError? [.null, .null, .long 5, .null] d.1 d.2)) =
      some (true, some (.verify (.emptyLocal 3)), some (.verify (.emptyLocal 3))) := by
    decide +kernel
  obtain ⟨⟨name, m₁⟩, defines, outcome⟩ := Option.map_eq_some_iff.1 run
  obtain ⟨file, g, bytes, generated, written, defined⟩ := exists_of_define? defines
  obtain ⟨loaded, errors⟩ := Prod.mk.inj outcome
  obtain ⟨declared, read⟩ := Prod.mk.inj errors
  refine ⟨rooted_misspelled, file, g, bytes, m₁, name, generated, written, defined, loaded,
    _, .tail _ (.head _), by decide +kernel, .cons rfl (.cons rfl (.cons rfl .nil)),
    fun args either => ?_⟩
  obtain rfl | rfl : args = _ ∨ args = _ := by simpa using either
  · exact newInstance_of_oddError? declared nofun
  · exact newInstance_of_oddError? read nofun

end ProxySpec
end ClassForge
