import ClassForge.Proofs.ClassBuilder.Running
import ClassForge.Proofs.Code.Operations
import ClassForge.Proofs.Descriptor.Dividing
import ClassForge.Proofs.SlotCounts

namespace ClassForge

open Discipline Ensures

namespace Body

variable {α : Type} {b c : Body} {s : Span}

/-- The number of slots goes up to where the local ends, or as far as sixteen bits count. -/
structure Covers (b : Body) (s : Span) : Prop where
  start : s.start ≤ 65535
  stop : min 65535 s.stop ≤ b.maxLocals.toNat

/-- The instructions get at no local that is not covered. -/
def Bounded (b : Body) : Prop := ∀ i ∈ b.items.toList, ∀ s, i.span? = some s → b.Covers s

theorem Covers.le_iff (covers : b.Covers s) : s.stop ≤ b.maxLocals.toNat ↔ s.stop ≤ 65535 := by
  have last := b.maxLocals.toNat_lt
  have stop := covers.stop
  omega

theorem Covers.apart_iff (covers : b.Covers s) {width : Nat} (one : 0 < width) :
    s.Apart ⟨b.maxLocals.toNat, width⟩ ↔ s.stop ≤ 65535 := by
  rw [← covers.le_iff]
  have start := covers.start
  have stop := covers.stop
  constructor
  · rintro (below | above)
    · exact below
    · change b.maxLocals.toNat + width ≤ s.start at above
      omega
  · exact .inl

structure Widens (b c : Body) : Prop where
  descriptor : c.descriptor = b.descriptor
  isStatic : c.isStatic = b.isStatic
  maxLocals : b.maxLocals ≤ c.maxLocals

theorem Widens.refl (b : Body) : b.Widens b := ⟨rfl, rfl, UInt16.le_refl _⟩

theorem Widens.trans {b c d : Body} (first : b.Widens c) (second : c.Widens d) : b.Widens d where
  descriptor := second.descriptor.trans first.descriptor
  isStatic := second.isStatic.trans first.isStatic
  maxLocals := UInt16.le_trans first.maxLocals second.maxLocals

theorem Covers.mono (covers : b.Covers s) (widens : b.Widens c) : c.Covers s :=
  ⟨covers.start, Nat.le_trans covers.stop (UInt16.le_iff_toNat_le.1 widens.maxLocals)⟩

theorem Bounded.widen (bounded : b.Bounded) (widens : b.Widens c) (items : c.items = b.items) :
    c.Bounded := by
  intro i inside s got
  rw [items] at inside
  exact (bounded i inside s got).mono widens

def bounding : Discipline Body where
  Holds := Bounded
  Onward := Widens
  refl := Widens.refl
  trans := Widens.trans

theorem bounds_onPool (m : PoolM α) : bounding.Ensures (onPool m) b Anything := by
  constructor
  intro bounded
  have widens (p : Pool) : b.Widens { b with pool := p } := ⟨rfl, rfl, UInt16.le_refl _⟩
  unfold onPool
  dsimp only
  cases m b.pool with
  | ok a p => exact ⟨bounded.widen (widens p) rfl, widens p, trivial⟩
  | error e p => exact ⟨bounded.widen (widens p) rfl, widens p⟩

theorem bounds_method (descriptor : String) : bounding.Ensures (method descriptor) b Anything := by
  constructor
  intro bounded
  have widens (cache : DescriptorCache) : b.Widens { b with cache } := ⟨rfl, rfl, UInt16.le_refl _⟩
  unfold method
  dsimp only
  cases (b.cache.method? descriptor).1 with
  | some d => exact ⟨bounded.widen (widens _) rfl, widens _, trivial⟩
  | none => exact ⟨bounded.widen (widens _) rfl, widens _⟩

theorem bounds_modify {f : Body → Body} (widens : b.Widens (f b)) (items : (f b).items = b.items) :
    bounding.Ensures (modify f : BodyM Unit) b Anything :=
  Ensures.modify fun bounded => ⟨bounded.widen widens items, widens, trivial⟩

theorem bounds_item (i : Item) (covered : ∀ s, i.span? = some s → b.Covers s) :
    bounding.Ensures (addItem i) b Anything := by
  have widens : b.Widens { b with items := b.items.push i } := ⟨rfl, rfl, UInt16.le_refl _⟩
  refine Ensures.modify fun bounded => ⟨fun j inside s got => ?_, widens, trivial⟩
  rw [Array.toList_push, List.mem_append, List.mem_singleton] at inside
  obtain before | rfl := inside
  · exact (bounded j before s got).mono widens
  · exact (covered s got).mono widens

theorem toNat_max (m n : UInt16) : (max m n).toNat = max m.toNat n.toNat := by
  change (if m ≤ n then n else m).toNat = _
  split <;> rename_i h <;> rw [UInt16.le_iff_toNat_le] at h <;> omega

theorem bounds_touch (slot : UInt16) (kind : ValueKind) : bounding.Ensures (touch slot kind) b
    fun _ c => c.Covers ⟨slot.toNat, kind.slots⟩ := by
  have past : (touch.pastSlot slot kind).toNat = min 65535 (slot.toNat + kind.slots) :=
    toNat_slots (Nat.min_le_left _ _)
  refine Ensures.modify fun bounded => ?_
  have widens : b.Widens { b with maxLocals := max b.maxLocals (touch.pastSlot slot kind) } := by
    refine ⟨rfl, rfl, UInt16.le_iff_toNat_le.2 ?_⟩
    rw [toNat_max]
    exact Nat.le_max_left _ _
  refine ⟨bounded.widen widens rfl, widens, Nat.le_of_lt_succ slot.toNat_lt, ?_⟩
  rw [toNat_max, past]
  exact Nat.le_max_right _ _

theorem Operates.bounds {R : Record → Prop} {m : BodyM α} (operates : Operates R m) (b : Body) :
    bounding.Ensures m b Anything := by
  induction operates generalizing b with
  | pure a => exact Ensures.pure a fun _ => trivial
  | throw e => exact Ensures.throw e
  | onPool => exact bounds_onPool _
  | method descriptor => exact bounds_method descriptor
  | item i free => exact bounds_item i fun s got => by rw [free] at got; cases got
  | touch slot kind => exact (bounds_touch slot kind).anything
  | use slot kind o pops pushes span =>
    refine (bounds_touch slot kind).bind fun _ c _ _ covers => bounds_item _ fun s got => ?_
    rw [Item.span?, span] at got
    cases got
    exact covers
  | newLabel =>
    have widens : b.Widens { b with nextLabel := b.nextLabel + 1 } := ⟨rfl, rfl, UInt16.le_refl _⟩
    exact ⟨fun bounded => ⟨bounded.widen widens rfl, widens, trivial⟩⟩
  | declareMaxStack | protection | scope => exact bounds_modify ⟨rfl, rfl, UInt16.le_refl _⟩ rfl
  | look same next ih => exact Ensures.get.andThen fun here c => ih here c
  | bind first next ih ihnext => exact (ih b).andThen fun a c => ihnext a c

theorem bounds_newLocal (type : FieldType) : bounding.Ensures (newLocal type) b
    fun slot c => c.Covers ⟨slot.toNat, type.slots⟩ := by
  refine Ensures.get.bind fun here c _ _ _ => ?_
  refine (bounds_touch here.maxLocals (.ofType type)).bind fun _ d _ _ covers => ?_
  rw [ValueKind.slots_ofType] at covers
  exact Ensures.pure _ fun _ => covers

theorem bounds_localVariable (name : String) (type : FieldType) (slot : UInt16)
    (start stop : Label) : bounding.Ensures (localVariable name type slot start stop) b
      fun _ c => c.Covers ⟨slot.toNat, type.slots⟩ := by
  refine (bounds_onPool _).bind fun n _ _ _ _ => (bounds_onPool _).bind fun d _ _ _ _ => ?_
  refine (bounds_touch slot (.ofType type)).bind fun _ c _ _ covers => ?_
  rw [ValueKind.slots_ofType] at covers
  refine (bounds_modify ⟨rfl, rfl, UInt16.le_refl _⟩ rfl).mono fun _ d _ widens _ => ?_
  exact covers.mono widens

/-- Locals that the method has before its first instruction. -/
inductive Declares (b : Body) : Span → Prop where
  | receiver (bound : b.isStatic = false) : b.Declares ⟨0, 1⟩
  | parameter {i : Nat} {type : FieldType} {slot : UInt16}
    (typed : b.descriptor.params[i]? = some type) (placed : b.paramSlot? i = .ok slot) :
    b.Declares ⟨slot.toNat, type.slots⟩

theorem Declares.stop_le (declares : b.Declares s)
    (small : b.descriptor.slotsWith b.isStatic ≤ 65535) :
    s.stop ≤ b.descriptor.slotsWith b.isStatic := by
  cases declares with
  | receiver bound =>
    rw [MethodDescriptor.slotsWith, bound]
    exact Nat.le_add_right 1 _
  | @parameter i type slot typed placed =>
    obtain ⟨inside, typed⟩ := List.getElem?_eq_some_iff.1 typed
    obtain ⟨slot', placed', at_⟩ := paramSlot?_eq small inside
    rw [placed] at placed'
    cases placed'
    have through := FieldType.totalSlots_take_le b.descriptor.params (i + 1)
    rw [List.take_add_one, List.getElem?_eq_getElem inside, typed, FieldType.totalSlots_append]
      at through
    change FieldType.totalSlots (b.descriptor.params.take i) + type.slots ≤
      b.descriptor.paramSlots at through
    change slot.toNat + type.slots ≤ receiverSlots b.isStatic + b.descriptor.paramSlots
    rw [at_]
    omega

theorem Declares.of_widens (declares : c.Declares s) (widens : b.Widens c) : b.Declares s := by
  cases declares with
  | receiver bound => exact .receiver (widens.isStatic ▸ bound)
  | parameter typed placed =>
    rw [widens.descriptor] at typed
    rw [paramSlot?, widens.descriptor, widens.isStatic] at placed
    exact .parameter typed placed

end Body

namespace Assembly

variable {α : Type} {a : Assembly}

def bounding : Discipline Assembly := ofBody Body.bounding

theorem Operates.bounds {R : Record → Prop} {m : AssemblyM α} (operates : Operates R m)
    (a : Assembly) : bounding.Ensures m a Anything :=
  operates.ensures (fun operates b => operates.bounds b) a

def slot? (a : Assembly) : SlotRef → Option UInt16
  | .number s => some s
  | .named name => a.locals.lookup name

/-- The local that a step sets aside, or has a debug entry for, once it has given its reply. What
instructions get at is in the body. -/
def reserves (a : Assembly) : Step → Reply → Option Span
  | .newLocal type _, .number slot => some ⟨slot, type.slots⟩
  | .localVariable _ type slot _ _, _ => (a.slot? slot).map fun s => ⟨s.toNat, type.slots⟩
  | _, _ => none

theorem bounds_slotOf (slot : SlotRef) :
    bounding.Ensures (slotOf slot) a fun s _ => a.slot? slot = some s := by
  cases slot with
  | number s => exact Ensures.pure s fun _ => rfl
  | named name =>
    refine Ensures.get.bind fun here c _ _ same => ?_
    obtain ⟨rfl, rfl⟩ := same
    split
    · rename_i s found
      exact Ensures.pure s fun _ => found
    · exact Ensures.throw _

theorem bounds_perform (step : Step) : bounding.Ensures (perform step) a
    fun r c => ∀ s, a.reserves step r = some s → c.body.Covers s := by
  have plain := (operates_perform step).bounds a
  cases step with
  | newLocal type name =>
    refine (ensures_onBody (Body.bounds_newLocal type)).bind fun slot c _ _ covers => ?_
    have given : ∀ s, a.reserves (.newLocal type name) (.number slot.toNat) = some s →
        c.body.Covers s := by
      intro s same
      cases same
      exact covers
    cases name with
    | none => exact Ensures.pure _ fun _ => given
    | some name =>
      have named : Operates Record.Plain
          (modify fun a => { a with locals := (name, slot) :: a.locals }) :=
        .aside (fun _ => rfl) fun _ => rfl
      exact (named.bounds c).bind fun _ d _ widens _ =>
        Ensures.pure _ fun _ s same => (given s same).mono widens
  | localVariable name type slot start stop =>
    refine (bounds_slotOf slot).bind fun s c _ _ found => ?_
    have labels (label : String) (d : Assembly) :
        bounding.Ensures (labelNamed label) d Anything :=
      (operates_labelNamed (R := Record.Plain) label).bounds d
    refine (labels start c).bind fun first d _ _ _ => ?_
    refine (labels stop d).bind fun last e _ _ _ => ?_
    refine (ensures_onBody (Body.bounds_localVariable name type s first last)).bind
      fun _ f _ _ covers => Ensures.pure _ fun _ t same => ?_
    rw [reserves, found] at same
    cases same
    exact covers
  | _ => exact plain.mono fun _ _ _ _ _ s same => by cases same

/-- New locals come one past the highest slot used so far, with nothing to stop them. -/
theorem perform_newLocal (type : FieldType) (name : Option String) (a : Assembly) :
    ∃ c, perform (.newLocal type name) a = .ok (.number a.body.maxLocals.toNat) c := by
  cases name with
  | none => exact ⟨_, rfl⟩
  | some name => exact ⟨_, rfl⟩

end Assembly

structure Draft where
  assembly : Assembly
  reserved : List Span := []

namespace Draft

/-- Steps that fail reserve nothing, and others may follow them. -/
def perform (d : Draft) (step : Step) : Draft :=
  match Assembly.perform step d.assembly with
  | .ok r a => ⟨a, (d.assembly.reserves step r).toList ++ d.reserved⟩
  | .error _ a => ⟨a, d.reserved⟩

def ofSteps (b : Body) (steps : List Step) : Draft := steps.foldl perform ⟨{ body := b }, []⟩

inductive Uses (d : Draft) : Span → Prop where
  | declared {s : Span} (declares : d.assembly.body.Declares s) : d.Uses s
  | instruction {s : Span} {i : Item} (inside : i ∈ d.assembly.body.items.toList)
    (got : i.span? = some s) : d.Uses s
  | reserved {s : Span} (inside : s ∈ d.reserved) : d.Uses s

/-- Drafts that began with the body and have counted what they use. -/
structure Counted (b : Body) (d : Draft) : Prop where
  bounded : d.assembly.body.Bounded
  widens : b.Widens d.assembly.body
  reserved : ∀ s ∈ d.reserved, d.assembly.body.Covers s

theorem Counted.perform {b : Body} {d : Draft} (counted : Counted b d) (step : Step) :
    Counted b (d.perform step) := by
  have ensures := Assembly.bounds_perform (a := d.assembly) step
  unfold Draft.perform
  cases done : Assembly.perform step d.assembly with
  | ok r a =>
    obtain ⟨bounded, widens, covers⟩ := ensures.of_eq_ok counted.bounded done
    refine ⟨bounded, counted.widens.trans widens, fun s inside => ?_⟩
    rw [List.mem_append, Option.mem_toList] at inside
    obtain new | old := inside
    · exact covers s new
    · exact (counted.reserved s old).mono widens
  | error e a =>
    obtain ⟨bounded, widens⟩ := ensures.of_eq_error counted.bounded done
    exact ⟨bounded, counted.widens.trans widens, fun s inside =>
      (counted.reserved s inside).mono widens⟩

theorem Counted.ofSteps {b : Body} (empty : b.items = #[]) (steps : List Step) :
    Counted b (ofSteps b steps) := by
  have run (d : Draft) (counted : Counted b d) : Counted b (steps.foldl Draft.perform d) := by
    induction steps generalizing d with
    | nil => exact counted
    | cons step rest ih => exact ih _ (counted.perform step)
  refine run _ ⟨?_, Body.Widens.refl b, nofun⟩
  intro i inside
  simp [empty] at inside

theorem Counted.declared {b : Body} {d : Draft} (counted : Counted b d)
    (small : b.descriptor.slotsWith b.isStatic ≤ 65535) {s : Span}
    (declares : d.assembly.body.Declares s) : s.stop ≤ b.descriptor.slotsWith b.isStatic :=
  (declares.of_widens counted.widens).stop_le small

theorem Counted.covers {b : Body} {d : Draft} (counted : Counted b d)
    (small : b.descriptor.slotsWith b.isStatic ≤ 65535)
    (locals : b.maxLocals.toNat = b.descriptor.slotsWith b.isStatic) {s : Span} (uses : d.Uses s) :
    d.assembly.body.Covers s := by
  cases uses with
  | declared declares =>
    have stop := counted.declared small declares
    have start : s.start ≤ s.stop := Nat.le_add_right s.start s.width
    have covers : b.Covers s := ⟨by omega, by omega⟩
    exact covers.mono counted.widens
  | instruction inside got => exact counted.bounded _ inside s got
  | reserved inside => exact counted.reserved s inside

end Draft

/-- Whatever steps there were, new locals are apart from a local that was used before, and the
finished code asks for enough slots to have that local, just if it ends below slot 65535. The
receiver and the parameters do. -/
theorem locals_apart_iff {pool : Pool} {cache : DescriptorCache} {text : String} {isStatic : Bool}
    {b : Body} (started : (Body.start pool cache text isStatic).1 = .ok b) (steps : List Step)
    {d : Draft} (drafted : Draft.ofSteps b steps = d) :
    (∀ s, d.assembly.body.Declares s → s.stop ≤ 65535) ∧
    (∀ type name, ∃ a, Assembly.perform (.newLocal type name) d.assembly =
      .ok (.number d.assembly.body.maxLocals.toNat) a) ∧
    ∀ s, d.Uses s →
      (∀ type : FieldType,
        s.Apart ⟨d.assembly.body.maxLocals.toNat, type.slots⟩ ↔ s.stop ≤ 65535) ∧
      ∀ code, d.assembly.body.finish = .ok code →
        (s.stop ≤ code.maxLocals.toNat ↔ s.stop ≤ 65535) := by
  obtain ⟨m, -, small, same⟩ := Body.start_eq_ok started
  have empty : b.items = #[] := by rw [same]
  have fits : b.descriptor.slotsWith b.isStatic ≤ 65535 := by
    rw [same]
    exact small
  have locals : b.maxLocals.toNat = b.descriptor.slotsWith b.isStatic := by
    rw [same]
    exact toNat_slots small
  have counted := Draft.Counted.ofSteps empty steps
  rw [drafted] at counted
  have replies := fun type name => Assembly.perform_newLocal type name d.assembly
  refine ⟨fun s declares => ?_, replies, fun s uses => ?_⟩
  · exact Nat.le_trans (counted.declared fits declares) fits
  · have covers := counted.covers fits locals uses
    refine ⟨fun type => covers.apart_iff type.slots_pos, fun code done => ?_⟩
    rw [Body.maxLocals_of_finish done]
    exact covers.le_iff

namespace Draft

def finish (text : String) (steps : List Step) : Except Error (Draft × UInt16) := do
  let b ← (Body.start {} {} text true).1
  let code ← (ofSteps b steps).assembly.body.finish
  return (ofSteps b steps, code.maxLocals)

theorem finish_eq_ok {text : String} {steps : List Step} {d : Draft} {n : UInt16}
    (finished : finish text steps = .ok (d, n)) :
    ∃ b, (Body.start {} {} text true).1 = .ok b ∧ ofSteps b steps = d ∧
      ∃ code, d.assembly.body.finish = .ok code ∧ code.maxLocals = n := by
  obtain ⟨b, started, finished⟩ := Outcome.bind_eq_ok.1 finished
  obtain ⟨code, done, same⟩ := Outcome.bind_eq_ok.1 finished
  cases same
  exact ⟨b, started, rfl, code, done, rfl⟩

end Draft

/-- A long stored into a slot chosen by hand. -/
def storing : List Step := [.push (.long 5), .store .long (.number 2), .leave]

theorem locals_apart_iff_storing : ∃ b, (Body.start {} {} "(I)V" true).1 = .ok b ∧
    ∃ d, Draft.ofSteps b storing = d ∧ d.assembly.body.maxLocals = 4 ∧
      (Span.mk 2 2).Apart ⟨4, 2⟩ ∧ ∃ code, d.assembly.body.finish = .ok code ∧
        (Span.mk 2 2).stop ≤ code.maxLocals.toNat := by
  have shape : ((Draft.finish "(I)V" storing).toOption.any fun (d, _) =>
      d.assembly.body.maxLocals == 4 &&
        d.assembly.body.items.toList.any (·.span? == some ⟨2, 2⟩)) = true := by decide +kernel
  obtain ⟨⟨d, n⟩, finished, shape⟩ := Outcome.exists_of_any shape
  obtain ⟨locals, stored⟩ := Bool.and_eq_true_iff.1 shape
  obtain ⟨i, inside, got⟩ := List.any_eq_true.1 stored
  obtain ⟨b, started, drafted, code, done, -⟩ := Draft.finish_eq_ok finished
  obtain ⟨-, -, uses⟩ := locals_apart_iff started storing drafted
  obtain ⟨apart, within⟩ := uses ⟨2, 2⟩ (.instruction inside (eq_of_beq got))
  have apart := (apart .long).2 (by decide)
  rw [eq_of_beq locals] at apart
  have below := (within code done).2 (by decide)
  exact ⟨b, started, d, drafted, eq_of_beq locals, apart, code, done, below⟩

/-- Two locals are set aside when all slots but the last are taken. -/
def crowded : List Step :=
  [.increment (.number 65534) 1, .newLocal .int none, .newLocal .int none, .leave]

/-- Both locals get the last slot, and the finished code does not ask for it. -/
theorem same_slot_of_crowded : ∃ b, (Body.start {} {} "()V" true).1 = .ok b ∧
    ∃ d, Draft.ofSteps b crowded = d ∧ d.reserved = [⟨65535, 1⟩, ⟨65535, 1⟩] ∧
      ¬(Span.mk 65535 1).Apart ⟨65535, 1⟩ ∧ ∃ code, d.assembly.body.finish = .ok code ∧
        ¬(Span.mk 65535 1).stop ≤ code.maxLocals.toNat := by
  have shape : ((Draft.finish "()V" crowded).toOption.any fun (d, locals) =>
      d.reserved == [⟨65535, 1⟩, ⟨65535, 1⟩] && locals == 65535) = true := by decide +kernel
  obtain ⟨⟨d, n⟩, finished, shape⟩ := Outcome.exists_of_any shape
  obtain ⟨reserved, locals⟩ := Bool.and_eq_true_iff.1 shape
  obtain ⟨b, started, drafted, code, done, same⟩ := Draft.finish_eq_ok finished
  have overlap : ¬(Span.mk 65535 1).Apart ⟨65535, 1⟩ := by
    rintro (below | below) <;> exact absurd below (by decide)
  refine ⟨b, started, d, drafted, eq_of_beq reserved, overlap, code, done, ?_⟩
  rw [same, eq_of_beq locals]
  decide

end ClassForge
