import ClassForge.Proofs.ClassBuilder.Blindness

namespace ClassForge

namespace ClassBuilder

open Discipline

variable {c d : ClassBuilder}

structure Gained (c d : ClassBuilder) : Prop where
  pool : c.pool.Grown d.pool
  fields : d.fields = c.fields
  methods : ∃ m, d.methods = c.methods.push m

/-- A method is added, or the class is what it was. -/
def AllOrNothing (c : ClassBuilder) : EStateM.Result Error ClassBuilder Unit → Prop
  | .ok _ d => c.Gained d
  | .error _ d => (view false).Alike d c

/-- What is forgotten and what is remembered of a class may differ. -/
theorem AllOrNothing.of_alike {r : EStateM.Result Error ClassBuilder Unit}
    (alike : (view false).Alike d c) (outcome : AllOrNothing d r) : AllOrNothing c r := by
  cases r with
  | ok u e =>
    have grown : c.pool.Grown d.pool := .of_alike alike.pool.symm
    have fields := congrArg ClassBuilder.fields alike.rest
    have methods (m : Member) := congrArg (fun c : ClassBuilder => c.methods.push m) alike.rest
    obtain ⟨m, added⟩ := outcome.methods
    exact ⟨grown.trans outcome.pool, outcome.fields.trans fields, m, added.trans (methods m)⟩
  | error e f => exact View.Alike.trans outcome alike

/-- What was interned for a method that is not added is forgotten. -/
theorem allOrNothing_addMethod (bounded : c.pool.Bounded) (h : MethodHead) {make : BuilderM Member}
    (keeps : (view false).Keeps make) : c.AllOrNothing (addMethod h make c) := by
  have onward := keeps.onward c
  unfold addMethod
  dsimp only
  cases made : make c with
  | ok m d =>
    rw [made] at onward
    have fields := congrArg ClassBuilder.fields onward.fixed
    have methods := congrArg (fun c : ClassBuilder => c.methods.push m) onward.fixed
    exact ⟨onward.grown, fields, m, methods⟩
  | error e d =>
    rw [made] at onward
    exact ⟨onward.grown.truncate bounded, onward.fixed⟩

def standing : Discipline ClassBuilder where
  Holds _ := True
  Onward c d := (view false).Alike d c
  refl c := ⟨.refl c.pool, rfl⟩
  trans first second := second.trans first

theorem standing_checkSignature (h : MethodHead) :
    standing.Ensures (checkSignature h) c Ensures.Anything := by
  have decodes : standing.Ensures (decodeDescriptor h.descriptor) c Ensures.Anything := by
    refine ⟨fun _ => ?_⟩
    unfold decodeDescriptor
    dsimp only
    split <;> rename_i decoded <;> split at decoded <;> cases decoded
    · exact ⟨True.intro, ⟨.refl c.pool, rfl⟩, True.intro⟩
    · exact ⟨True.intro, .refl c.pool, rfl⟩
  unfold checkSignature
  refine decodes.andThen fun d c' => ?_
  split
  · exact Ensures.get.andThen fun _ _ => Ensures.throw _
  · split
    · exact Ensures.throw _
    · dsimp only
      split
      · exact Ensures.throw _
      · exact Ensures.pure _ fun _ => True.intro

theorem allOrNothing_checked (h : MethodHead) {make : BuilderM Unit}
    (makes : ∀ d, (view false).Alike d c → d.AllOrNothing (make d)) : c.AllOrNothing ((do
      modify fun c : ClassBuilder => { c with lastRun := none }
      checkSignature h
      make) c) := by
  let start := { c with lastRun := none }
  have fresh : (view false).Alike start c := ⟨.refl c.pool, rfl⟩
  have checked := (standing_checkSignature h (c := start)).outcome True.intro
  change c.AllOrNothing ((checkSignature h >>= fun _ => make) start)
  cases passed : checkSignature h start with
  | ok u d =>
    rw [passed] at checked
    rw [Outcome.bind_of_ok passed]
    have alike : (view false).Alike d c := checked.2.1.trans fresh
    exact (makes d alike).of_alike alike
  | error e d =>
    rw [passed] at checked
    rw [Outcome.bind_of_error passed]
    exact checked.2.trans fresh

def declare (h : MethodHead) : Option Listing → BuilderM Unit
  | some steps => code h steps
  | none => noCode h

theorem allOrNothing_declare (bounded : c.pool.Bounded) (h : MethodHead) (body : Option Listing) :
    c.AllOrNothing (declare h body c) := by
  have same {d : ClassBuilder} (alike : (view false).Alike d c) : d.pool.Bounded :=
    (Pool.Grown.of_alike alike.pool.symm).bounded bounded
  cases body with
  | some steps =>
    refine allOrNothing_checked h fun d alike => ?_
    split
    · exact allOrNothing_addMethod (same alike) h
        ((keeps_assemble h steps).bind fun _ => keeps_finishMethod ..)
    · exact ⟨.refl d.pool, rfl⟩
  | none =>
    refine allOrNothing_checked h fun d alike => ?_
    split
    · exact ⟨.refl d.pool, rfl⟩
    · exact allOrNothing_addMethod (same alike) h (keeps_finishMethod ..)

/-- What may happen to a class while it is put together. Its pool is open to changes, and to being
exchanged for any other whose lookups stay inside of it, as they do in all pools there are
(`Pool.Reached.bounded`). -/
inductive Move where
  | call (call : Call)
  | pool (change : Pool.Change)
  | exchange (p : Pool) (bounded : p.Bounded)

namespace Move

def perform : Move → BuilderM (Option Index)
  | call x => do
    x.perform
    return none
  | pool change => onPool change.perform
  | exchange p _ => do
    modify fun c => { c with pool := p }
    return none

/-- What an earlier body told is not told again. -/
def run (move : Move) (c : ClassBuilder) : EStateM.Result Error ClassBuilder (Option Index) :=
  move.perform { c with lastRun := none }

def apply (move : Move) (c : ClassBuilder) : ClassBuilder :=
  match move.run c with
  | .ok _ d | .error _ d => d

def answer (move : Move) (c : ClassBuilder) : Except Error (Option Index) × Option Transcript :=
  match move.run c with
  | .ok i d => (.ok i, d.lastRun)
  | .error e d => (.error e, d.lastRun)

theorem blind {told : Bool} (move : Move) : (view told).Blind move.perform := by
  cases move with
  | call x => exact x.blind.bind fun _ => .pure _
  | pool change => exact blind_onPool change.blind
  | exchange p bounded =>
    intro s t alike
    exact .ok none ⟨.refl p, congrArg (fun c : ClassBuilder => { c with pool := {} }) alike.rest⟩

end Move

def moved (c : ClassBuilder) (moves : List Move) : ClassBuilder :=
  moves.foldl (fun c move => move.apply c) c

def answers (c : ClassBuilder) : List Move → List (Except Error (Option Index) × Option Transcript)
  | [] => []
  | move :: rest => move.answer c :: (move.apply c).answers rest

def bytes (c : ClassBuilder) : Except Error (List UInt8) :=
  match toBytes c with
  | .ok bytes _ => .ok bytes
  | .error e _ => .error e

theorem alike_move (alike : (view false).Alike c d) (move : Move) :
    move.answer c = move.answer d ∧ (view false).Alike (move.apply c) (move.apply d) := by
  have start : (view true).Alike { c with lastRun := none } { d with lastRun := none } :=
    ⟨alike.pool, alike.rest⟩
  have ends := move.blind _ _ start
  unfold Move.answer Move.apply Move.run
  generalize move.perform { c with lastRun := none } = x at ends
  generalize move.perform { d with lastRun := none } = y at ends
  have forget {s t : ClassBuilder} (alike : (view true).Alike s t) : (view false).Alike s t :=
    ⟨alike.pool, congrArg (fun c : ClassBuilder => { c with lastRun := none }) alike.rest⟩
  cases ends with
  | ok i alike =>
    have heard := congrArg ClassBuilder.lastRun alike.rest
    exact ⟨congrArg (Prod.mk (Except.ok i)) heard, forget alike⟩
  | error e alike =>
    have heard := congrArg ClassBuilder.lastRun alike.rest
    exact ⟨congrArg (Prod.mk (Except.error e)) heard, forget alike⟩

theorem alike_moved (alike : (view false).Alike c d) (moves : List Move) :
    c.answers moves = d.answers moves ∧ (view false).Alike (c.moved moves) (d.moved moves) := by
  induction moves generalizing c d with
  | nil => exact ⟨rfl, alike⟩
  | cons move rest ih =>
    obtain ⟨answer, stays⟩ := alike_move alike move
    obtain ⟨answers, stay⟩ := ih stays
    exact ⟨by rw [ClassBuilder.answers, ClassBuilder.answers, answer, answers], stay⟩

theorem alike_bytes (alike : (view false).Alike c d) : c.bytes = d.bytes := by
  have ends := blind_toBytes c d alike
  unfold bytes
  generalize toBytes c = x at ends
  generalize toBytes d = y at ends
  cases ends <;> rfl

def bounding : Discipline ClassBuilder where
  Holds c := c.pool.Bounded
  Onward _ _ := True
  refl _ := True.intro
  trans _ _ := True.intro

theorem bounding_keeps {α : Type} {m : BuilderM α} (keeps : (view false).Keeps m) :
    bounding.Ensures m c Ensures.Anything := by
  constructor
  intro bounded
  have onward := keeps.onward c
  cases h : m c with
  | ok a d =>
    rw [h] at onward
    exact ⟨onward.grown.bounded bounded, True.intro, True.intro⟩
  | error e d =>
    rw [h] at onward
    exact ⟨onward.grown.bounded bounded, True.intro⟩

theorem bounding_modify {f : ClassBuilder → ClassBuilder} (pool : ∀ c, (f c).pool = c.pool) :
    bounding.Ensures (modify f : BuilderM Unit) c Ensures.Anything := by
  refine Ensures.modify fun bounded => ⟨?_, True.intro, True.intro⟩
  change (f c).pool.Bounded
  rw [pool]
  exact bounded

theorem bounding_declare (h : MethodHead) (body : Option Listing) :
    bounding.Ensures (declare h body) c Ensures.Anything := by
  constructor
  intro bounded
  have outcome := allOrNothing_declare bounded h body
  cases made : declare h body c with
  | ok u d =>
    rw [made] at outcome
    exact ⟨outcome.pool.bounded bounded, True.intro, True.intro⟩
  | error e d =>
    rw [made] at outcome
    have pools : d.pool.Alike c.pool := outcome.pool
    exact ⟨(Pool.Grown.of_alike pools.symm).bounded bounded, True.intro⟩

theorem bounding_addField (access : UInt16) (name : String) (type : FieldType)
    (attributes : List Attribute) :
    bounding.Ensures (addField access name type attributes) c Ensures.Anything := by
  refine (bounding_keeps (keeps_onPool (.utf8 _))).andThen fun n _ => ?_
  refine (bounding_keeps (keeps_onPool (.utf8 _))).andThen fun d _ => ?_
  refine Ensures.get.andThen fun _ _ => (bounding_keeps (keeps_note _)).andThen fun _ _ => ?_
  exact bounding_modify fun _ => rfl

theorem bounding_call (call : Call) : bounding.Ensures call.perform c Ensures.Anything := by
  cases call with
  | version _ _ | access _ | superClass _ | implements _ | sourceFile _ | defaultConstructor _
  | cache _ => exact bounding_modify fun _ => rfl
  | pool request =>
    exact (bounding_keeps (keeps_onPool (.answer request))).andThen fun _ _ =>
      Ensures.pure _ fun _ => True.intro
  | field flags name type => exact bounding_addField flags name type []
  | constantField flags name type value =>
    change bounding.Ensures (constantField flags name type value) c _
    unfold constantField
    split
    · exact (bounding_keeps (keeps_onPool (.literal value))).andThen fun _ _ =>
        bounding_addField ..
    · exact Ensures.throw _
  | code head steps => exact bounding_declare head (some steps)
  | noCode head => exact bounding_declare head none

theorem bounding_move (move : Move) : bounding.Ensures move.perform c Ensures.Anything := by
  cases move with
  | call x => exact (bounding_call x).andThen fun _ _ => Ensures.pure _ fun _ => True.intro
  | exchange p bounded => exact ⟨fun _ => ⟨bounded, True.intro, True.intro⟩⟩
  | pool change =>
    cases change with
    | intern e =>
      exact bounding_keeps (keeps_onPool ((Pool.Interns.intern e).bind fun _ => .pure _))
    | request r =>
      exact bounding_keeps (keeps_onPool ((Pool.Interns.answer r).bind fun _ => .pure _))
    | truncate n => exact ⟨fun bounded => ⟨bounded.truncate n, True.intro, True.intro⟩⟩

theorem bounded_moved (bounded : c.pool.Bounded) (moves : List Move) :
    (c.moved moves).pool.Bounded := by
  induction moves generalizing c with
  | nil => exact bounded
  | cons move rest ih =>
    have outcome := (bounding_move move (c := { c with lastRun := none })).outcome bounded
    refine ih (c := move.apply c) ?_
    unfold Move.apply Move.run
    cases h : move.perform { c with lastRun := none } with
    | ok i d | error e d =>
      rw [h] at outcome
      exact outcome.1

/-- A method that cannot be added leaves the class as it was, and nothing that follows can tell
that it was tried. One that can be added is all that the class has more. -/
theorem declare_all_or_nothing (name : String) (before : List Move) (h : MethodHead)
    (body : Option Listing) : let c := (ofName name).moved before
    match declare h body c with
    | .error _ d => d.pool.slots = c.pool.slots ∧ (∀ e, d.pool.find? e = c.pool.find? e) ∧
        d.fields = c.fields ∧ d.methods = c.methods ∧ d.hasConstructor = c.hasConstructor ∧
        ∀ later, d.answers later = c.answers later ∧ (d.moved later).bytes = (c.moved later).bytes
    | .ok _ d => (∃ m, d.methods = c.methods.push m) ∧ d.fields = c.fields ∧
        d.pool.Extends c.pool ∧ ∀ e i, c.pool.find? e = some i → d.pool.find? e = some i := by
  intro c
  have bounded : c.pool.Bounded := bounded_moved Pool.Reached.new.bounded before
  have outcome := allOrNothing_declare bounded h body
  cases made : declare h body c with
  | ok u d =>
    rw [made] at outcome
    exact ⟨outcome.methods, outcome.fields, outcome.pool.slots, outcome.pool.kept⟩
  | error e d =>
    rw [made] at outcome
    have pools : d.pool.Alike c.pool := outcome.pool
    have fields := congrArg ClassBuilder.fields outcome.rest
    have methods := congrArg ClassBuilder.methods outcome.rest
    have hasConstructor := congrArg ClassBuilder.hasConstructor outcome.rest
    refine ⟨pools.slots, pools.find, fields, methods, hasConstructor, fun later => ?_⟩
    obtain ⟨answers, stays⟩ := alike_moved outcome later
    exact ⟨answers, alike_bytes stays⟩

/-- The text and the constant that a body interned are gone with it. -/
example : (match declare { name := "f", descriptor := "()V" }
      (some [.push (.string "x"), .refuse .staticThis]) (ofName "C") with
    | .error _ c => c.pool.isEmpty && c.lastRun.isSome
    | .ok _ _ => false) = true := by
  decide +kernel

end ClassBuilder
end ClassForge
