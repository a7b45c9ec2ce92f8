import ClassForge.Code.Listing
import ClassForge.Proofs.Pool.Alike

namespace ClassForge

structure Span where
  start : Nat
  width : Nat
deriving DecidableEq, Repr

namespace Span

def stop (s : Span) : Nat := s.start + s.width

def Apart (s t : Span) : Prop := s.stop ≤ t.start ∨ t.stop ≤ s.start

end Span

def Operation.span? {τ : Type} : Operation τ → Option Span
  | load kind slot | store kind slot => some ⟨slot.toNat, kind.slots⟩
  | increment slot _ => some ⟨slot.toNat, ValueKind.int.slots⟩
  | _ => none

def Item.span? : Item → Option Span
  | instruction i => i.operation.span?
  | _ => none

/-- What calls leave in a body, apart from scopes. -/
inductive Record where
  | item (i : Item)
  | protection (p : Protection)
deriving DecidableEq, Repr

def Record.Plain : Record → Prop
  | item (.instruction _) => True
  | _ => False

def Step.isMark : Step → Bool
  | place _ | line _ | tryCatch .. => true
  | _ => false

namespace Body

open Record (Plain)

def view : View Body := ⟨Body.pool, fun b => { b with pool := {}, cache := {} }, fun _ => default⟩

/-- Steps that operations on a body consist of, if they record nothing but what `R` is true of.
Locals that an instruction gets at are touched before it. -/
inductive Operates (R : Record → Prop) : {α : Type} → BodyM α → Prop where
  | pure {α : Type} (a : α) : Operates R (pure a)
  | throw {α : Type} (e : Error) : Operates R (throw e : BodyM α)
  | onPool {α : Type} {m : PoolM α} (interns : Pool.Interns m) : Operates R (onPool m)
  | method (descriptor : String) : Operates R (method descriptor)
  | item (i : Item) (free : i.span? = none) (recorded : R (.item i)) : Operates R (addItem i)
  | touch (slot : UInt16) (kind : ValueKind) : Operates R (touch slot kind)
  | use (slot : UInt16) (kind : ValueKind) (o : Operation Label) (pops pushes : Nat)
    (span : o.span? = some ⟨slot.toNat, kind.slots⟩)
    (recorded : R (.item (.instruction ⟨o, pops, pushes⟩))) :
    Operates R (do Body.touch slot kind; emit o pops pushes)
  | newLabel : Operates R newLabel
  | declareMaxStack (n : UInt16) : Operates R (declareMaxStack n)
  | protection (x : Protection) (recorded : R (.protection x)) :
    Operates R (modify fun b => { b with protections := b.protections.push x } : BodyM Unit)
  | scope (x : Scope) :
    Operates R (modify fun b => { b with scopes := b.scopes.push x } : BodyM Unit)
  | look {β : Type} {k : Body → BodyM β} (same : ∀ b, k b = k (view.rest b))
    (next : ∀ b, Operates R (k b)) : Operates R (get >>= k)
  | bind {α β : Type} {m : BodyM α} {k : α → BodyM β} (first : Operates R m)
    (next : ∀ a, Operates R (k a)) : Operates R (m >>= k)

variable {α : Type} {R S : Record → Prop}

theorem Operates.mono {m : BodyM α} (operates : Operates R m) (wider : ∀ r, R r → S r) :
    Operates S m := by
  induction operates with
  | pure a => exact .pure a
  | throw e => exact .throw e
  | onPool interns => exact .onPool interns
  | method descriptor => exact .method descriptor
  | item i free recorded => exact .item i free (wider _ recorded)
  | touch slot kind => exact .touch slot kind
  | use slot kind o pops pushes span recorded =>
    exact .use slot kind o pops pushes span (wider _ recorded)
  | newLabel => exact .newLabel
  | declareMaxStack n => exact .declareMaxStack n
  | protection x recorded => exact .protection x (wider _ recorded)
  | scope x => exact .scope x
  | look same _ ih => exact .look same ih
  | bind _ _ ih ihnext => exact ih.bind ihnext

theorem Operates.forM {xs : List α} {f : α → BodyM PUnit}
    (each : ∀ x, Operates R (f x)) : Operates R (xs.forM f) := by
  induction xs with
  | nil => exact .pure _
  | cons x rest ih => exact (each x).bind fun _ => ih

theorem operates_emit (o : Operation Label) (pops pushes : Nat) (free : o.span? = none) :
    Operates Plain (emit o pops pushes) := .item _ free trivial

theorem operates_emit_index {m : PoolM Index} (interns : Pool.Interns m)
    (o : Index → Operation Label) (pops pushes : Nat) (free : ∀ i, (o i).span? = none) :
    Operates Plain (do let i ← onPool m; emit (o i) pops pushes) :=
  (Operates.onPool interns).bind fun i => operates_emit (o i) pops pushes (free i)

theorem operates_pushInt (v : Int32) : Operates Plain (pushInt v) := by
  unfold pushInt
  split
  · exact operates_emit _ _ _ rfl
  · exact operates_emit_index (.intern _) _ _ _ fun _ => rfl

theorem operates_pushLong (v : Int64) : Operates Plain (pushLong v) := by
  unfold pushLong
  split
  · exact operates_emit _ _ _ rfl
  · split
    · exact operates_emit _ _ _ rfl
    · exact operates_emit_index (.intern _) _ _ _ fun _ => rfl

theorem operates_pushFloat (bits : UInt32) : Operates Plain (pushFloat bits) := by
  unfold pushFloat
  split
  · exact operates_emit _ _ _ rfl
  · split
    · exact operates_emit _ _ _ rfl
    · split
      · exact operates_emit _ _ _ rfl
      · exact operates_emit_index (.intern _) _ _ _ fun _ => rfl

theorem operates_pushDouble (bits : UInt64) : Operates Plain (pushDouble bits) := by
  unfold pushDouble
  split
  · exact operates_emit _ _ _ rfl
  · split
    · exact operates_emit _ _ _ rfl
    · exact operates_emit_index (.intern _) _ _ _ fun _ => rfl

theorem operates_pushLiteral (l : Literal) : Operates Plain (pushLiteral l) := by
  cases l with
  | int v => exact operates_pushInt v
  | long v => exact operates_pushLong v
  | float bits => exact operates_pushFloat bits
  | double bits => exact operates_pushDouble bits
  | string s => exact operates_emit_index (.string s) _ _ _ fun _ => rfl

theorem operates_load (kind : ValueKind) (slot : UInt16) : Operates Plain (load kind slot) :=
  .use slot kind _ _ _ rfl trivial

theorem operates_store (kind : ValueKind) (slot : UInt16) : Operates Plain (store kind slot) :=
  .use slot kind _ _ _ rfl trivial

theorem operates_loadThis : Operates Plain loadThis := by
  refine Operates.look (fun _ => rfl) fun b => ?_
  split
  · exact .throw _
  · exact operates_load _ _

theorem operates_paramSlot (i : Nat) : Operates Plain (paramSlot i) := by
  refine Operates.look (fun _ => rfl) fun b => ?_
  split
  · exact .pure _
  · exact .throw _

theorem operates_loadParam (i : Nat) : Operates Plain (loadParam i) :=
  (operates_paramSlot i).bind fun _ => Operates.look (fun _ => rfl) fun _ => operates_load _ _

theorem operates_loadParams : Operates Plain loadParams :=
  Operates.look (fun _ => rfl) fun _ => .forM operates_loadParam

theorem operates_newLocal (type : FieldType) : Operates Plain (newLocal type) :=
  Operates.look (fun _ => rfl) fun _ => (Operates.touch _ _).bind fun _ => .pure _

theorem operates_increment (slot : UInt16) (delta : Int16) :
    Operates Plain (increment slot delta) :=
  .use slot .int _ _ _ rfl trivial

theorem operates_localVariable (name : String) (type : FieldType) (slot : UInt16)
    (start stop : Label) : Operates Plain (localVariable name type slot start stop) :=
  (Operates.onPool (.utf8 _)).bind fun _ => (Operates.onPool (.utf8 _)).bind fun _ =>
    (Operates.touch _ _).bind fun _ => .scope _

theorem operates_field (access : FieldAccess) (owner name : String) (type : FieldType) :
    Operates Plain (field access owner name type) := by
  refine (Operates.onPool (.member ..)).bind fun i => ?_
  cases access <;> exact operates_emit _ _ _ rfl

theorem operates_callSlots (isStatic : Bool) (d : MethodDescriptor) :
    Operates Plain (callSlots isStatic d) := by
  unfold callSlots
  split
  · exact .pure _
  · exact .throw _

theorem operates_invoke (kind : InvokeKind) (owner name descriptor : String) :
    Operates Plain (invoke kind owner name descriptor) :=
  (Operates.method _).bind fun _ => (operates_callSlots _ _).bind fun _ =>
    operates_emit_index (.member ..) _ _ _ fun _ => rfl

theorem operates_invokeInterface (owner name descriptor : String) :
    Operates Plain (invokeInterface owner name descriptor) := by
  refine (Operates.method _).bind fun d => (operates_callSlots _ _).bind fun pops =>
    (Operates.onPool (.member ..)).bind fun i => ?_
  split
  · exact .throw _
  · exact operates_emit _ _ _ rfl

theorem operates_newObject (name : String) : Operates Plain (newObject name) :=
  operates_emit_index (.classRef name) _ _ _ fun _ => rfl

theorem operates_newArray (component : FieldType) : Operates Plain (newArray component) := by
  unfold newArray
  split
  · exact operates_emit _ _ _ rfl
  · exact operates_emit_index (.classRef _) _ _ _ fun _ => rfl

theorem operates_checkCast (name : String) : Operates Plain (checkCast name) :=
  operates_emit_index (.classRef name) _ _ _ fun _ => rfl

theorem operates_instanceOf (name : String) : Operates Plain (instanceOf name) :=
  operates_emit_index (.classRef name) _ _ _ fun _ => rfl

theorem operates_discard (kind : ValueKind) : Operates Plain (discard kind) := by
  unfold discard
  split <;> exact operates_emit _ _ _ rfl

theorem operates_arithmetic (kind : ValueKind) (operator : Arithmetic) :
    Operates Plain (arithmetic kind operator) := by
  unfold arithmetic
  split
  · exact operates_emit _ _ _ rfl
  · exact .throw _

theorem operates_negate (kind : ValueKind) : Operates Plain (negate kind) := by
  unfold negate
  split
  · exact operates_emit _ _ _ rfl
  · exact .throw _

theorem operates_convert (source target : ValueKind) : Operates Plain (convert source target) := by
  unfold convert
  split
  · split
    · exact operates_emit _ _ _ rfl
    · exact .pure ()
  · exact .throw _

theorem operates_leave : Operates Plain leave := by
  refine Operates.look (fun _ => rfl) fun b => ?_
  split <;> exact operates_emit _ _ _ rfl

theorem operates_tryCatch (start stop handler : Label) (caught : Option String) :
    Operates (fun _ => True) (tryCatch start stop handler caught) := by
  unfold tryCatch
  cases caught with
  | none => exact (Operates.pure _).bind fun _ => .protection _ trivial
  | some name => exact (Operates.onPool (.classRef name)).bind fun _ => .protection _ trivial

theorem operates_box (type : FieldType) : Operates Plain (box type) := by
  unfold box
  split
  · exact operates_invoke ..
  · exact .pure ()

theorem operates_unbox (type : FieldType) : Operates Plain (unbox type) := by
  unfold unbox
  split
  · exact (operates_checkCast _).bind fun _ => operates_invoke ..
  · split
    · exact .pure ()
    · exact operates_checkCast _

end Body

namespace Assembly

open Discipline

def view : View Assembly where
  pool a := a.body.pool
  rest a := { a with body := Body.view.rest a.body }
  fixed _ := { body := default }

/-- Steps that those of a listing consist of, if they record nothing but what `R` is true of. -/
inductive Operates (R : Record → Prop) : {α : Type} → AssemblyM α → Prop where
  | pure {α : Type} (a : α) : Operates R (pure a)
  | throw {α : Type} (e : Error) : Operates R (throw e : AssemblyM α)
  | onBody {α : Type} {m : BodyM α} (operates : Body.Operates R m) : Operates R (onBody m)
  | aside {f : Assembly → Assembly} (body : ∀ a, (f a).body = a.body)
    (rest : ∀ a, view.rest (f a) = view.rest (f (view.rest a))) :
    Operates R (modify f : AssemblyM Unit)
  | look {β : Type} {k : Assembly → AssemblyM β} (same : ∀ a, k a = k (view.rest a))
    (next : ∀ a, Operates R (k a)) : Operates R (get >>= k)
  | bind {α β : Type} {m : AssemblyM α} {k : α → AssemblyM β} (first : Operates R m)
    (next : ∀ a, Operates R (k a)) : Operates R (m >>= k)

variable {α : Type} {R S : Record → Prop}

theorem Operates.mono {m : AssemblyM α} (operates : Operates R m) (wider : ∀ r, R r → S r) :
    Operates S m := by
  induction operates with
  | pure a => exact .pure a
  | throw e => exact .throw e
  | onBody operates => exact .onBody (operates.mono wider)
  | aside body rest => exact .aside body rest
  | look same _ ih => exact .look same ih
  | bind _ _ ih ihnext => exact ih.bind ihnext

def ofBody (D : Discipline Body) : Discipline Assembly where
  Holds a := D.Holds a.body
  Onward a b := D.Onward a.body b.body
  refl a := D.refl a.body
  trans := D.trans

theorem ensures_onBody {D : Discipline Body} {m : BodyM α} {a : Assembly}
    {gives : α → Body → Prop} (ensures : D.Ensures m a.body gives) :
    (ofBody D).Ensures (onBody m) a fun x b => gives x b.body := by
  constructor
  intro holds
  have outcome := ensures.outcome holds
  unfold onBody
  dsimp only
  cases h : m a.body with
  | ok x b | error e b =>
    rw [h] at outcome
    exact outcome

theorem Operates.ensures {D : Discipline Body}
    (each : ∀ {β : Type} {m : BodyM β}, Body.Operates R m → ∀ b, D.Ensures m b Ensures.Anything)
    {m : AssemblyM α} (operates : Operates R m) (a : Assembly) :
    (ofBody D).Ensures m a Ensures.Anything := by
  induction operates generalizing a with
  | pure x => exact Ensures.pure x fun _ => trivial
  | throw e => exact Ensures.throw e
  | onBody operates => exact (ensures_onBody (each operates a.body)).anything
  | @aside f body rest =>
    refine Ensures.modify fun holds => ⟨?_, ?_, trivial⟩
    · change D.Holds (f a).body
      rw [body a]
      exact holds
    · change D.Onward a.body (f a).body
      rw [body a]
      exact D.refl a.body
  | look same next ih => exact Ensures.get.andThen fun here c => ih here c
  | bind first next ih ihnext => exact (ih a).andThen fun x c => ihnext x c

theorem operates_labelNamed (name : String) : Operates R (labelNamed name) := by
  refine Operates.look (fun _ => rfl) fun a => ?_
  split
  · exact .pure _
  · exact .throw _

theorem operates_slotOf (slot : SlotRef) : Operates R (slotOf slot) := by
  cases slot with
  | number s => exact .pure s
  | named name =>
    refine Operates.look (fun _ => rfl) fun a => ?_
    split
    · exact .pure _
    · exact .throw _

theorem operates_nothing {m : BodyM Unit} (operates : Body.Operates R m) :
    Operates R (nothing m) :=
  (Operates.onBody operates).bind fun _ => .pure _

open Body in
theorem operates_plain {step : Step} (plain : step.isMark = false) :
    Operates Record.Plain (perform step) := by
  cases step with
  | label name =>
    exact (Operates.onBody .newLabel).bind fun l =>
      Operates.bind (.aside (fun _ => rfl) fun _ => rfl) fun _ => .pure _
  | place | line | tryCatch => cases plain
  | maxStack n => exact operates_nothing (.declareMaxStack n)
  | needsStackMap => exact Operates.look (fun _ => rfl) fun _ => .pure _
  | descriptor => exact Operates.look (fun _ => rfl) fun _ => .pure _
  | poolText t => exact (Operates.onBody (.onPool (.utf8 t))).bind fun _ => .pure _
  | poolIntegers first n =>
    exact operates_nothing ((Operates.onPool (.integersFrom first n)).bind fun _ => .pure _)
  | pool request => exact (Operates.onBody (.onPool (.answer request))).bind fun _ => .pure _
  | refuse reason => exact .throw _
  | pushNull => exact operates_nothing (operates_emit _ _ _ rfl)
  | push v => exact operates_nothing (operates_pushLiteral v)
  | load k s => exact (operates_slotOf s).bind fun _ => operates_nothing (operates_load _ _)
  | store k s => exact (operates_slotOf s).bind fun _ => operates_nothing (operates_store _ _)
  | loadThis => exact operates_nothing operates_loadThis
  | paramSlot i => exact (Operates.onBody (operates_paramSlot i)).bind fun _ => .pure _
  | loadParam i => exact operates_nothing (operates_loadParam i)
  | loadParams => exact operates_nothing operates_loadParams
  | newLocal t name =>
    refine (Operates.onBody (operates_newLocal t)).bind fun s => ?_
    cases name with
    | none => exact (Operates.pure _).bind fun _ => .pure _
    | some name => exact Operates.bind (.aside (fun _ => rfl) fun _ => rfl) fun _ => .pure _
  | increment s d =>
    exact (operates_slotOf s).bind fun _ => operates_nothing (operates_increment _ _)
  | localVariable n t s start stop =>
    exact (operates_slotOf s).bind fun _ => (operates_labelNamed _).bind fun _ =>
      (operates_labelNamed _).bind fun _ => operates_nothing (operates_localVariable ..)
  | field access o n t => exact operates_nothing (operates_field access o n t)
  | invoke k o n d => exact operates_nothing (operates_invoke k o n d)
  | invokeInterface o n d => exact operates_nothing (operates_invokeInterface o n d)
  | newObject n => exact operates_nothing (operates_newObject n)
  | newArray t => exact operates_nothing (operates_newArray t)
  | arrayLength | arrayLoad t | arrayStore t => exact operates_nothing (operates_emit _ _ _ rfl)
  | checkCast n => exact operates_nothing (operates_checkCast n)
  | instanceOf n => exact operates_nothing (operates_instanceOf n)
  | dup | dupX1 | dup2 | pop | pop2 | swap | raise =>
    exact operates_nothing (operates_emit _ _ _ rfl)
  | discard k => exact operates_nothing (operates_discard k)
  | arithmetic k o => exact operates_nothing (operates_arithmetic k o)
  | negate k => exact operates_nothing (operates_negate k)
  | convert k j => exact operates_nothing (operates_convert k j)
  | branch c label | goto label =>
    exact (operates_labelNamed _).bind fun _ => operates_nothing (operates_emit _ _ _ rfl)
  | leave => exact operates_nothing operates_leave
  | box t => exact operates_nothing (operates_box t)
  | unbox t => exact operates_nothing (operates_unbox t)
  | badType spelled => exact .throw _
  | «repeat» | attempt => exact .pure _

theorem operates_perform (step : Step) : Operates (fun _ => True) (perform step) := by
  by_cases plain : step.isMark = false
  · exact (operates_plain plain).mono fun _ _ => trivial
  · cases step with
    | place label =>
      exact (operates_labelNamed _).bind fun _ => operates_nothing (.item _ rfl trivial)
    | line n => exact operates_nothing (.item _ rfl trivial)
    | tryCatch start stop handler caught =>
      exact (operates_labelNamed _).bind fun _ => (operates_labelNamed _).bind fun _ =>
        (operates_labelNamed _).bind fun _ => operates_nothing (Body.operates_tryCatch ..)
    | _ => exact absurd rfl plain

theorem runStep_attempt (steps : List Step) (a : Assembly) :
    runStep (.attempt steps) a = match runSteps steps a with
      | .ok _ b | .error _ b => .ok () b :=
  rfl

end Assembly
end ClassForge
