import ClassForge.Machine.Dispatch
import ClassForge.Machine.Load
import ClassForge.Proofs.Machine.Heap

namespace ClassForge

/-- The code itself cannot be read or followed. -/
def Violation.misread : Violation → Bool
  | truncated _ | unknownOpcode .. | unknownWide .. | unknownArray _ | leavesCode _ => true
  | _ => false

namespace MachineError

def ordinary : MachineError → Bool
  | .thrown _ => false
  | .verify v => !v.misread
  | _ => true

/-- Nothing goes on after the error, since slots could not be counted. -/
def overflows : MachineError → Bool
  | .slotOverflow | .classFormat .slotOverflow => true
  | _ => false

def orderly (e : MachineError) : Bool := e.ordinary && !e.overflows

theorem orderly_iff {e : MachineError} :
    e.orderly = true ↔ e.ordinary = true ∧ e.overflows = false := by
  rw [orderly, Bool.and_eq_true, Bool.not_eq_true']

theorem orderly_verify {v : Violation} (ordinary : v.misread = false) :
    (verify v).orderly = true := by
  rw [orderly, MachineError.ordinary, ordinary]
  rfl

end MachineError

namespace Machine

def Orderly {α : Type} (act : MachineM α) : Prop :=
  ∀ m e m', act m = .error e m' → e.orderly = true

def forgetting (m : Machine) : Machine := { m with cache := {} }

/-- Steps on a machine that fail with errors of the kind only, and put nothing into fields. What is
remembered of descriptors they ask by decoding one, and by nothing else. -/
inductive Operates (E : MachineError → Prop) : {α : Type} → MachineM α → Prop where
  | pure {α : Type} (a : α) : Operates E (pure a : MachineM α)
  | throw {α : Type} {e : MachineError} (kind : E e) : Operates E (throw e : MachineM α)
  | modifyGet {α : Type} {f : Machine → α × Machine}
    (same : ∀ m known, f { m with cache := known } = ((f m).1, { (f m).2 with cache := known }))
    (plain : ∀ m : Machine, m.heap.KeepsPlain (f m).2.heap) : Operates E (modifyGet f)
  | look {α : Type} {k : Machine → MachineM α} (same : ∀ m, k m = k m.forgetting)
    (next : ∀ m, Operates E (k m)) : Operates E (get >>= k)
  | decode {text : String} (kind : E (.classFormat (.invalidDescriptor text))) :
    Operates E (decodeDescriptor text)
  | bind {α β : Type} {act : MachineM α} {k : α → MachineM β} (first : Operates E act)
    (rest : ∀ a, Operates E (k a)) : Operates E (act >>= k)

section

variable {E F : MachineError → Prop} {α β : Type}

theorem Operates.mono {act : MachineM α} (operates : Operates E act) (wider : ∀ e, E e → F e) :
    Operates F act := by
  induction operates with
  | pure a => exact .pure a
  | throw kind => exact .throw (wider _ kind)
  | modifyGet same plain => exact .modifyGet same plain
  | look same _ ih => exact .look same ih
  | decode kind => exact .decode (wider _ kind)
  | bind _ _ ih ihrest => exact .bind ih ihrest

theorem Operates.fails {act : MachineM α} (operates : Operates E act) {m m' : Machine}
    {e : MachineError} (failed : act m = .error e m') : E e := by
  induction operates generalizing m m' e with
  | pure a => cases failed
  | throw kind =>
    cases failed
    exact kind
  | modifyGet same plain => cases failed
  | look same _ ih => exact ih m failed
  | @decode text kind =>
    simp only [decodeDescriptor] at failed
    split at failed
    · cases failed
    · cases failed
      exact kind
  | @bind _ _ act k _ _ ih ihrest =>
    change EStateM.bind act k m = _ at failed
    unfold EStateM.bind at failed
    cases first : act m with
    | ok a m₁ =>
      rw [first] at failed
      exact ihrest a failed
    | error e₁ m₁ =>
      rw [first] at failed
      cases failed
      exact ih first

/-- The machine behind a step, also if it fails. -/
def behind (result : EStateM.Result MachineError Machine α) : Machine :=
  match result with
  | .ok _ m | .error _ m => m

theorem Operates.keepsPlain {act : MachineM α} (operates : Operates E act) (m : Machine) :
    m.heap.KeepsPlain (behind (act m)).heap := by
  induction operates generalizing m with
  | pure a => exact .refl _
  | throw kind => exact .refl _
  | modifyGet same plain => exact plain m
  | look same _ ih => exact ih m m
  | decode kind =>
    simp only [decodeDescriptor]
    split <;> exact .refl _
  | @bind _ _ act k _ _ ih ihrest =>
    change m.heap.KeepsPlain (behind (EStateM.bind act k m)).heap
    have first := ih m
    unfold EStateM.bind
    cases done : act m with
    | ok a m₁ =>
      rw [done] at first
      exact first.trans (ihrest a m₁)
    | error e m₁ =>
      rw [done] at first
      exact first

theorem Operates.orderly {act : MachineM α} (operates : Operates (·.orderly) act) :
    Orderly act := fun _ _ _ failed => operates.fails failed

theorem operates_violation {v : Violation} (ordinary : v.misread = false) :
    Operates (·.orderly) (violation v : MachineM α) :=
  .throw (MachineError.orderly_verify ordinary)

theorem operates_look {f : Machine → α} (same : ∀ m, f m = f m.forgetting) :
    Operates E (do return f (← get)) :=
  .look (fun m => by rw [same m]) fun m => .pure _

theorem Operates.mapM {γ : Type} {f : β → MachineM γ} {xs : List β} (each : ∀ x, Operates E (f x)) :
    Operates E (xs.mapM f) := by
  induction xs with
  | nil => exact .pure _
  | cons x rest ih =>
    rw [List.mapM_cons]
    exact (each x).bind fun _ => ih.bind fun _ => .pure _

theorem Operates.foldlM {γ : Type} {f : γ → β → MachineM γ} {xs : List β}
    (each : ∀ before x, Operates E (f before x)) (start : γ) :
    Operates E (xs.foldlM f start) := by
  induction xs generalizing start with
  | nil => exact .pure _
  | cons x rest ih =>
    rw [List.foldlM_cons]
    exact (each start x).bind ih

end

theorem operates_note (e : Event) : Operates (·.orderly) (note e) :=
  .modifyGet (fun _ _ => rfl) fun _ => .refl _

theorem operates_resolve (name : String) : Operates (·.orderly) (resolve name) := by
  refine .look (fun _ => rfl) fun m => ?_
  split
  · exact .pure _
  · exact .throw rfl

theorem operates_alloc (o : Object) : Operates (·.orderly) (alloc o) :=
  .modifyGet (fun _ _ => rfl) fun m => (m.heap.grown_alloc o).keepsPlain

theorem operates_change (a : Address) {f : Object → Object}
    (spares : ∀ k fields, f (.plain k fields) = .plain k fields) :
    Operates (·.orderly) (change a f) :=
  .modifyGet (fun _ _ => rfl) fun _ => Heap.keepsPlain_modify a spares

theorem operates_ofLiteral (l : Literal) : Operates (·.orderly) (ofLiteral l) := by
  cases l with
  | string s => exact operates_alloc _
  | _ => exact .pure _

mutual

theorem operates_build : ∀ r : Response, Operates (·.orderly) (build r)
  | .value _ => by
    rw [build]
    exact .pure _
  | .literal l => by
    rw [build]
    exact operates_ofLiteral l
  | .builder s => by
    rw [build]
    exact operates_alloc _
  | .box wrapper content => by
    rw [build]
    apply (operates_build content).bind
    intro v
    exact operates_alloc _
  | .array component elements => by
    rw [build]
    apply (operates_buildAll elements).bind
    intro vs
    exact operates_alloc _
  | .plain c => by
    rw [build]
    exact operates_alloc _
  | .handler interface answer => by
    rw [build]
    exact operates_alloc _

theorem operates_buildAll : ∀ rs : List Response, Operates (·.orderly) (buildAll rs)
  | [] => by
    rw [buildAll]
    exact .pure _
  | r :: rest => by
    rw [buildAll]
    apply (operates_build r).bind
    intro v
    apply (operates_buildAll rest).bind
    intro vs
    exact .pure _

end

theorem operates_target (v : Value) : Operates (·.orderly) (target v) := by
  cases v with
  | reference a => exact .pure _
  | null => exact .throw rfl
  | _ =>
    refine .look (fun _ => rfl) fun m => ?_
    exact operates_violation rfl

theorem operates_object (a : Address) : Operates (·.orderly) (object a) :=
  operates_look fun _ => rfl

theorem operates_getField (v : Value) (name : String) : Operates (·.orderly) (getField v name) := by
  apply (operates_target v).bind
  intro a
  apply (operates_object a).bind
  intro o
  split
  · split
    · exact .pure _
    · exact .throw rfl
  · exact .throw rfl

theorem staticOwner?_forgetting (m : Machine) (field : String) (c : LoadedClass) :
    m.forgetting.staticOwner? field c = m.staticOwner? field c := by
  induction c with
  | root => rfl
  | extending own superclass ih =>
    rw [staticOwner?, staticOwner?, ih]
    rfl

theorem operates_getStatic (c : LoadedClass) (name : String) :
    Operates (·.orderly) (getStatic c name) := by
  refine .look (fun m => ?_) fun m => ?_
  · rw [staticOwner?_forgetting]
    rfl
  · split
    · exact .pure _
    · exact .throw rfl

theorem operates_putStatic (c : LoadedClass) (name : String) (new : Value) :
    Operates (·.orderly) (putStatic c name new) := by
  refine .look (fun m => ?_) fun m => ?_
  · rw [staticOwner?_forgetting]
  · split
    · exact .modifyGet (fun _ _ => rfl) fun _ => .refl _
    · exact .throw rfl

theorem operates_decodeDescriptor (descriptor : String) :
    Operates (·.orderly) (decodeDescriptor descriptor) := .decode rfl

theorem operates_readable (part : NamedPart) (text : Option String) :
    Operates (·.orderly) (readable part text) := by
  cases text with
  | some s => exact .pure s
  | none => exact operates_violation rfl

theorem operates_startOf (p : Pool) (f : Member) (type : FieldType) :
    Operates (·.orderly) (startOf p f type) := by
  rw [startOf]
  split
  · exact operates_ofLiteral _
  · exact .pure _

theorem operates_loadField (p : Pool) (fields : Fields) (f : Member) :
    Operates (·.orderly) (loadField p fields f) := by
  apply (operates_readable _ _).bind
  intro name
  apply (operates_readable _ _).bind
  intro descriptor
  split
  · exact .throw rfl
  · dsimp only
    split
    · apply (operates_startOf _ _ _).bind
      intro v
      exact .pure _
    · exact .pure _

theorem operates_parse (bytes : List UInt8) : Operates (·.orderly) (parse bytes) := by
  refine .bind (.modifyGet (fun _ _ => rfl) fun _ => .refl _) fun _ => ?_
  split
  · exact .pure _
  · rename_i e refused
    rw [ClassFile.parse] at refused
    split at refused
    · cases refused
    · cases refused
      exact .throw rfl

end Machine

namespace Native

open Machine

theorem operates_textArgument (args : List Value) : Operates (·.orderly) (textArgument args) := by
  cases args with
  | nil => exact operates_violation rfl
  | cons v rest => exact operates_look fun _ => rfl

theorem operates_charArgument (args : List Value) : Operates (·.orderly) (charArgument args) := by
  rw [charArgument]
  split
  · exact .pure _
  · exact operates_violation rfl

theorem operates_appendText (a : Address) (text : String) :
    Operates (·.orderly) (appendText a text) :=
  operates_change _ fun _ _ => rfl

theorem operates_answerString (s : String) : Operates (·.orderly) (answerString s) := by
  apply (operates_alloc _).bind
  intro v
  exact .pure _

def Tame (action : Option Action) : Prop := ∀ act, action = some act → Operates (·.orderly) act

theorem tame_none : Tame none := by
  intro act found
  cases found

theorem tame_some {act : Action} (operates : Operates (·.orderly) act) : Tame (some act) := by
  intro act' found
  cases found
  exact operates

theorem tame_special (a : Address) (o : Object) (name descriptor : String) (args : List Value) :
    Tame (special? a o name descriptor args) := by
  cases o with
  | builder s =>
    rw [special?]
    split
    · exact tame_none
    · split
      · exact tame_some (.pure _)
      · split
        · apply tame_some
          apply (operates_textArgument _).bind
          intro text
          apply (operates_appendText _ _).bind
          intro _
          exact .pure _
        · exact tame_none
  | _ => exact tame_none

theorem tame_builderMethod (a : Address) (s name descriptor : String) (args : List Value) :
    Tame (builderMethod? a s name descriptor args) := by
  rw [builderMethod?]
  split
  · split
    · apply tame_some
      apply (operates_charArgument _).bind
      intro c
      apply (operates_appendText _ _).bind
      intro _
      exact .pure _
    · split
      · apply tame_some
        apply (operates_appendText _ _).bind
        intro _
        exact .pure _
      · split
        · apply tame_some
          apply (operates_textArgument _).bind
          intro text
          apply (operates_appendText _ _).bind
          intro _
          exact .pure _
        · exact tame_none
  · split
    · exact tame_some (.pure _)
    · split
      · exact tame_some (operates_answerString _)
      · exact tame_none

theorem tame_stringMethod (a : Address) (s name descriptor : String) (args : List Value) :
    Tame (stringMethod? a s name descriptor args) := by
  rw [stringMethod?]
  split
  · exact tame_some (.pure _)
  · split
    · exact tame_some (.pure _)
    · split
      · apply tame_some
        apply (operates_look fun _ => rfl).bind
        intro other
        split
        · exact operates_answerString _
        · exact .throw rfl
      · split
        · apply tame_some
          apply (operates_look fun _ => rfl).bind
          intro other
          exact .pure _
        · exact tame_none

theorem tame_boxMethod (a : Address) (wrapper : String) (v : Value) (name descriptor : String) :
    Tame (boxMethod? a wrapper v name descriptor) := by
  rw [boxMethod?]
  cases FieldType.ofWrapper? wrapper with
  | none => exact tame_none
  | some wrapped =>
    simp only [Option.bind_eq_bind, Option.bind_some]
    split
    · apply tame_some
      refine .look (fun _ => rfl) fun m => ?_
      exact operates_answerString _
    · cases unboxed? wrapped v name descriptor with
      | none => exact tame_none
      | some u => exact tame_some (.pure _)

theorem tame_virtual (a : Address) (o : Object) (name descriptor : String) (args : List Value) :
    Tame (virtual? a o name descriptor args) := by
  cases o with
  | builder s => exact tame_builderMethod a s name descriptor args
  | string s => exact tame_stringMethod a s name descriptor args
  | box wrapper v => exact tame_boxMethod a wrapper v name descriptor
  | _ => exact tame_none

theorem operates_valueText (descriptor : String) (args : List Value) :
    Operates (·.orderly) (valueText descriptor args) := by
  rw [valueText]
  split
  · apply (operates_charArgument _).bind
    intro c
    exact .pure _
  · split
    · exact .pure _
    · exact operates_textArgument _

theorem tame_static (owner name descriptor : String) (args : List Value) :
    Tame (static? owner name descriptor args) := by
  unfold static?
  split
  · apply tame_some
    apply (operates_valueText _ _).bind
    intro text
    exact operates_answerString _
  · cases FieldType.ofWrapper? owner with
    | none => exact tame_none
    | some wrapped =>
      simp only [Option.bind_eq_bind, Option.bind_some]
      split
      · apply tame_some
        split
        · apply (operates_alloc _).bind
          intro v
          exact .pure _
        · exact operates_violation rfl
      · exact tame_none

end Native

namespace Dispatch

open Machine Native

theorem operates_enter (owner : LoadedClass) (m : Method) (args : List Value) :
    Operates (·.orderly) (enter owner m args) := by
  rw [enter]
  split
  · exact operates_violation rfl
  · split
    · rename_i code found v refused
      rw [Activation.ofCode] at refused
      split at refused
      · cases refused
        exact operates_violation rfl
      · cases refused
    · apply (operates_note _).bind
      intro _
      exact .pure _

theorem operates_native {owner name descriptor : String} {action : Option Action}
    (tame : Tame action) : Operates (·.orderly) (native owner name descriptor action) := by
  cases action with
  | none => exact .throw rfl
  | some act =>
    apply (tame act rfl).bind
    intro v
    exact .pure _

theorem operates_callHandler (h : ProxyHandler) (name descriptor : String) (args : List Value) :
    Operates (·.orderly) (callHandler h name descriptor args) := by
  have called (m : Machine) (proxy : Value) (method : String) (elements : List Value) :
      Operates (·.orderly) (do
        note (.handlerInvoked h.interface method)
        modify fun now => { now with calls := now.calls.push ⟨m.heap, proxy, method, elements⟩ }
        return Dispatch.answered (some (← build (h.answer m.calls.size proxy method elements)))) := by
    apply (operates_note _).bind
    intro _
    refine .bind (.modifyGet (fun _ _ => rfl) fun _ => .refl _) fun _ => ?_
    apply (operates_build _).bind
    intro v
    exact .pure _
  unfold callHandler
  split
  · split
    · exact .throw rfl
    · refine .look (fun _ => rfl) fun m => ?_
      dsimp only
      split
      · exact .throw rfl
      · split
        · exact called _ _ _ _
        · exact operates_violation rfl
        · exact called _ _ _ _
  · exact .throw rfl

theorem operates_receiver (args : List Value) : Operates (·.orderly) (receiver args) := by
  cases args with
  | nil => exact operates_violation rfl
  | cons v rest => exact operates_target v

theorem operates_virtual (name descriptor : String) (args : List Value) :
    Operates (·.orderly) (virtual name descriptor args) := by
  apply (operates_receiver args).bind
  intro a
  apply (operates_object a).bind
  intro o
  split
  · split
    · exact operates_enter _ _ _
    · exact .throw rfl
  · exact operates_callHandler _ _ _ _
  · exact operates_native (tame_virtual _ _ _ _ _)

theorem operates_special (owner name descriptor : String) (args : List Value) :
    Operates (·.orderly) (special owner name descriptor args) := by
  apply (operates_receiver args).bind
  intro a
  split
  · exact .pure _
  · split
    · apply (operates_object a).bind
      intro o
      exact operates_native (tame_special _ _ _ _ _)
    · apply (operates_resolve owner).bind
      intro c
      generalize (if name = constructorName then (c.declaredMethod? name descriptor).map (c, ·)
        else c.findMethod? name descriptor) = found
      cases found with
      | none => exact .throw rfl
      | some found => exact operates_enter _ _ _

theorem operates_static (owner name descriptor : String) (args : List Value) :
    Operates (·.orderly) (static owner name descriptor args) := by
  rw [static]
  split
  · exact operates_native (tame_static _ _ _ _)
  · apply (operates_resolve owner).bind
    intro c
    split
    · split
      · exact operates_enter _ _ _
      · exact .throw rfl
    · exact .throw rfl

end Dispatch
end ClassForge
