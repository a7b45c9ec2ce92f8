import ClassForge.Machine.Exec
import ClassForge.Proofs.Machine.Stepping
import ClassForge.Proofs.Pool.Alike

namespace ClassForge

open View (Blind)

namespace Machine

def view : View Machine where
  pool _ := {}
  rest := forgetting
  fixed := forgetting

variable {E : MachineError → Prop} {α : Type} {m m' : Machine}

theorem view_alike (same : m.forgetting = m'.forgetting) : view.Alike m m' := ⟨.refl _, same⟩

theorem eq_of_alike (alike : view.Alike m m') : m = { m' with cache := m.cache } := by
  have rest : m.forgetting = m'.forgetting := alike.rest
  exact congrArg (fun n : Machine => { n with cache := m.cache }) rest

theorem Operates.blind {act : MachineM α} (operates : Operates E act) : view.Blind act := by
  induction operates with
  | pure a => exact .pure a
  | throw kind => exact .throw _
  | @modifyGet α f same plain =>
    intro s t alike
    have left : f s = ((f t).1, { (f t).2 with cache := s.cache }) := by
      rw [eq_of_alike alike]
      exact same t s.cache
    change view.Ends (.ok (f s).1 (f s).2) (.ok (f t).1 (f t).2)
    rw [left]
    exact .ok _ (view_alike rfl)
  | look same _ ih => exact .look same ih
  | decode kind =>
    intro s t alike
    unfold decodeDescriptor
    simp only [DescriptorCache.method?_fst]
    split
    · exact .ok _ ⟨alike.pool, alike.rest⟩
    · exact .error _ ⟨alike.pool, alike.rest⟩
  | bind _ _ ih ihrest => exact ih.bind ihrest

end Machine

namespace Run

def view : View Run where
  pool _ := {}
  rest := forgetting
  fixed := forgetting

variable {writes : Effects} {α : Type}

theorem activation_of_alike {r r' : Run} (alike : view.Alike r r') :
    r.activation = r'.activation := by
  have rest : r.forgetting.activation = r'.forgetting.activation :=
    congrArg Run.activation alike.rest
  exact rest

theorem machine_of_alike {r r' : Run} (alike : view.Alike r r') :
    Machine.view.Alike r.machine r'.machine := by
  have rest : r.forgetting.machine = r'.forgetting.machine := congrArg Run.machine alike.rest
  exact Machine.view_alike rest

theorem view_alike {a : Activation} {m m' : Machine} (alike : Machine.view.Alike m m') :
    view.Alike ⟨a, m⟩ ⟨a, m'⟩ := ⟨.refl _, congrArg (Run.mk a) alike.rest⟩

theorem blind_onMachine {act : MachineM α} (blind : Machine.view.Blind act) :
    view.Blind (onMachine act) := by
  have parts :
      View.OnPart Run.machine (fun r m => { r with machine := m }) act (onMachine act) := by
    intro r
    unfold onMachine
    cases act r.machine <;> rfl
  refine blind.onPart parts ?_ ?_
  · exact fun r r' alike => machine_of_alike alike
  · intro r r' m m' alike machines
    rw [activation_of_alike alike]
    exact view_alike machines

theorem blind_onActivation (f : Activation → Except MachineError Activation) :
    view.Blind (onActivation f) := by
  intro r r' alike
  unfold onActivation
  rw [activation_of_alike alike]
  cases f r'.activation with
  | ok a => exact .ok () ⟨.refl _, congrArg (fun r : Run => { r with activation := a }) alike.rest⟩
  | error e => exact .error e alike

theorem blind_pop : view.Blind pop := by
  intro r r' alike
  unfold pop
  rw [activation_of_alike alike]
  cases r'.activation.pop with
  | ok x =>
    obtain ⟨v, a⟩ := x
    exact .ok v ⟨.refl _, congrArg (fun r : Run => { r with activation := a }) alike.rest⟩
  | error e => exact .error e alike

theorem Operates.blind {act : RunM α} (operates : Operates writes act) : view.Blind act := by
  induction operates with
  | pure a => exact .pure a
  | throw orderly => exact .throw _
  | look same _ ih => exact .look same ih
  | onMachine operates => exact blind_onMachine operates.blind
  | change allowed a f => exact blind_onMachine (.modify (fun _ => rfl) fun _ => rfl)
  | push v => exact blind_onActivation _
  | pop => exact blind_pop
  | store allowed slot v => exact blind_onActivation _
  | increment allowed slot delta => exact blind_onActivation _
  | bind _ _ ih ihrest => exact ih.bind ihrest

theorem blind_setPc (pc : Nat) : view.Blind (setPc pc) := .modify (fun _ => rfl) fun _ => rfl

theorem blind_jump (start next : Nat) (distance : Option Int16) (taken : Bool) :
    view.Blind (jump start next distance taken) := by
  refine .look (fun _ => rfl) fun r => ?_
  dsimp only
  split
  · exact .throw _
  · split
    · split
      · exact .throw _
      · exact blind_setPc _
    · exact blind_setPc _

theorem blind_going {act : RunM Unit} (blind : view.Blind act) : view.Blind (going act) :=
  blind.bind fun _ => .pure _

theorem blind_perform (start next : Nat) (o : Operation (Option Int16)) :
    view.Blind (perform start next o) := by
  cases target : o.target? with
  | none =>
    obtain ⟨work, same, operates, -⟩ := straight_perform start next target
    rw [same]
    exact (blind_setPc next).bind fun _ => operates.blind
  | some t =>
    cases o with
    | branch c d =>
      have tests : Operates {} (test c) := operates_test c
      refine (blind_setPc _).bind fun _ => blind_going ?_
      exact tests.blind.bind fun _ => blind_jump _ _ _ _
    | goto d => exact (blind_setPc _).bind fun _ => blind_going (blind_jump _ _ _ _)
    | _ => cases target

theorem blind_step : view.Blind step := by
  refine .look (fun _ => rfl) fun r => ?_
  dsimp only
  split
  · exact .throw _
  · exact blind_perform _ _ _

end Run

namespace Activation

open Machine

theorem operates_catching (a : Activation) (start : Nat) (v : Value) :
    Operates (fun _ => True) (a.catching start v) := by
  refine .look (fun _ => rfl) fun m => ?_
  dsimp only
  split
  · exact .throw True.intro
  · exact .throw True.intro
  · refine ((operates_note _).mono fun _ _ => True.intro).bind fun _ => ?_
    split
    · exact .throw True.intro
    · exact .pure _

theorem blind_caught {fuel : Nat} (goes : ∀ a : Activation, view.Blind (a.exec fuel))
    (a : Activation) (start : Nat) (v : Value) :
    view.Blind (do (← a.catching start v).exec fuel) :=
  (operates_catching a start v).blind.bind goes

def goOn {α : Type} (fuel : Nat) :
    EStateM.Result MachineError Run α → EStateM.Result MachineError Machine (Option Value)
  | .ok _ r => r.activation.exec fuel r.machine
  | .error e r => .error e r.machine

theorem ends_goOn {α : Type} {fuel : Nat} {x y : EStateM.Result MachineError Run α}
    (goes : ∀ a : Activation, view.Blind (a.exec fuel)) (ends : Run.view.Ends x y) :
    view.Ends (goOn fuel x) (goOn fuel y) := by
  cases ends with
  | ok _ alike =>
    rw [goOn, goOn, Run.activation_of_alike alike]
    exact goes _ _ _ (Run.machine_of_alike alike)
  | error e alike => exact .error e (Run.machine_of_alike alike)

theorem exec_succ_eq (fuel : Nat) (a : Activation) (m : Machine) : a.exec (fuel + 1) m =
    match Run.step ⟨a, m⟩ with
    | .error e r => .error e r.machine
    | .ok .next r => r.activation.exec fuel r.machine
    | .ok (.leave v) r => .ok v r.machine
    | .ok (.raise v) r => (do (← r.activation.catching a.pc v).exec fuel) r.machine
    | .ok (.call callee) r =>
      match callee.exec fuel r.machine with
      | .ok v m => goOn fuel (Run.answered v ⟨r.activation, m⟩)
      | .error (.thrown v) m => (do (← r.activation.catching a.pc v).exec fuel) m
      | .error e m => .error e m := by
  rw [exec]
  dsimp only
  cases Run.step ⟨a, m⟩ with
  | error e r => rfl
  | ok f r =>
    cases f with
    | next | leave v => rfl
    | raise v =>
      dsimp only [bind, EStateM.bind]
      cases r.activation.catching a.pc v r.machine <;> rfl
    | call callee =>
      dsimp only
      cases callee.exec fuel r.machine with
      | ok v m =>
        dsimp only
        cases Run.answered v ⟨r.activation, m⟩ <;> rfl
      | error e m =>
        cases e with
        | thrown v =>
          dsimp only [bind, EStateM.bind]
          cases r.activation.catching a.pc v m <;> rfl
        | _ => rfl

theorem blind_exec (fuel : Nat) (a : Activation) : view.Blind (a.exec fuel) := by
  induction fuel generalizing a with
  | zero => exact .throw _
  | succ fuel ih =>
    intro m m' alike
    have stepped := Run.blind_step ⟨a, m⟩ ⟨a, m'⟩ (Run.view_alike alike)
    rw [exec_succ_eq, exec_succ_eq]
    generalize Run.step ⟨a, m⟩ = x at stepped
    generalize Run.step ⟨a, m'⟩ = y at stepped
    cases stepped with
    | error e alike => exact .error e (Run.machine_of_alike alike)
    | @ok r r' f alike =>
      have machines := Run.machine_of_alike alike
      obtain ⟨b, m⟩ := r
      obtain ⟨b', m'⟩ := r'
      obtain rfl : b = b' := Run.activation_of_alike alike
      cases f with
      | next => exact ih _ _ _ machines
      | leave v => exact .ok v machines
      | raise v => exact blind_caught ih _ _ _ _ _ machines
      | call callee =>
        have called := ih callee _ _ machines
        dsimp only at called ⊢
        generalize callee.exec fuel m = x at called
        generalize callee.exec fuel m' = y at called
        cases called with
        | @ok m m' v machines =>
          have answers : Run.Operates {} (Run.answered v) := Run.operates_answered v
          exact ends_goOn ih (answers.blind _ _ (Run.view_alike machines))
        | error e machines =>
          cases e with
          | thrown v => exact blind_caught ih _ _ _ _ _ machines
          | _ => exact .error _ machines

end Activation

namespace Machine

theorem Operates.ordinary {α : Type} {act : MachineM α} (operates : Operates (·.orderly) act) :
    Operates (·.ordinary) act :=
  operates.mono fun _ orderly => (MachineError.orderly_iff.1 orderly).1

theorem operates_loadMethod (owner : String) (p : Pool) (f : Member) :
    Operates (·.ordinary) (loadMethod owner p f) := by
  refine (operates_readable _ _).ordinary.bind fun name => ?_
  refine (operates_readable _ _).ordinary.bind fun descriptor => ?_
  refine (operates_decodeDescriptor _).ordinary.bind fun d => ?_
  dsimp only
  split
  · exact .pure _
  · split
    · exact .throw rfl
    · split
      · exact (operates_violation rfl).ordinary
      · exact .pure _

theorem operates_declare (c : ClassFile) (name : String) :
    Operates (·.ordinary) (declare c name) := by
  refine (Operates.foldlM (fun _ _ => operates_loadField _ _ _) _).ordinary.bind fun fields => ?_
  exact (Operates.mapM fun _ => operates_loadMethod _ _ _).bind fun _ => .pure _

theorem operates_define (bytes : List UInt8) : Operates (·.ordinary) (define bytes) := by
  refine (operates_parse bytes).ordinary.bind fun c => ?_
  refine (operates_readable _ _).ordinary.bind fun name => .look (fun _ => rfl) fun m => ?_
  split
  · exact .throw rfl
  · split
    · exact (operates_violation rfl).ordinary
    · refine (operates_resolve _).ordinary.bind fun superclass => ?_
      refine (operates_declare c name).bind fun loaded => ?_
      refine (operates_note _).ordinary.bind fun _ => ?_
      exact .bind (.modifyGet (fun _ _ => rfl) fun _ => .refl _) fun _ => .pure _

theorem blind_finish (fuel : Nat) (d : Dispatch) : view.Blind (finish fuel d) := by
  cases d with
  | answered v => exact .pure _
  | entered callee => exact callee.blind_exec fuel

theorem blind_newInstance (fuel : Nat) (name descriptor : String) (args : List Value) :
    view.Blind (newInstance fuel name descriptor args) := by
  refine (operates_resolve name).blind.bind fun c => ?_
  split
  · exact .throw _
  · refine (operates_alloc _).blind.bind fun v => ?_
    refine (Dispatch.operates_enter _ _ _).blind.bind fun d => ?_
    exact (blind_finish fuel d).bind fun _ => .pure _

theorem blind_invokeVirtual (fuel : Nat) (receiver : Value) (name descriptor : String)
    (args : List Value) : view.Blind (invokeVirtual fuel receiver name descriptor args) :=
  (Dispatch.operates_virtual _ _ _).blind.bind (blind_finish fuel)

theorem blind_invokeStatic (fuel : Nat) (owner name descriptor : String) (args : List Value) :
    view.Blind (invokeStatic fuel owner name descriptor args) :=
  (Dispatch.operates_static _ _ _ _).blind.bind (blind_finish fuel)

end Machine
end ClassForge
