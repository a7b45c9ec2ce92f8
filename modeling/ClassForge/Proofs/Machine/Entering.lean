import ClassForge.Proofs.Machine.Stepping
import ClassForge.Proofs.Outcome

namespace ClassForge

def Activation.Entered (a : Activation) : Prop :=
  ∃ owner name code args, Activation.ofCode owner name code args = .ok a

namespace Dispatch

open Outcome

def Enters (act : MachineM Dispatch) : Prop :=
  ∀ m callee m', act m = .ok (.entered callee) m' → callee.Entered

theorem enters_throw (e : MachineError) : Enters (throw e) := by
  intro m callee m' done
  cases done

theorem enters_answered (v : Option Value) : Enters (pure (.answered v)) := by
  intro m callee m' done
  cases done

theorem Enters.bind {α : Type} {act : MachineM α} {k : α → MachineM Dispatch}
    (rest : ∀ a, Enters (k a)) : Enters (act >>= k) := by
  intro m callee m' done
  obtain ⟨a, m₁, -, done⟩ := run_bind_eq_ok.1 done
  exact rest a m₁ callee m' done

theorem enters_enter (owner : LoadedClass) (method : Method) (args : List Value) :
    Enters (enter owner method args) := by
  rw [enter]
  split
  · exact enters_throw _
  · rename_i code _
    split
    · exact enters_throw _
    · rename_i a entered
      intro m callee m' done
      obtain ⟨_, m₁, -, done⟩ := run_bind_eq_ok.1 done
      cases done
      exact ⟨owner, method.name, code, args, entered⟩

theorem enters_native (owner name descriptor : String) (action : Option Native.Action) :
    Enters (native owner name descriptor action) := by
  cases action with
  | none => exact enters_throw _
  | some act => exact .bind fun v => enters_answered v

theorem enters_callHandler (h : ProxyHandler) (name descriptor : String) (args : List Value) :
    Enters (callHandler h name descriptor args) := by
  have called (m : Machine) (proxy : Value) (method : String) (elements : List Value) :
      Enters (do
        Machine.note (.handlerInvoked h.interface method)
        modify fun now => { now with calls := now.calls.push ⟨m.heap, proxy, method, elements⟩ }
        return Dispatch.answered (some (← Machine.build (h.answer m.calls.size proxy method elements)))) := by
    apply Enters.bind
    intro _
    apply Enters.bind
    intro _
    apply Enters.bind
    intro v
    exact enters_answered _
  unfold callHandler
  split
  · split
    · exact enters_throw _
    · apply Enters.bind
      intro m
      dsimp only
      split
      · exact enters_throw _
      · split
        · exact called _ _ _ _
        · exact enters_throw _
        · exact called _ _ _ _
  · exact enters_throw _

theorem enters_virtual (name descriptor : String) (args : List Value) :
    Enters (virtual name descriptor args) := by
  apply Enters.bind
  intro a
  apply Enters.bind
  intro o
  split
  · split
    · exact enters_enter _ _ _
    · exact enters_throw _
  · exact enters_callHandler _ _ _ _
  · exact enters_native _ _ _ _

theorem enters_special (owner name descriptor : String) (args : List Value) :
    Enters (special owner name descriptor args) := by
  apply Enters.bind
  intro a
  split
  · exact enters_answered _
  · split
    · apply Enters.bind
      intro o
      exact enters_native _ _ _ _
    · apply Enters.bind
      intro c
      generalize (if name = constructorName then (c.declaredMethod? name descriptor).map (c, ·)
        else c.findMethod? name descriptor) = found
      cases found with
      | none => exact enters_throw _
      | some found => exact enters_enter _ _ _

theorem enters_static (owner name descriptor : String) (args : List Value) :
    Enters (static owner name descriptor args) := by
  rw [static]
  split
  · exact enters_native _ _ _ _
  · apply Enters.bind
    intro c
    split
    · split
      · exact enters_enter _ _ _
      · exact enters_throw _
    · exact enters_throw _

end Dispatch

namespace Run

variable {r r' : Run}

theorem invoke_call {i : Index} {receiver : Nat}
    {dispatch : MemberRef → List Value → MachineM Dispatch} {callee : Activation}
    (enters : ∀ m args, Dispatch.Enters (dispatch m args))
    (done : invoke i receiver dispatch r = .ok (.call callee) r') : callee.Entered := by
  obtain ⟨m, _, _, done⟩ := bind_ok done
  obtain ⟨d, _, _, done⟩ := bind_ok done
  obtain ⟨args, r₁, _, done⟩ := bind_ok done
  obtain ⟨dispatched, _, called, done⟩ := bind_ok done
  cases dispatched with
  | answered v => cases answered_ok done
  | entered entered =>
    cases done
    exact enters _ _ _ _ _ (onMachine_eq_ok called).1

theorem invokeKind_call {kind : InvokeKind} {i : Index} {callee : Activation}
    (done : invokeKind kind i r = .ok (.call callee) r') : callee.Entered := by
  cases kind with
  | virtual => exact invoke_call (fun m args => Dispatch.enters_virtual _ _ _) done
  | special => exact invoke_call (fun m args => Dispatch.enters_special _ _ _ _) done
  | static => exact invoke_call (fun m args => Dispatch.enters_static _ _ _ _) done

theorem step_call {callee : Activation} (done : step r = .ok (.call callee) r') :
    callee.Entered := by
  cases read : Operation.decode r.activation.bytes r.activation.pc with
  | error fault =>
    rw [step_of_fault read] at done
    cases done
  | ok found =>
    obtain ⟨o, next⟩ := found
    rw [step_of_decode read] at done
    cases o with
    | invoke kind i => exact invokeKind_call done
    | invokeInterface i n => exact @invokeKind_call _ _ .virtual i callee done
    | nop => cases done
    | leave k =>
      cases k with
      | none => cases done
      | some k =>
        obtain ⟨_, _, _, done⟩ := bind_ok done
        obtain ⟨v, _, _, last⟩ := bind_ok done
        cases last
    | raise =>
      obtain ⟨v, flow, _⟩ := raise_ok done
      cases flow
    | _ => cases (going_ok done).1

end Run
end ClassForge
