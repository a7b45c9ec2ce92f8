import ClassForge.Proofs.Code.Operations

namespace ClassForge

open View (Keeps)

namespace Body

variable {α : Type} {R : Record → Prop}

theorem keeps_onPool {m : PoolM α} (interns : Pool.Interns m) : view.Keeps (onPool m) := by
  have runs : View.OnPart pool (fun b p => { b with pool := p }) m (onPool m) := by
    intro b
    unfold onPool
    dsimp only
    cases m b.pool <;> rfl
  refine interns.keeps.onPart runs ?_ ?_ ?_
  · exact fun s t alike => ⟨alike.pool, rfl⟩
  · exact fun s t p q alike pools => ⟨pools.pool, alike.rest⟩
  · exact fun s p onward => ⟨onward.grown, rfl⟩

theorem keeps_method (descriptor : String) : view.Keeps (method descriptor) := by
  constructor
  · intro s t alike
    unfold method
    simp only [DescriptorCache.method?_fst]
    split
    · exact .ok _ ⟨alike.pool, alike.rest⟩
    · exact .error _ ⟨alike.pool, alike.rest⟩
  · intro s
    unfold method
    dsimp only
    split <;> rename_i h <;> split at h <;> cases h <;> exact ⟨.refl _, rfl⟩

theorem keeps_modify {f : Body → Body} (pool : ∀ b, (f b).pool = b.pool)
    (rest : ∀ b, view.rest (f b) = view.rest (f (view.rest b))) :
    view.Keeps (modify f : BodyM Unit) := .modify pool rest fun _ => rfl

theorem keeps_newLabel : view.Keeps newLabel := by
  refine Keeps.look (k := fun b => do
    modify fun b : Body => { b with nextLabel := b.nextLabel + 1 }
    return (⟨b.nextLabel⟩ : Label)) (fun _ => rfl) fun b => ?_
  exact Keeps.bind (keeps_modify (fun _ => rfl) fun _ => rfl) fun _ => .pure _

theorem Operates.keeps {m : BodyM α} (operates : Operates R m) : view.Keeps m := by
  induction operates with
  | pure a => exact .pure a
  | throw e => exact .throw e
  | onPool interns => exact keeps_onPool interns
  | method descriptor => exact keeps_method descriptor
  | newLabel => exact keeps_newLabel
  | item | touch | declareMaxStack | protection | scope =>
    exact keeps_modify (fun _ => rfl) fun _ => rfl
  | use slot kind o pops pushes =>
    exact Keeps.bind (keeps_modify (fun _ => rfl) fun _ => rfl) fun _ =>
      keeps_modify (fun _ => rfl) fun _ => rfl
  | look same next ih => exact Keeps.look same ih
  | bind first next ih ihnext => exact ih.bind ihnext

end Body

namespace Assembly

variable {α : Type} {R : Record → Prop}

theorem keeps_onBody {m : BodyM α} (keeps : Body.view.Keeps m) : view.Keeps (onBody m) := by
  have runs : View.OnPart body (fun a b => { a with body := b }) m (onBody m) := by
    intro a
    unfold onBody
    dsimp only
    cases m a.body <;> rfl
  refine keeps.onPart runs ?_ ?_ ?_
  · exact fun s t alike => ⟨alike.pool, congrArg Assembly.body alike.rest⟩
  · intro s t b c alike bodies
    have others : { s with body := default } = { t with body := default } :=
      congrArg (fun a : Assembly => { a with body := default }) alike.rest
    exact ⟨bodies.pool, congrArg₂ (fun (a : Assembly) b => { a with body := b }) others bodies.rest⟩
  · exact fun s b onward => ⟨onward.grown, rfl⟩

theorem Operates.keeps {m : AssemblyM α} (operates : Operates R m) : view.Keeps m := by
  induction operates with
  | pure a => exact .pure a
  | throw e => exact .throw e
  | onBody operates => exact keeps_onBody operates.keeps
  | aside body rest => exact .modify (fun a => congrArg Body.pool (body a)) rest fun _ => rfl
  | look same next ih => exact Keeps.look same ih
  | bind first next ih ihnext => exact ih.bind ihnext

theorem keeps_perform (step : Step) : view.Keeps (perform step) := (operates_perform step).keeps

theorem keeps_write (r : Reply) : view.Keeps (write r) := by
  refine ⟨fun s t alike => .ok () ⟨alike.pool, ?_⟩, fun s => ⟨.refl _, rfl⟩⟩
  have size : s.body.pool.size = t.body.pool.size := alike.pool.size
  exact congrArg₂ (fun (a : Assembly) n => { a with transcript := (r, n) :: a.transcript })
    alike.rest size

theorem keeps_iterate {m : AssemblyM Unit} (keeps : view.Keeps m) (n : Nat) :
    view.Keeps (iterate m n) := by
  induction n with
  | zero => exact .pure ()
  | succ n ih => exact keeps.bind fun _ => ih

theorem alike_rewritten {s t : Assembly} (alike : view.Alike s t) (g : Transcript → Transcript) :
    view.Alike { s with transcript := g s.transcript } { t with transcript := g t.transcript } :=
  alike.map (f := fun a => { a with transcript := g a.transcript }) (fun _ => rfl) fun _ => rfl

theorem keeps_lastOnly {m : AssemblyM Unit} (keeps : view.Keeps m) : view.Keeps (lastOnly m) := by
  constructor
  · intro s t alike
    have rest : ({ s with body := Body.view.rest s.body } : Assembly)
        = { t with body := Body.view.rest t.body } := alike.rest
    have before : s.transcript = t.transcript := congrArg (fun a => a.transcript) rest
    have ends := keeps.blind _ _ (alike_rewritten alike fun _ => [])
    unfold lastOnly
    dsimp only
    rw [before]
    generalize m { s with transcript := [] } = x at ends
    generalize m { t with transcript := [] } = y at ends
    cases ends with
    | ok u alike => exact .ok u (alike_rewritten alike fun new => new.take 1 ++ t.transcript)
    | error e alike => exact .error e (alike_rewritten alike fun new => new.take 1 ++ t.transcript)
  · intro s
    have onward := keeps.onward { s with transcript := [] }
    unfold lastOnly
    dsimp only
    cases h : m { s with transcript := [] } with
    | ok u a | error e a =>
      rw [h] at onward
      exact ⟨onward.grown, rfl⟩

theorem keeps_runSingle {step : Step} (single : runStep step = runSingle step) :
    view.Keeps (runStep step) := by
  rw [single]
  constructor
  · intro s t alike
    have ends := (keeps_perform step).blind s t alike
    unfold runSingle
    generalize perform step s = x at ends
    generalize perform step t = y at ends
    cases ends with
    | ok r alike => exact (keeps_write r).blind _ _ alike
    | error e alike =>
      cases (keeps_write .failed).blind _ _ alike with
      | ok u alike => exact .error e alike
  · intro s
    have onward := (keeps_perform step).onward s
    unfold runSingle
    cases h : perform step s with
    | ok r a =>
      rw [h] at onward
      exact onward.trans ((keeps_write r).onward a)
    | error e a =>
      rw [h] at onward
      exact onward.trans ((keeps_write .failed).onward a)

theorem keeps_attempt {steps : List Step} (keeps : view.Keeps (runSteps steps)) :
    view.Keeps (runStep (.attempt steps)) := by
  constructor
  · intro s t alike
    have ends := keeps.blind s t alike
    rw [runStep_attempt, runStep_attempt]
    generalize runSteps steps s = x at ends
    generalize runSteps steps t = y at ends
    cases ends with
    | ok u alike | error e alike => exact .ok () alike
  · intro s
    have onward := keeps.onward s
    rw [runStep_attempt]
    cases h : runSteps steps s with
    | ok u a | error e a =>
      rw [h] at onward
      exact onward

mutual

theorem keeps_runStep (step : Step) : view.Keeps (runStep step) := by
  match step with
  | .repeat n steps =>
    change view.Keeps (lastOnly (iterate (runSteps steps) n))
    exact keeps_lastOnly (keeps_iterate (keeps_runSteps steps) n)
  | .attempt steps => exact keeps_attempt (keeps_runSteps steps)
  | .label _ | .place _ | .line _ | .maxStack _ | .needsStackMap | .descriptor | .poolText _
  | .poolIntegers .. | .pool _ | .refuse _ | .pushNull | .push _ | .load .. | .store .. | .loadThis
  | .paramSlot _ | .loadParam _ | .loadParams | .newLocal .. | .increment .. | .localVariable ..
  | .field .. | .invoke .. | .invokeInterface .. | .newObject _ | .newArray _ | .arrayLength
  | .arrayLoad _ | .arrayStore _ | .checkCast _ | .instanceOf _ | .dup | .dupX1 | .dup2 | .pop
  | .pop2 | .discard _ | .swap | .arithmetic .. | .negate _ | .convert .. | .branch .. | .goto _
  | .leave | .raise | .tryCatch .. | .box _ | .unbox _ | .badType _ =>
    exact keeps_runSingle rfl

theorem keeps_runSteps (steps : List Step) : view.Keeps (runSteps steps) := by
  match steps with
  | [] => exact .pure ()
  | step :: rest =>
    change view.Keeps (runStep step >>= fun _ => runSteps rest)
    exact (keeps_runStep step).bind fun _ => keeps_runSteps rest

end

end Assembly

namespace Listing

theorem run_alike (steps : Listing) {b c : Body} (alike : Body.view.Alike b c) :
    (steps.run b).1 = (steps.run c).1 ∧ Body.view.Alike (steps.run b).2.1 (steps.run c).2.1 ∧
      (steps.run b).2.2 = (steps.run c).2.2 := by
  have start : Assembly.view.Alike { body := b } { body := c } :=
    ⟨alike.pool, congrArg (fun b => ({ body := b } : Assembly)) alike.rest⟩
  have ends := (Assembly.keeps_runSteps steps).blind _ _ start
  unfold run
  generalize Assembly.runSteps steps { body := b } = x at ends
  generalize Assembly.runSteps steps { body := c } = y at ends
  cases ends with
  | ok u alike | error e alike =>
    exact ⟨rfl, ⟨alike.pool, congrArg Assembly.body alike.rest⟩,
      congrArg (fun a => a.transcript.reverse) alike.rest⟩

theorem run_grown (steps : Listing) (b : Body) : b.pool.Grown (steps.run b).2.1.pool := by
  have onward := (Assembly.keeps_runSteps steps).onward { body := b }
  unfold run
  cases h : Assembly.runSteps steps { body := b } with
  | ok u a | error e a =>
    rw [h] at onward
    exact onward.grown

end Listing
end ClassForge
