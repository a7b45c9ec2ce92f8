import ClassForge.Proofs.Code.Assembling
import ClassForge.Proofs.Code.Operations

namespace ClassForge

namespace Assembly

open Discipline

def assembling : Discipline Assembly := ofBody Body.assembling

variable {α : Type} {a : Assembly}

theorem ensures_nothing {m : BodyM Unit} {gives : Unit → Body → Prop}
    (ensures : Body.assembling.Ensures m a.body gives) :
    assembling.Ensures (nothing m) a (fun _ a' => gives () a'.body) :=
  (ensures_onBody ensures).bind fun _ _ _ _ given => Ensures.pure _ fun _ => given

theorem ensures_labelNamed (name : String) :
    assembling.Ensures (labelNamed name) a (fun _ a' => a' = a) := by
  refine Ensures.get.bind fun here b _ _ same => ?_
  obtain ⟨rfl, rfl⟩ := same
  split
  · exact Ensures.pure _ fun _ => rfl
  · exact Ensures.throw _

theorem ensures_slotOf (slot : SlotRef) :
    assembling.Ensures (slotOf slot) a (fun _ a' => a' = a) := by
  cases slot with
  | number s => exact Ensures.pure _ fun _ => rfl
  | named name =>
    refine Ensures.get.bind fun here b _ _ same => ?_
    obtain ⟨rfl, rfl⟩ := same
    split
    · exact Ensures.pure _ fun _ => rfl
    · exact Ensures.throw _

theorem ensures_aside {f : Assembly → Assembly} (same : (f a).body = a.body) :
    assembling.Ensures (modify f : AssemblyM Unit) a Ensures.Anything := by
  refine Ensures.modify fun sound => ⟨?_, ?_, True.intro⟩
  · change (f a).body.Sound
    rwa [same]
  · change a.body.Later (f a).body
    rw [same]
    exact Body.Later.refl _

theorem ensures_perform (step : Step) :
    assembling.Ensures (perform step) a Ensures.Anything := by
  cases step with
  | label name =>
    exact (ensures_onBody Body.ensures_newLabel).andThen fun l b =>
      (ensures_aside rfl).andThen fun _ _ => Ensures.pure _ fun _ => True.intro
  | place label =>
    exact (ensures_labelNamed label).andThen fun l b =>
      (ensures_nothing (Body.ensures_addItem _)).anything
  | line n => exact (ensures_nothing (Body.ensures_addItem _)).anything
  | maxStack n => exact (ensures_nothing (Body.ensures_declareMaxStack n)).anything
  | needsStackMap | descriptor =>
    exact Ensures.get.andThen fun _ _ => Ensures.pure _ fun _ => True.intro
  | poolText t =>
    exact (ensures_onBody (Body.ensures_onPool (Pool.ensures_utf8 t))).andThen fun _ _ =>
      Ensures.pure _ fun _ => True.intro
  | poolIntegers first n =>
    exact (ensures_nothing ((Body.ensures_onPool (Pool.ensures_integersFrom first n)).andThen
      fun _ _ => Ensures.pure _ fun _ => True.intro)).anything
  | pool request =>
    exact (ensures_onBody (Body.ensures_onPool (Pool.ensures_answer request))).andThen fun _ _ =>
      Ensures.pure _ fun _ => True.intro
  | refuse reason | badType spelled => exact Ensures.throw _
  | pushNull => exact (ensures_nothing Body.ensures_pushNull).anything
  | push v => exact (ensures_nothing (Body.ensures_pushLiteral v)).anything
  | load k s =>
    exact (ensures_slotOf s).andThen fun s b => (ensures_nothing (Body.ensures_load k s)).anything
  | store k s =>
    exact (ensures_slotOf s).andThen fun s b => (ensures_nothing (Body.ensures_store k s)).anything
  | loadThis => exact (ensures_nothing Body.ensures_loadThis).anything
  | paramSlot i =>
    exact (ensures_onBody (Body.ensures_paramSlot i)).andThen fun _ _ =>
      Ensures.pure _ fun _ => True.intro
  | loadParam i => exact (ensures_nothing (Body.ensures_loadParam i)).anything
  | loadParams => exact (ensures_nothing Body.ensures_loadParams).anything
  | newLocal t name =>
    refine (ensures_onBody (Body.ensures_newLocal t)).andThen fun s b => ?_
    cases name with
    | none => exact Ensures.pure _ fun _ => True.intro
    | some name =>
      exact (ensures_aside rfl).andThen fun _ _ => Ensures.pure _ fun _ => True.intro
  | increment s d =>
    exact (ensures_slotOf s).andThen fun s b =>
      (ensures_nothing (Body.ensures_increment s d)).anything
  | localVariable n t s start stop =>
    exact (ensures_slotOf s).andThen fun s b => (ensures_labelNamed start).andThen fun i c =>
      (ensures_labelNamed stop).andThen fun j d =>
        (ensures_nothing (Body.ensures_localVariable n t s i j)).anything
  | field access o n t => exact (ensures_nothing (Body.ensures_field access o n t)).anything
  | invoke k o n d => exact (ensures_nothing (Body.ensures_invoke k o n d)).anything
  | invokeInterface o n d => exact (ensures_nothing (Body.ensures_invokeInterface o n d)).anything
  | newObject n => exact (ensures_nothing (Body.ensures_classReferring .new 0 1 n)).anything
  | newArray t => exact (ensures_nothing (Body.ensures_newArray t)).anything
  | arrayLength | arrayLoad t | arrayStore t | dup | dupX1 | dup2 | pop | pop2 | swap | raise =>
    exact (ensures_nothing (Body.ensures_emit _ _ _)).anything
  | checkCast n => exact (ensures_nothing (Body.ensures_classReferring .checkCast 1 1 n)).anything
  | instanceOf n =>
    exact (ensures_nothing (Body.ensures_classReferring .instanceOf 1 1 n)).anything
  | discard k => exact (ensures_nothing (Body.ensures_discard k)).anything
  | arithmetic k o => exact (ensures_nothing (Body.ensures_arithmetic k o)).anything
  | negate k => exact (ensures_nothing (Body.ensures_negate k)).anything
  | convert k j => exact (ensures_nothing (Body.ensures_convert k j)).anything
  | branch c label =>
    exact (ensures_labelNamed label).andThen fun l b =>
      (ensures_nothing (Body.ensures_emit _ _ _)).anything
  | goto label =>
    exact (ensures_labelNamed label).andThen fun l b =>
      (ensures_nothing (Body.ensures_emit _ _ _)).anything
  | leave => exact (ensures_nothing Body.ensures_leave).anything
  | tryCatch start stop handler caught =>
    exact (ensures_labelNamed start).andThen fun i b => (ensures_labelNamed stop).andThen fun j c =>
      (ensures_labelNamed handler).andThen fun k d =>
        (ensures_nothing (Body.ensures_tryCatch i j k caught)).anything
  | box t => exact (ensures_nothing (Body.ensures_box t)).anything
  | unbox t => exact (ensures_nothing (Body.ensures_unbox t)).anything
  | «repeat» n steps => exact Ensures.pure _ fun _ => True.intro
  | attempt steps => exact Ensures.pure _ fun _ => True.intro

/-- What single steps keep to, where transcripts do not matter. -/
structure Stepwise (D : Discipline Assembly) : Prop where
  perform : ∀ step a, D.Ensures (perform step) a Ensures.Anything
  holds : ∀ a t, D.Holds a → D.Holds { a with transcript := t }
  onward : ∀ a t, D.Onward a { a with transcript := t }

theorem stepwise_assembling : Stepwise assembling where
  perform step _ := ensures_perform step
  holds _ _ sound := sound
  onward a _ := Body.Later.refl a.body

variable {D : Discipline Assembly}

theorem ensures_iterate {m : AssemblyM Unit} (each : ∀ a, D.Ensures m a Ensures.Anything)
    (n : Nat) : D.Ensures (iterate m n) a Ensures.Anything := by
  induction n generalizing a with
  | zero => exact Ensures.pure _ fun _ => True.intro
  | succ n ih => exact (each a).andThen fun _ _ => ih

theorem Stepwise.lastOnly (stepwise : Stepwise D) {m : AssemblyM Unit}
    (each : ∀ a, D.Ensures m a Ensures.Anything) :
    D.Ensures (lastOnly m) a Ensures.Anything := by
  constructor
  intro holds
  have outcome := (each { a with transcript := [] }).outcome (stepwise.holds a [] holds)
  have emptied := stepwise.onward a []
  unfold Assembly.lastOnly
  dsimp only
  cases h : m { a with transcript := [] } with
  | ok u b =>
    rw [h] at outcome
    obtain ⟨held, moved, _⟩ := outcome
    exact ⟨stepwise.holds b _ held, D.trans (D.trans emptied moved) (stepwise.onward b _), trivial⟩
  | error e b =>
    rw [h] at outcome
    obtain ⟨held, moved⟩ := outcome
    exact ⟨stepwise.holds b _ held, D.trans (D.trans emptied moved) (stepwise.onward b _)⟩

theorem Stepwise.runSingle (stepwise : Stepwise D) (gives : Body → Prop) {step : Step}
    (single : runStep step = runSingle step)
    (ensures : D.Ensures (Assembly.perform step) a (fun _ a' => gives a'.body)) :
    D.Ensures (runStep step) a (fun _ a' => gives a'.body) := by
  constructor
  intro holds
  have outcome := ensures.outcome holds
  rw [single, Assembly.runSingle]
  cases h : Assembly.perform step a with
  | ok r b =>
    rw [h] at outcome
    obtain ⟨held, moved, given⟩ := outcome
    exact ⟨stepwise.holds b _ held, D.trans moved (stepwise.onward b _), given⟩
  | error e b =>
    rw [h] at outcome
    obtain ⟨held, moved⟩ := outcome
    exact ⟨stepwise.holds b _ held, D.trans moved (stepwise.onward b _)⟩

theorem ensures_attempt {steps : List Step}
    (ensures : D.Ensures (runSteps steps) a Ensures.Anything) :
    D.Ensures (runStep (.attempt steps)) a Ensures.Anything := by
  constructor
  intro holds
  have outcome := ensures.outcome holds
  rw [runStep_attempt]
  cases h : runSteps steps a with
  | ok u b =>
    rw [h] at outcome
    exact outcome
  | error e b =>
    rw [h] at outcome
    exact ⟨outcome.1, outcome.2, trivial⟩

mutual

theorem Stepwise.runStep (stepwise : Stepwise D) (step : Step) (a : Assembly) :
    D.Ensures (runStep step) a Ensures.Anything := by
  match step with
  | .repeat n steps =>
    change D.Ensures (Assembly.lastOnly (iterate (Assembly.runSteps steps) n)) a _
    exact stepwise.lastOnly fun b => ensures_iterate (fun c => stepwise.runSteps steps c) n
  | .attempt steps => exact ensures_attempt (stepwise.runSteps steps a)
  | .label _ | .place _ | .line _ | .maxStack _ | .needsStackMap | .descriptor | .poolText _
  | .poolIntegers .. | .pool _ | .refuse _ | .pushNull | .push _ | .load .. | .store .. | .loadThis
  | .paramSlot _ | .loadParam _ | .loadParams | .newLocal .. | .increment .. | .localVariable ..
  | .field .. | .invoke .. | .invokeInterface .. | .newObject _ | .newArray _ | .arrayLength
  | .arrayLoad _ | .arrayStore _ | .checkCast _ | .instanceOf _ | .dup | .dupX1 | .dup2 | .pop
  | .pop2 | .discard _ | .swap | .arithmetic .. | .negate _ | .convert .. | .branch .. | .goto _
  | .leave | .raise | .tryCatch .. | .box _ | .unbox _ | .badType _ =>
    exact stepwise.runSingle (fun _ => True) rfl (stepwise.perform _ a)

theorem Stepwise.runSteps (stepwise : Stepwise D) (steps : List Step) (a : Assembly) :
    D.Ensures (runSteps steps) a Ensures.Anything := by
  match steps with
  | [] => exact Ensures.pure _ fun _ => True.intro
  | step :: rest =>
    change D.Ensures (Assembly.runStep step >>= fun _ => Assembly.runSteps rest) a _
    exact (stepwise.runStep step a).andThen fun _ b => stepwise.runSteps rest b

end

end Assembly

theorem Listing.run_sound (steps : Listing) {b : Body} (sound : b.Sound) :
    (steps.run b).2.1.Sound ∧ b.Later (steps.run b).2.1 := by
  have outcome := (Assembly.stepwise_assembling.runSteps steps { body := b }).outcome sound
  unfold Listing.run
  cases h : Assembly.runSteps steps { body := b } with
  | ok u a =>
    rw [h] at outcome
    exact ⟨outcome.1, outcome.2.1⟩
  | error e a =>
    rw [h] at outcome
    exact outcome

end ClassForge
