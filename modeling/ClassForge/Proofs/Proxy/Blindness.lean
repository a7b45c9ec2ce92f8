import ClassForge.Proofs.ClassBuilder.Blindness
import ClassForge.Proxy.Generate

namespace ClassForge

open View (Blind)

namespace Generation

def view : View Generation where
  pool g := g.builder.pool
  rest g := { g with builder := (ClassBuilder.view true).rest g.builder }
  fixed g := g

variable {α : Type} {g g' : Generation}

theorem builder_of_alike (alike : view.Alike g g') :
    (ClassBuilder.view true).Alike g.builder g'.builder :=
  ⟨alike.pool, congrArg Generation.builder alike.rest⟩

theorem bodies_of_alike (alike : view.Alike g g') : g.bodies = g'.bodies := by
  have bodies : (view.rest g).bodies = (view.rest g').bodies := congrArg _ alike.rest
  exact bodies

theorem blind_onBuilder {m : BuilderM α} (blind : (ClassBuilder.view true).Blind m) :
    view.Blind (onBuilder m) := by
  have parts : View.OnPart builder (fun g b => { g with builder := b }) m (onBuilder m) := by
    intro g
    unfold onBuilder
    dsimp only
    cases m g.builder <;> rfl
  refine blind.onPart parts ?_ ?_
  · exact fun s t alike => builder_of_alike alike
  · intro s t b c alike builders
    have bodies := bodies_of_alike alike
    exact ⟨builders.pool, congrArg₂ Generation.mk builders.rest bodies⟩

theorem blind_field (flags : UInt16) (name : String) (type : FieldType) :
    view.Blind (onBuilder (ClassBuilder.field flags name type)) :=
  blind_onBuilder (ClassBuilder.blind_addField _ _ _ _)

theorem blind_addHandlerField (s : ProxySpec) : view.Blind (addHandlerField s) := by
  unfold addHandlerField
  split
  · exact .pure _
  · split
    · exact .throw _
    · exact blind_field _ _ _

theorem blind_addCaptures (before : List String) (captures : List (String × FieldType)) :
    view.Blind (addCaptures before captures) := by
  induction captures generalizing before with
  | nil => exact .pure _
  | cons capture rest ih =>
    rw [addCaptures]
    split
    · exact .throw _
    · exact (blind_field _ _ _).bind fun _ => ih _

theorem blind_liftExcept (x : Except Error α) : view.Blind (liftExcept x) := by
  cases x with
  | ok a => exact .pure a
  | error e => exact .throw e

theorem blind_addConstructor (s : ProxySpec) (all : List (String × ConstructorSpec))
    (descriptor : String) (c : ConstructorSpec) :
    view.Blind (addConstructor s all descriptor c) := by
  refine (blind_liftExcept _).bind fun _ => blind_onBuilder ?_
  exact (ClassBuilder.keeps_note _).blind.bind fun _ => ClassBuilder.blind_code _ _

theorem blind_addConstructors (s : ProxySpec) : view.Blind (addConstructors s) :=
  (blind_liftExcept _).bind fun _ => .forM fun _ => blind_addConstructor _ _ _ _

def keepTold (g : Generation) : Generation :=
  match g.builder.lastRun with
  | some t => { g with bodies := g.bodies.push t }
  | none => g

theorem alike_keepTold (alike : view.Alike g g') :
    view.Alike g.keepTold g'.keepTold := by
  refine alike.map (fun g => ?_) fun g => ?_
  · unfold keepTold
    split <;> rfl
  · have told : (view.rest g).builder.lastRun = g.builder.lastRun := rfl
    unfold keepTold
    rw [told]
    split <;> rfl

theorem blind_addAssembled (h : MethodHead) (steps : Listing) :
    view.Blind (addAssembled h steps) := by
  intro g g' alike
  have ends := blind_onBuilder (ClassBuilder.blind_code h steps) g g' alike
  unfold addAssembled
  dsimp only
  generalize onBuilder (ClassBuilder.code h steps) g = x at ends
  generalize onBuilder (ClassBuilder.code h steps) g' = y at ends
  cases ends with
  | ok u alike => exact .ok () (alike_keepTold alike)
  | error e alike => exact .error e (alike_keepTold alike)

theorem blind_addMethod (s : ProxySpec) (m : MethodSpec) : view.Blind (addMethod s m) := by
  unfold addMethod
  dsimp only
  have coded (head : MethodHead) (steps : Listing) :
      view.Blind (onBuilder (ClassBuilder.code head steps)) :=
    blind_onBuilder (ClassBuilder.blind_code head steps)
  split
  · exact .throw _
  · split
    · exact .throw _
    · refine (blind_onBuilder (ClassBuilder.keeps_note _).blind).bind fun _ => ?_
      split
      · split
        · exact .throw _
        · split
          · exact .throw _
          · exact coded _ _
      · split
        · exact .throw _
        · split
          · exact .throw _
          · exact coded _ _
      · exact blind_addAssembled _ _

theorem blind_addMethods (s : ProxySpec) (before : List (String × String))
    (methods : List MethodSpec) : view.Blind (addMethods s before methods) := by
  induction methods generalizing before with
  | nil => exact .pure _
  | cons m rest ih =>
    rw [addMethods]
    split
    · exact .throw _
    · exact (blind_addMethod s m).bind fun _ => ih _

theorem blind_run (s : ProxySpec) {make : BuilderM α}
    (blind : (ClassBuilder.view true).Blind make) : view.Blind (run s make) := by
  refine Blind.bind ?_ fun _ => blind_onBuilder blind
  refine (blind_addHandlerField s).bind fun _ => (blind_addCaptures _ _).bind fun _ => ?_
  exact (blind_addConstructors s).bind fun _ => blind_addMethods _ _ _

end Generation

namespace ProxySpec

variable {α β : Type} {make : BuilderM α}

theorem generateWith_blind (blind : (ClassBuilder.view true).Blind make) (s : ProxySpec)
    (known known' : DescriptorCache) :
    (s.generateWith make known).1 = (s.generateWith make known').1 ∧
      Generation.view.Alike (s.generateWith make known).2 (s.generateWith make known').2 := by
  have start : Generation.view.Alike { builder := s.start known } { builder := s.start known' } := by
    rw [start_eq, start_eq]
    exact ⟨.refl _, rfl⟩
  have ends := Generation.blind_run s blind _ _ start
  unfold generateWith
  generalize Generation.run s make { builder := s.start known } = x at ends
  generalize Generation.run s make { builder := s.start known' } = y at ends
  cases ends with
  | ok a alike | error e alike => exact ⟨rfl, alike⟩

theorem generateWith_map (f : α → β) (s : ProxySpec) (known : DescriptorCache) :
    s.generateWith (do return f (← make)) known =
      ((s.generateWith make known).1.map f, (s.generateWith make known).2) := by
  unfold generateWith Generation.run Generation.onBuilder
  simp only [bind, EStateM.bind]
  cases Generation.addMembers s { builder := s.start known } with
  | error e g => rfl
  | ok u g =>
    dsimp only
    cases make g.builder <;> rfl

end ProxySpec
end ClassForge
