import ClassForge.Proofs.ClassBuilder.Building
import ClassForge.Proxy.Generate

namespace ClassForge

open Discipline ClassBuilder

variable {p q : Pool}

def MethodHead.Written (h : MethodHead) (steps : Listing) (p : Pool) (m : Member) : Prop :=
  ∃ code, MethodMade h [.code code] p m ∧ CodeMade h steps code p

theorem MethodHead.Written.mono {h : MethodHead} {steps : Listing} {m : Member}
    (written : h.Written steps p m) (extends_ : q.Extends p) : h.Written steps q m := by
  obtain ⟨code, made, ⟨before, b, sound, assembled, within⟩, enough⟩ := written
  exact ⟨code, ⟨made.access, extends_.utf8At? made.name, extends_.utf8At? made.descriptor,
    made.attributes⟩, ⟨before, b, sound, assembled, within.trans extends_⟩, enough⟩

namespace ProxySpec

def handlerField (s : ProxySpec) : List (String × FieldType) :=
  (s.handler.map fun c => (c.field, c.type)).toList

def fields (s : ProxySpec) : List (String × FieldType) := s.handlerField ++ s.captures

def constructorPlan (s : ProxySpec) (descriptor : String) (c : ConstructorSpec) :
    MethodHead × Listing :=
  ({ name := constructorName, descriptor := descriptor, access := c.access }, s.constructorBody c)

def methodSteps (s : ProxySpec) (m : MethodSpec) : Listing :=
  match m.body with
  | .handled => (s.handler.map fun c =>
      Generation.bodyFor m.descriptor (s.handlerBody c m.name)).getD []
  | .returning field => ((s.captureType? field).map fun type =>
      Generation.bodyFor m.descriptor (s.returningBody field type)).getD []
  | .assembled steps => steps

def methodPlan (s : ProxySpec) (m : MethodSpec) : MethodHead × Listing :=
  ({ name := m.name, descriptor := m.descriptor, access := m.access }, s.methodSteps m)

def plans (s : ProxySpec) (all : List (String × ConstructorSpec)) : List (MethodHead × Listing) :=
  (all.map fun x => s.constructorPlan x.1 x.2) ++ s.methods.map s.methodPlan

structure Admits (s : ProxySpec) (m : MethodSpec) : Prop where
  name : m.name ≠ constructorName
  handled : m.body = .handled → (∃ c, s.handler = some c) ∧ isSet m.access Access.staticFlag = false
  returning : ∀ field, m.body = .returning field →
    (∃ type, s.captureType? field = some type) ∧ isSet m.access Access.staticFlag = false

end ProxySpec

structure FieldKept (field : String × FieldType) (p : Pool) (m : Member) : Prop where
  access : m.access = Generation.privateFinal
  name : m.name? p = some field.1
  descriptor : m.descriptor? p = some field.2.descriptor
  attributes : m.attributes = []

theorem FieldKept.mono {field : String × FieldType} {m : Member} (kept : FieldKept field p m)
    (extends_ : q.Extends p) : FieldKept field q m :=
  ⟨kept.access, extends_.utf8At? kept.name, extends_.utf8At? kept.descriptor, kept.attributes⟩

namespace ClassBuilder

structure Gains (fields : List (String × FieldType)) (methods : List (MethodHead × Listing))
    (c c' : ClassBuilder) : Prop where
  pool : c'.pool.Extends c.pool
  fields : ∃ added, c'.fields.toList = c.fields.toList ++ added ∧
    List.Forall₂ (fun f m => FieldKept f c'.pool m) fields added
  methods : ∃ added, c'.methods.toList = c.methods.toList ++ added ∧
    List.Forall₂ (fun plan m => MethodHead.Written plan.1 plan.2 c'.pool m) methods added

namespace Gains

variable {fields fields' : List (String × FieldType)} {methods methods' : List (MethodHead × Listing)}
  {c d e : ClassBuilder}

theorem refl (c : ClassBuilder) : Gains [] [] c c :=
  ⟨.refl _, ⟨[], (List.append_nil _).symm, .nil⟩, ⟨[], (List.append_nil _).symm, .nil⟩⟩

theorem trans (first : Gains fields methods c d) (second : Gains fields' methods' d e) :
    Gains (fields ++ fields') (methods ++ methods') c e := by
  obtain ⟨fs, hfs, kept⟩ := first.fields
  obtain ⟨ms, hms, written⟩ := first.methods
  obtain ⟨fs', hfs', kept'⟩ := second.fields
  obtain ⟨ms', hms', written'⟩ := second.methods
  refine ⟨first.pool.trans second.pool, ⟨fs ++ fs', ?_, ?_⟩, ⟨ms ++ ms', ?_, ?_⟩⟩
  · rw [hfs', hfs, List.append_assoc]
  · exact List.rel_append (kept.imp fun _ _ kept => kept.mono second.pool) kept'
  · rw [hms', hms, List.append_assoc]
  · exact List.rel_append (written.imp fun _ _ written => written.mono second.pool) written'

end Gains

variable {accepts : String → Bool} {c : ClassBuilder}

theorem gains_note (e : Event) : (building accepts).Ensures (note e) c
    (fun _ c' => Gains [] [] c c') := by
  refine (ensures_of_pooling (ensures_note e)).mono fun _ c' _ onward noted => ?_
  obtain ⟨-, keeps⟩ := noted
  exact ⟨Later.pool onward, ⟨[], by rw [keeps.fields, List.append_nil], .nil⟩,
    ⟨[], by rw [keeps.methods, List.append_nil], .nil⟩⟩

theorem gains_field {name : String} {type : FieldType} (accepted : accepts type.descriptor = true) :
    (building accepts).Ensures (field Generation.privateFinal name type) c
      (fun _ c' => Gains [(name, type)] [] c c') := by
  refine (ensures_field accepted).mono fun _ c' _ onward added => ?_
  obtain ⟨⟨m, fields, access, named, typed, plain⟩, methods, -, -⟩ := added
  exact ⟨Later.pool onward,
    ⟨[m], by rw [fields, Array.toList_push], .cons ⟨access, named, typed, plain⟩ .nil⟩,
    ⟨[], by rw [methods, List.append_nil], .nil⟩⟩

theorem gains_code (h : MethodHead) (steps : Listing) : (building accepts).Ensures (code h steps) c
    (fun _ c' => Gains [] [(h, steps)] c c') := by
  refine (ensures_code h steps).mono fun _ c' _ onward added => ?_
  obtain ⟨m, body, made, coded, added⟩ := added
  exact ⟨Later.pool onward, ⟨[], by rw [added.fields, List.append_nil], .nil⟩,
    ⟨[m], by rw [added.methods, Array.toList_push], .cons ⟨body, made, coded⟩ .nil⟩⟩

end ClassBuilder

namespace Generation

variable {α : Type} {g : Generation}

def generating : Discipline Generation where
  Holds g := g.builder.Sound fun _ => true
  Onward g g' := g.builder.Later g'.builder
  refl g := .refl g.builder
  trans := Later.trans

theorem ensures_onBuilder {m : BuilderM α} {gives : α → ClassBuilder → Prop}
    (ensures : (building fun _ => true).Ensures m g.builder gives) :
    generating.Ensures (onBuilder m) g (fun a g' => gives a g'.builder) := by
  constructor
  intro sound
  have outcome := ensures.outcome sound
  unfold onBuilder
  dsimp only
  cases h : m g.builder with
  | ok a b =>
    rw [h] at outcome
    exact outcome
  | error e b =>
    rw [h] at outcome
    exact outcome

def Gained (fields : List (String × FieldType)) (methods : List (MethodHead × Listing))
    (g g' : Generation) : Prop := Gains fields methods g.builder g'.builder

theorem gained_refl (g : Generation) : Gained [] [] g g := Gains.refl _

theorem ensures_liftExcept (x : Except Error α) :
    generating.Ensures (liftExcept x) g (fun a g' => x = .ok a ∧ g' = g) := by
  cases x with
  | ok a => exact Ensures.pure a fun _ => ⟨rfl, rfl⟩
  | error e => exact Ensures.throw e

theorem ensures_addHandlerField (s : ProxySpec) : generating.Ensures (addHandlerField s) g
    (fun _ g' => Gained s.handlerField [] g g' ∧
      ∀ f ∈ s.handlerField, f.1 ∉ s.captures.map (·.1)) := by
  unfold addHandlerField ProxySpec.handlerField
  cases s.handler with
  | none => exact Ensures.pure _ fun _ => ⟨gained_refl g, by simp⟩
  | some c =>
    dsimp only
    split
    · exact Ensures.throw _
    · rename_i other
      refine (ensures_onBuilder (gains_field rfl)).mono fun _ g' _ _ gained => ⟨gained, ?_⟩
      simpa using other

theorem ensures_addCaptures (before : List String) (captures : List (String × FieldType)) :
    generating.Ensures (addCaptures before captures) g (fun _ g' => Gained captures [] g g' ∧
      (∀ f ∈ captures, f.1 ∉ before) ∧ (captures.map (·.1)).Nodup) := by
  induction captures generalizing before g with
  | nil => exact Ensures.pure _ fun _ => ⟨gained_refl g, by simp, .nil⟩
  | cons capture rest ih =>
    obtain ⟨name, type⟩ := capture
    unfold addCaptures
    split
    · exact Ensures.throw _
    · rename_i new
      refine (ensures_onBuilder (gains_field rfl)).bind fun _ g₁ _ _ first => ?_
      refine (ih (name :: before)).mono fun _ g₂ _ _ others => ?_
      obtain ⟨gained, fresh, distinct⟩ := others
      refine ⟨Gains.trans first gained, ?_, ?_⟩
      · simp only [List.mem_cons, forall_eq_or_imp]
        refine ⟨by simpa using new, fun f inside found => ?_⟩
        exact fresh f inside (List.mem_cons_of_mem _ found)
      · rw [List.map_cons, List.nodup_cons]
        refine ⟨fun again => ?_, distinct⟩
        obtain ⟨f, inside, same⟩ := List.mem_map.1 again
        exact fresh f inside (same ▸ List.mem_cons_self)

/-- Constructors have descriptors of their own, and each leads to a forwarding one. -/
structure Constructs (s : ProxySpec) (all : List (String × ConstructorSpec)) : Prop where
  signed : signatures s [] (constructorsOf s) = .ok all
  leads : ∀ x ∈ all, checkDelegation s all [] x.1 x.2 all.length = .ok ()

theorem signatures_eq_ok {s : ProxySpec} {before all : List (String × ConstructorSpec)}
    {cs : List ConstructorSpec} (done : signatures s before cs = .ok all)
    (distinct : (before.map (·.1)).Nodup) : (all.map (·.1)).Nodup ∧ ∃ new, all = before.reverse ++ new ∧
      List.Forall₂ (fun c x => ∃ params, s.constructorParams c = .ok params ∧
        x = (constructorDescriptor params, c)) cs new := by
  induction cs generalizing before with
  | nil =>
    cases done
    rw [List.map_reverse, List.nodup_reverse]
    exact ⟨distinct, [], (List.append_nil _).symm, .nil⟩
  | cons c rest ih =>
    unfold signatures at done
    obtain ⟨params, known, done⟩ := Outcome.bind_eq_ok.1 done
    obtain ⟨fresh, done⟩ := Outcome.guard_eq_ok.1 done
    have absent : constructorDescriptor params ∉ before.map (·.1) := by
      intro inside
      obtain ⟨x, found, same⟩ := List.mem_map.1 inside
      rw [Bool.not_eq_true, Option.isSome_eq_false_iff, Option.isNone_iff_eq_none,
        List.lookup_eq_none_iff] at fresh
      have other := fresh x found
      simp [same] at other
    obtain ⟨distinct', new, rfl, behind⟩ := ih done (by
      rw [List.map_cons, List.nodup_cons]
      exact ⟨absent, distinct⟩)
    refine ⟨distinct', _ :: new, ?_, .cons ⟨params, known, rfl⟩ behind⟩
    rw [List.reverse_cons, List.append_assoc, List.singleton_append]

theorem ensures_addConstructor (s : ProxySpec) (all : List (String × ConstructorSpec))
    (descriptor : String) (c : ConstructorSpec) :
    generating.Ensures (addConstructor s all descriptor c) g (fun _ g' =>
      Gained [] [s.constructorPlan descriptor c] g g' ∧
        checkDelegation s all [] descriptor c all.length = .ok ()) := by
  unfold addConstructor
  refine (ensures_liftExcept _).bind fun u g₁ _ _ checked => ?_
  obtain ⟨checked, rfl⟩ := checked
  refine (ensures_onBuilder ?_).mono fun _ g' _ _ gained => ⟨gained, checked⟩
  exact (gains_note _).bind fun _ b _ _ noted => (gains_code _ _).mono fun _ b' _ _ added =>
    noted.trans added

theorem ensures_addConstructors (s : ProxySpec) : generating.Ensures (addConstructors s) g
    (fun _ g' => ∃ all, Constructs s all ∧
      Gained [] (all.map fun x => s.constructorPlan x.1 x.2) g g') := by
  unfold addConstructors
  refine (ensures_liftExcept _).bind fun all g₁ _ _ signed => ?_
  obtain ⟨signed, rfl⟩ := signed
  have each (rest : List (String × ConstructorSpec)) : ∀ g, generating.Ensures
      (rest.forM fun x => addConstructor s all x.1 x.2) g (fun _ g' =>
        Gained [] (rest.map fun x => s.constructorPlan x.1 x.2) g g' ∧
          ∀ x ∈ rest, checkDelegation s all [] x.1 x.2 all.length = .ok ()) := by
    induction rest with
    | nil => exact fun g => Ensures.pure _ fun _ => ⟨gained_refl g, by simp⟩
    | cons x rest ih =>
      intro g
      refine (ensures_addConstructor s all x.1 x.2).bind fun _ g₁ _ _ first => ?_
      refine (ih g₁).mono fun _ g₂ _ _ others => ⟨Gains.trans first.1 others.1, ?_⟩
      simp only [List.mem_cons, forall_eq_or_imp]
      exact ⟨first.2, others.2⟩
  exact (each all g₁).mono fun _ g' _ _ given => ⟨all, ⟨signed, given.2⟩, given.1⟩

theorem ensures_addAssembled (h : MethodHead) (steps : Listing) :
    generating.Ensures (addAssembled h steps) g (fun _ g' => Gained [] [(h, steps)] g g') := by
  constructor
  intro sound
  have outcome := (ensures_onBuilder (g := g) (gains_code h steps)).outcome sound
  unfold addAssembled
  dsimp only
  cases done : onBuilder (ClassBuilder.code h steps) g with
  | ok u g' =>
    rw [done] at outcome
    dsimp only
    split <;> exact outcome
  | error e g' =>
    rw [done] at outcome
    dsimp only
    split <;> exact outcome

theorem ensures_addMethod (s : ProxySpec) (m : MethodSpec) :
    generating.Ensures (addMethod s m) g (fun _ g' => Gained [] [s.methodPlan m] g g' ∧ s.Admits m) := by
  unfold addMethod
  dsimp only
  split
  · exact Ensures.throw _
  · rename_i ordinary
    rw [not_or] at ordinary
    split
    · exact Ensures.throw _
    · refine (ensures_onBuilder (gains_note _)).bind fun _ g₁ _ _ noted => ?_
      cases body : m.body with
      | handled =>
        cases handler : s.handler with
        | none => exact Ensures.throw _
        | some c =>
          dsimp only
          split
          · exact Ensures.throw _
          · rename_i bound
            refine (ensures_onBuilder (gains_code _ _)).mono fun _ g' _ _ gained => ⟨?_, ordinary.1,
              fun _ => ⟨⟨c, handler⟩, Bool.not_eq_true _ ▸ bound⟩, fun field other => ?_⟩
            · have whole := Gains.trans noted gained
              rwa [ProxySpec.methodPlan, ProxySpec.methodSteps, body, handler]
            · rw [body] at other
              cases other
      | returning field =>
        dsimp only
        split
        · exact Ensures.throw _
        · rename_i bound
          cases captured : s.captureType? field with
          | none => exact Ensures.throw _
          | some type =>
            refine (ensures_onBuilder (gains_code _ _)).mono fun _ g' _ _ gained => ⟨?_, ordinary.1,
              fun other => ?_, fun field' same => ?_⟩
            · have whole := Gains.trans noted gained
              simp only [ProxySpec.methodPlan, ProxySpec.methodSteps, body, captured]
              exact whole
            · rw [body] at other
              cases other
            · rw [body] at same
              cases same
              exact ⟨⟨type, captured⟩, Bool.not_eq_true _ ▸ bound⟩
      | assembled steps =>
        refine (ensures_addAssembled _ _).mono fun _ g' _ _ gained => ⟨?_, ordinary.1,
          fun other => ?_, fun field other => ?_⟩
        · have whole := Gains.trans noted gained
          rwa [ProxySpec.methodPlan, ProxySpec.methodSteps, body]
        · rw [body] at other
          cases other
        · rw [body] at other
          cases other

theorem ensures_addMethods (s : ProxySpec) (before : List (String × String))
    (methods : List MethodSpec) : generating.Ensures (addMethods s before methods) g (fun _ g' =>
      Gained [] (methods.map s.methodPlan) g g' ∧ (∀ m ∈ methods, s.Admits m) ∧
        (∀ m ∈ methods, (m.name, m.descriptor) ∉ before) ∧
        (methods.map fun m => (m.name, m.descriptor)).Nodup) := by
  induction methods generalizing before g with
  | nil => exact Ensures.pure _ fun _ => ⟨gained_refl g, by simp, by simp, .nil⟩
  | cons m rest ih =>
    unfold addMethods
    split
    · exact Ensures.throw _
    · rename_i new
      refine (ensures_addMethod s m).bind fun _ g₁ _ _ first => ?_
      refine (ih ((m.name, m.descriptor) :: before)).mono fun _ g₂ _ _ others => ?_
      obtain ⟨gained, admitted, fresh, distinct⟩ := others
      simp only [List.mem_cons, forall_eq_or_imp]
      refine ⟨Gains.trans first.1 gained, ⟨first.2, admitted⟩, ⟨by simpa using new,
        fun x inside found => fresh x inside (List.mem_cons_of_mem _ found)⟩, ?_⟩
      rw [List.map_cons, List.nodup_cons]
      refine ⟨fun again => ?_, distinct⟩
      obtain ⟨x, inside, same⟩ := List.mem_map.1 again
      exact fresh x inside (same ▸ List.mem_cons_self)

theorem ensures_addMembers (s : ProxySpec) : generating.Ensures (addMembers s) g (fun _ g' =>
    ∃ all, Constructs s all ∧ Gained s.fields (s.plans all) g g' ∧ (s.fields.map (·.1)).Nodup ∧
      (∀ m ∈ s.methods, s.Admits m) ∧ (s.methods.map fun m => (m.name, m.descriptor)).Nodup) := by
  unfold addMembers
  refine (ensures_addHandlerField s).bind fun _ g₁ _ _ first => ?_
  obtain ⟨handlers, apart⟩ := first
  refine (ensures_addCaptures [] s.captures).bind fun _ g₂ _ _ second => ?_
  obtain ⟨captures, -, distinct⟩ := second
  refine (ensures_addConstructors s).bind fun _ g₃ _ _ third => ?_
  obtain ⟨all, constructs, constructors⟩ := third
  refine (ensures_addMethods s [] s.methods).mono fun _ g₄ _ _ fourth => ?_
  obtain ⟨methods, admitted, -, different⟩ := fourth
  refine ⟨all, constructs, ?_, ?_, admitted, different⟩
  · have whole := (Gains.trans handlers captures).trans (Gains.trans constructors methods)
    simp only [List.append_nil, List.nil_append] at whole
    exact whole
  · rw [ProxySpec.fields, List.map_append, List.nodup_append]
    refine ⟨?_, distinct, ?_⟩
    · unfold ProxySpec.handlerField
      cases s.handler <;> simp
    · rintro name own other captured rfl
      obtain ⟨f, inside, rfl⟩ := List.mem_map.1 own
      exact apart f inside captured

end Generation

namespace ProxySpec

structure Describes (s : ProxySpec) (all : List (String × ConstructorSpec)) (c : ClassBuilder) :
    Prop where
  name : c.name = Pool.internalName s.name
  superName : c.superName = Pool.internalName s.superName
  fields : List.Forall₂ (fun f m => FieldKept f c.pool m) s.fields c.fields.toList
  apart : (s.fields.map (·.1)).Nodup
  constructs : Generation.Constructs s all
  methods : List.Forall₂ (fun plan m => MethodHead.Written plan.1 plan.2 c.pool m) (s.plans all)
    c.methods.toList
  admits : ∀ m ∈ s.methods, s.Admits m
  different : (s.methods.map fun m => (m.name, m.descriptor)).Nodup

theorem Describes.distinct {s : ProxySpec} {all : List (String × ConstructorSpec)} {c : ClassBuilder}
    (describes : s.Describes all c) :
    ((s.plans all).map fun plan => (plan.1.name, plan.1.descriptor)).Nodup := by
  have signed := Generation.signatures_eq_ok describes.constructs.signed .nil
  rw [plans, List.map_append, List.map_map, List.map_map, List.nodup_append]
  refine ⟨?_, describes.different, ?_⟩
  · refine List.Nodup.of_map Prod.snd ?_
    rw [List.map_map]
    exact signed.1
  · rintro key constructor_ other method rfl
    obtain ⟨x, -, rfl⟩ := List.mem_map.1 constructor_
    obtain ⟨m, inside, same⟩ := List.mem_map.1 method
    exact (describes.admits m inside).name (Prod.mk.inj same).1

theorem sound_start (s : ProxySpec) (cache : DescriptorCache) :
    (s.start cache).Sound fun _ => true := by
  rw [start_eq]
  exact ⟨.empty, by simp [ofName], by simp [ofName]⟩

theorem describes_of_generate {s : ProxySpec} {cache : DescriptorCache} {file : ClassFile}
    {g : Generation} (generated : s.generate cache = (.ok file, g)) :
    ∃ all, s.Describes all g.builder ∧ (g.builder.Sound fun _ => true) ∧ g.builder.Makes file := by
  have sound : Generation.generating.Holds { builder := s.start cache } := s.sound_start cache
  unfold generate generateWith Generation.run at generated
  rw [s.start_eq cache] at sound generated
  split at generated
  case h_2 => cases generated
  rename_i run
  cases generated
  obtain ⟨u, g₁, added, built⟩ := Outcome.run_bind_eq_ok.1 run
  obtain ⟨sound₁, onward₁, all, constructs, gained, apart, admits, different⟩ :=
    (Generation.ensures_addMembers s).of_eq_ok sound added
  obtain ⟨sound₂, onward₂, makes, keeps⟩ :=
    (Generation.ensures_onBuilder ensures_build).of_eq_ok sound₁ built
  have keeps : g₁.builder.Keeps g.builder := keeps (Later.defaultConstructor onward₁)
  obtain ⟨fields, hfields, kept⟩ := gained.fields
  obtain ⟨methods, hmethods, written⟩ := gained.methods
  have pool := Later.pool onward₂
  refine ⟨all, ⟨?_, ?_, ?_, apart, constructs, ?_, admits, different⟩, sound₂, makes⟩
  · exact keeps.name.trans (Later.name onward₁)
  · exact keeps.superName.trans (Later.superName onward₁)
  · rw [keeps.fields, hfields]
    exact kept.imp fun _ _ kept => kept.mono pool
  · rw [keeps.methods, hmethods]
    exact written.imp fun _ _ written => written.mono pool

end ProxySpec
end ClassForge
