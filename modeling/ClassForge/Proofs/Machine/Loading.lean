import ClassForge.Machine.Load
import ClassForge.Proofs.Outcome
import Mathlib.Data.List.Forall2

namespace ClassForge

structure FieldLoaded (p : Pool) (x : Member) (f : String × UInt16 × FieldType) : Prop where
  name : x.name? p = some f.1
  access : f.2.1 = x.access
  type : ∃ text, x.descriptor? p = some text ∧ FieldType.decode? text = some f.2.2

structure MethodLoaded (p : Pool) (x : Member) (m : Method) : Prop where
  name : x.name? p = some m.name
  descriptor : x.descriptor? p = some m.descriptor
  access : m.access = x.access
  code : m.code = x.code?

structure Declaration.LoadedFrom (own : Declaration) (d : ClassFile) (name : String) : Prop where
  name : own.name = name
  pool : own.pool = d.pool
  fields : ∃ fields, List.Forall₂ (FieldLoaded d.pool) d.fields fields ∧
    own.fields = fields.foldl (fun declared f => declared.insert f.1 f.2) ∅
  methods : ∃ methods, List.Forall₂ (MethodLoaded d.pool) d.methods methods ∧
    own.methods = methods.reverse

namespace Machine

open Outcome

variable {m m' : Machine}

theorem readable_eq_ok {part : NamedPart} {text : Option String} {s : String}
    (done : readable part text m = .ok s m') : text = some s ∧ m' = m := by
  cases text <;> cases done
  exact ⟨rfl, rfl⟩

theorem loadMethod_checks {owner : String} {p : Pool} {x : Member} {loaded : Method}
    (done : loadMethod owner p x m = .ok loaded m') : MethodLoaded p x loaded ∧
      ∃ d m₁ m₂, decodeDescriptor loaded.descriptor m₁ = .ok d m₂ ∧
        ∀ code, loaded.code = some code → ∃ n,
          Body.slotsFrom loaded.isStatic d.params = .ok n ∧
          n ≤ code.maxLocals := by
  unfold loadMethod at done
  obtain ⟨name, m₁, named, done⟩ := run_bind_eq_ok.1 done
  obtain ⟨descriptor, m₂, typed, done⟩ := run_bind_eq_ok.1 done
  obtain ⟨d, m₃, decoded, done⟩ := run_bind_eq_ok.1 done
  have said : MethodLoaded p x ⟨name, descriptor, x.access, x.code?⟩ :=
    ⟨(readable_eq_ok named).1, (readable_eq_ok typed).1, rfl, rfl⟩
  cases coded : x.code? with
  | none =>
    simp only [coded] at done said
    cases done
    exact ⟨said, d, m₂, m', decoded, nofun⟩
  | some body =>
    cases needed : Body.slotsFrom (Method.isStatic ⟨name, descriptor, x.access, some body⟩)
        d.params with
    | error e =>
      simp only [coded, needed] at done
      cases done
    | ok n =>
      simp only [coded, needed] at done said
      by_cases short : body.maxLocals < n
      · rw [if_pos short] at done
        cases done
      · rw [if_neg short] at done
        cases done
        refine ⟨said, d, m₂, m', decoded, fun code same => ⟨n, needed, ?_⟩⟩
        cases same
        exact UInt16.not_lt.1 short

theorem loadMethod_eq_ok {owner : String} {p : Pool} {x : Member} {loaded : Method}
    (done : loadMethod owner p x m = .ok loaded m') : MethodLoaded p x loaded :=
  (loadMethod_checks done).1

theorem loadField_eq_ok {p : Pool} {before after : Fields} {x : Member}
    (done : loadField p before x m = .ok after m') : ∃ f, FieldLoaded p x f ∧
      after.declared = before.declared.insert f.1 f.2 := by
  unfold loadField at done
  obtain ⟨name, m₁, named, done⟩ := run_bind_eq_ok.1 done
  obtain ⟨descriptor, m₂, typed, done⟩ := run_bind_eq_ok.1 done
  cases decoded : FieldType.decode? descriptor with
  | none =>
    simp only [decoded] at done
    cases done
  | some type =>
    refine ⟨(name, x.access, type), ⟨(readable_eq_ok named).1, rfl, descriptor,
      (readable_eq_ok typed).1, decoded⟩, ?_⟩
    simp only [decoded] at done
    by_cases shared : isSet x.access Access.staticFlag = true
    · rw [if_pos shared] at done
      obtain ⟨v, m₃, -, done⟩ := run_bind_eq_ok.1 done
      cases done
      rfl
    · rw [if_neg shared] at done
      cases done
      rfl

theorem loadFields_eq_ok {p : Pool} {before after : Fields} {xs : List Member}
    (done : xs.foldlM (loadField p) before m = .ok after m') : ∃ fields,
      List.Forall₂ (FieldLoaded p) xs fields ∧
        after.declared = fields.foldl (fun declared f => declared.insert f.1 f.2) before.declared := by
  induction xs generalizing m before with
  | nil =>
    cases done
    exact ⟨[], .nil, rfl⟩
  | cons x rest ih =>
    rw [List.foldlM_cons] at done
    obtain ⟨middle, m₁, one, done⟩ := run_bind_eq_ok.1 done
    obtain ⟨f, first, declared⟩ := loadField_eq_ok one
    obtain ⟨fields, others, whole⟩ := ih done
    exact ⟨f :: fields, .cons first others, by rw [whole, declared, List.foldl_cons]⟩

theorem declare_loads {d : ClassFile} {name : String} {own : Declaration}
    {statics : Std.TreeMap String Value} (done : declare d name m = .ok (own, statics) m') :
    ∃ methods, own.methods = methods.reverse ∧ List.Forall₂ (fun x loaded =>
      ∃ m₁ m₂, loadMethod name d.pool x m₁ = .ok loaded m₂) d.methods methods := by
  unfold declare at done
  obtain ⟨fields, m₁, -, done⟩ := run_bind_eq_ok.1 done
  obtain ⟨methods, m₂, second, done⟩ := run_bind_eq_ok.1 done
  cases done
  exact ⟨methods, rfl, run_mapM_eq_ok second⟩

theorem declare_eq_ok {d : ClassFile} {name : String} {own : Declaration}
    {statics : Std.TreeMap String Value} (done : declare d name m = .ok (own, statics) m') :
    own.LoadedFrom d name := by
  obtain ⟨methods, reversed, loaded⟩ := declare_loads done
  unfold declare at done
  obtain ⟨fields, m₁, first, done⟩ := run_bind_eq_ok.1 done
  obtain ⟨_, m₂, -, done⟩ := run_bind_eq_ok.1 done
  cases done
  refine ⟨rfl, rfl, loadFields_eq_ok first, methods, loaded.imp ?_, reversed⟩
  intro x method one
  obtain ⟨_, _, one⟩ := one
  exact loadMethod_eq_ok one

theorem parse_eq_ok {bytes : List UInt8} {d : ClassFile} (done : parse bytes m = .ok d m') :
    ClassFile.parse bytes = .ok d := by
  unfold parse at done
  obtain ⟨u, m₁, -, done⟩ := run_bind_eq_ok.1 done
  cases found : ClassFile.parse bytes with
  | ok d' =>
    simp only [found] at done
    cases done
    rfl
  | error e =>
    simp only [found] at done
    cases done

theorem define_declares {bytes : List UInt8} {name : String}
    (done : define bytes m = .ok name m') : ∃ d own superclass statics m₁ m₂,
      ClassFile.parse bytes = .ok d ∧ d.name? = some name ∧ d.superName?.isSome = true ∧
      m'.classes[name]? = some (.extending own superclass) ∧
      declare d name m₁ = .ok (own, statics) m₂ := by
  unfold define at done
  obtain ⟨d, m₁, parsed, done⟩ := run_bind_eq_ok.1 done
  obtain ⟨name', m₂, named, done⟩ := run_bind_eq_ok.1 done
  obtain ⟨here, m₃, -, done⟩ := run_bind_eq_ok.1 done
  have read := parse_eq_ok parsed
  by_cases there : here.classes.contains name' = true
  · rw [if_pos there] at done
    cases done
  · rw [if_neg there] at done
    cases above : d.superName? with
    | none =>
      simp only [above] at done
      cases done
    | some superName =>
      simp only [above] at done
      obtain ⟨superclass, m₄, -, done⟩ := run_bind_eq_ok.1 done
      obtain ⟨⟨own, statics⟩, m₅, declared, done⟩ := run_bind_eq_ok.1 done
      cases done
      refine ⟨d, own, superclass, statics, m₄, m₅, read, (readable_eq_ok named).1,
        by rw [above]; rfl, ?_, declared⟩
      exact Std.TreeMap.getElem?_insert_self

theorem define_eq_ok {bytes : List UInt8} {name : String} (done : define bytes m = .ok name m') :
    ∃ d own superclass, ClassFile.parse bytes = .ok d ∧ d.name? = some name ∧
      d.superName?.isSome = true ∧ m'.classes[name]? = some (.extending own superclass) ∧
      own.LoadedFrom d name := by
  obtain ⟨d, own, superclass, statics, m₁, m₂, read, named, above, found, declared⟩ :=
    define_declares done
  exact ⟨d, own, superclass, read, named, above, found, declare_eq_ok declared⟩

end Machine
end ClassForge
