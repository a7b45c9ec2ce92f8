import ClassForge.Proofs.Machine.Handlers
import ClassForge.Proofs.Machine.Subtypes
import ClassForge.Proxy.Subtype

namespace ClassForge

variable {source target : FieldType} {n t : String}

/-- The subtypes that generation knows: what a value of the type may pass for besides its own class,
which is named first, and the root. -/
inductive Known : FieldType → String → String → Prop where
  | string {t : String} (known : t ∈ ["java/lang/CharSequence", "java/lang/Comparable",
    "java/io/Serializable"]) : Known (.object "java/lang/String") "java/lang/String" t
  | number : Known (.object "java/lang/Number") "java/lang/Number" "java/io/Serializable"
  | ofNumber {w : FieldType} {n : String} (wraps : FieldType.ofWrapper? n = some w)
    (number : w.wrapsNumber = true) : Known (.object n) n "java/lang/Number"
  | wrapper {w : FieldType} {n t : String} (wraps : FieldType.ofWrapper? n = some w)
    (known : t ∈ ["java/lang/Comparable", "java/io/Serializable"]) : Known (.object n) n t
  | array {c : FieldType} {t : String}
    (known : t ∈ ["java/lang/Cloneable", "java/io/Serializable"]) :
    Known (.array c) (FieldType.array c).descriptor t

theorem known_of_mem (inside : t ∈ knownSupertypes n) : Known (.object n) n t := by
  unfold knownSupertypes at inside
  split at inside
  · rename_i same
    subst same
    exact .string inside
  split at inside
  · rename_i same
    subst same
    cases List.mem_singleton.1 inside
    exact .number
  split at inside
  · rename_i w wraps
    split at inside
    · rename_i number
      rcases List.mem_cons.1 inside with rfl | known
      · exact .ofNumber wraps number
      · exact .wrapper wraps known
    · exact .wrapper wraps inside
  · cases inside

theorem cases_of_assignable (named : source.className? = some n)
    (named' : target.className? = some t) (lets : assignable source target = true) :
    t = objectClass ∨ t = n ∨ Known source n t := by
  cases source with
  | object s =>
    cases named
    cases target with
    | object t =>
      cases named'
      simp only [assignable, Bool.or_eq_true, decide_eq_true_eq, List.contains_iff_mem] at lets
      rcases lets with (root | same) | inside
      · exact .inl root
      · exact .inr (.inl same.symm)
      · exact .inr (.inr (known_of_mem inside))
    | array => simp [assignable] at lets
    | _ => cases named'
  | array c =>
    cases named
    cases target with
    | object t =>
      cases named'
      simp only [assignable, Bool.or_eq_true, decide_eq_true_eq] at lets
      rcases lets with (root | rfl) | rfl
      · exact .inl root
      · exact .inr (.inr (.array (by simp)))
      · exact .inr (.inr (.array (by simp)))
    | array d =>
      cases named'
      simp only [assignable, decide_eq_true_eq] at lets
      exact .inr (.inl (congrArg FieldType.descriptor lets.symm))
    | _ => cases named'
  | _ => cases named

def Object.knownAs (o : Object) (name : String) : Bool :=
  match o with
  | plain c _ => c.isSubclassOf name
  | string _ => name = "java/lang/CharSequence" || name = "java/lang/Comparable"
  | box _ _ => name = "java/lang/Number"
  | builder _ | array _ _ | handler _ => false

theorem FieldType.head_descriptor_array (c : FieldType) :
    (array c).descriptor.toList.head? = some '[' := by
  simp [descriptor, letters]

namespace Known

theorem upper (known : Known source n t) : t = "java/lang/CharSequence" ∨
    t = "java/lang/Comparable" ∨ t = "java/io/Serializable" ∨ t = "java/lang/Number" ∨
    t = "java/lang/Cloneable" := by
  cases known with
  | string known | wrapper _ known | array known =>
    simp only [List.mem_cons, List.not_mem_nil, or_false] at known
    tauto
  | number | ofNumber => simp

theorem ofWrapper?_upper (known : Known source n t) : FieldType.ofWrapper? t = none := by
  rcases known.upper with rfl | rfl | rfl | rfl | rfl <;> rfl

theorem head_upper (known : Known source n t) : t.toList.head? ≠ some '[' := by
  rcases known.upper with rfl | rfl | rfl | rfl | rfl <;> decide

theorem ne (known : Known source n t) : n ≠ t := by
  intro same
  have wrapper := known.ofWrapper?_upper
  have head := known.head_upper
  rw [← same] at wrapper head
  cases known with
  | string known =>
    subst same
    simp at known
  | number => exact absurd same (by decide)
  | ofNumber wraps | wrapper wraps =>
    rw [wraps] at wrapper
    cases wrapper
  | array => exact head (FieldType.head_descriptor_array _)

theorem lower (known : Known source n t) : n = "java/lang/String" ∨ n = "java/lang/Number" ∨
    (FieldType.ofWrapper? n).isSome = true ∨ n.toList.head? = some '[' := by
  cases known with
  | string => exact .inl rfl
  | number => exact .inr (.inl rfl)
  | ofNumber wraps | wrapper wraps => exact .inr (.inr (.inl (Option.isSome_of_eq_some wraps)))
  | array => exact .inr (.inr (.inr (FieldType.head_descriptor_array _)))

theorem wrapsNumber (known : Known source n t) (numbers : t = "java/lang/Number") :
    (FieldType.ofWrapper? n).any FieldType.wrapsNumber = true := by
  cases known with
  | ofNumber wraps number => rwa [wraps]
  | number => exact absurd numbers (by decide)
  | string known | wrapper _ known | array known =>
    subst numbers
    simp at known

theorem isInstance_box {wrapper : String} {v : Value} (known : Known source n t)
    (fits : (Object.box wrapper v).isInstance n = true) :
    (Object.box wrapper v).isInstance t = (Object.box wrapper v).knownAs t := by
  simp only [Object.isInstance, Object.knownAs, Bool.or_eq_true, Bool.and_eq_true,
    decide_eq_true_eq] at fits ⊢
  have other : wrapper ≠ t := by
    rintro rfl
    rcases fits with same | ⟨-, number⟩
    · exact known.ne same.symm
    · rw [known.ofWrapper?_upper] at number
      cases number
  rw [decide_eq_false other, Bool.false_or]
  by_cases numbers : t = "java/lang/Number"
  · have number : (FieldType.ofWrapper? wrapper).any FieldType.wrapsNumber = true := by
      rcases fits with rfl | ⟨-, number⟩
      · exact known.wrapsNumber numbers
      · exact number
    rw [number, Bool.and_true]
  · rw [decide_eq_false numbers, Bool.false_and]

theorem isInstance {o : Object} (known : Known source n t) (fits : o.isInstance n = true) :
    o.isInstance t = o.knownAs t := by
  cases o with
  | plain => rfl
  | string => rcases known.upper with rfl | rfl | rfl | rfl | rfl <;> rfl
  | box => exact known.isInstance_box fits
  | builder text =>
    have lower := known.lower
    simp only [Object.isInstance, Object.knownAs, Bool.or_eq_true, decide_eq_true_eq] at fits ⊢
    rcases fits with rfl | rfl
    · exact absurd lower (by decide)
    · exact absurd lower (by decide)
  | array component elements =>
    simp only [Object.isInstance, Object.knownAs, Object.className]
    have other : (FieldType.array component).descriptor ≠ t := by
      rintro rfl
      exact known.head_upper (FieldType.head_descriptor_array _)
    have references : t ≠ "[Ljava/lang/Object;" := by
      rintro rfl
      exact known.head_upper rfl
    simp [other, references]
  | handler h =>
    simp only [Object.isInstance, Object.knownAs, decide_eq_true_eq, decide_eq_false_iff_not]
      at fits ⊢
    exact fits ▸ known.ne

end Known

namespace Object

def isValue : Object → Bool
  | string _ | array _ _ => true
  | box wrapper _ => (FieldType.ofWrapper? wrapper).isSome
  | plain _ _ | builder _ | handler _ => false

theorem head_of_array {component : FieldType} {elements : Array Value}
    (fits : (array component elements).isInstance n = true) : n.toList.head? = some '[' := by
  simp only [isInstance, className, Bool.or_eq_true, Bool.and_eq_true, decide_eq_true_eq] at fits
  rcases fits with same | ⟨rfl, -⟩
  · exact (of_decide_eq_true same) ▸ component.head_descriptor_array
  · rfl

theorem exists_string {o : Object} (value : o.isValue = true)
    (fits : o.isInstance stringClass = true) : ∃ text, o = .string text := by
  cases o with
  | string text => exact ⟨text, rfl⟩
  | box wrapper v =>
    simp only [isInstance, Bool.or_eq_true, Bool.and_eq_true, decide_eq_true_eq] at fits
    rcases fits with rfl | ⟨number, -⟩
    · cases value
    · exact absurd number (by decide)
  | array component elements =>
    exact absurd (head_of_array fits) (by decide)
  | plain | builder | handler => cases value

theorem exists_box {o : Object} {w : FieldType} (value : o.isValue = true)
    (wraps : FieldType.ofWrapper? n = some w) (fits : o.isInstance n = true) :
    ∃ v, o = .box n v := by
  have named := FieldType.wrapper?_of_ofWrapper? wraps
  cases o with
  | string text =>
    simp only [isInstance, List.contains_iff_mem, List.mem_cons, List.not_mem_nil, or_false] at fits
    rcases fits with rfl | rfl | rfl <;> cases wraps
  | box wrapper v =>
    simp only [isInstance, Bool.or_eq_true, Bool.and_eq_true, decide_eq_true_eq] at fits
    rcases fits with rfl | ⟨rfl, -⟩
    · exact ⟨v, rfl⟩
    · cases wraps
  | array component elements =>
    have head := head_of_array fits
    cases w <;> cases named <;> exact absurd head (by decide)
  | plain | builder | handler => cases value

end Object

namespace Known

theorem upper_of_string (known : Known source n t) (text : n = Object.stringClass) :
    t = "java/lang/CharSequence" ∨ t = "java/lang/Comparable" ∨ t = "java/io/Serializable" := by
  cases known with
  | string known => simpa using known
  | number => exact absurd text (by decide)
  | ofNumber wraps | wrapper wraps =>
    subst text
    cases wraps
  | @array c _ =>
    have head := c.head_descriptor_array
    rw [text] at head
    exact absurd head (by decide)

/-- Text is taken for all that it is known to be except serializable, and wrapped numbers are taken
for numbers. Nothing else is taken for what it is known to be. -/
theorem agrees_iff (known : Known source n t) :
    (∀ o : Object, o.isValue = true → o.isInstance n = true → o.isInstance t = true) ↔
      (n = Object.stringClass ∧ t ≠ "java/io/Serializable") ∨ t = "java/lang/Number" := by
  constructor
  · intro agrees
    have taken (o : Object) (value : o.isValue = true) (fits : o.isInstance n = true) :
        o.knownAs t = true := by
      rw [← known.isInstance fits]
      exact agrees o value fits
    cases known with
    | string known =>
      refine .inl ⟨rfl, ?_⟩
      rintro rfl
      cases taken (.string "") rfl rfl
    | number => cases taken (.box "java/lang/Integer" (.int 0)) rfl rfl
    | ofNumber => exact .inr rfl
    | @wrapper w n t wraps known =>
      have numbers := taken (.box n (.initial w)) (Option.isSome_of_eq_some wraps)
        (by simp [Object.isInstance])
      exact .inr (of_decide_eq_true numbers)
    | @array c t known =>
      cases taken (.array c #[]) rfl (by simp [Object.isInstance, Object.className])
  · rintro (⟨rfl, other⟩ | rfl) o value fits
    · obtain ⟨text, rfl⟩ := Object.exists_string value fits
      rcases known.upper_of_string rfl with rfl | rfl | rfl
      · rfl
      · rfl
      · exact absurd rfl other
    · obtain ⟨w, wraps, -⟩ := (Option.any_eq_true _ _).1 (known.wrapsNumber rfl)
      obtain ⟨v, rfl⟩ := Object.exists_box value wraps fits
      rw [known.isInstance fits]
      rfl

end Known

def Heap.passes (h : Heap) (v : Value) (n t : String) : Bool :=
  t = objectClass || t = n || (h.object? v).any (·.knownAs t)

theorem Heap.exists_reference {h : Heap} {v : Value} {name : String}
    (fits : h.isInstance v name = true) : ∃ r, v = .reference r := by
  cases v with
  | reference r => exact ⟨r, rfl⟩
  | _ => cases fits

namespace Known

variable {h : Heap} {v : Value} {o : Object}

theorem ne_root (known : Known source n t) : n ≠ objectClass ∧ t ≠ objectClass := by
  have lower := known.lower
  have upper := known.upper
  constructor
  · rintro rfl
    exact absurd lower (by decide)
  · rintro rfl
    exact absurd upper (by decide)

theorem isInstance_eq (known : Known source n t) (object : h.object? v = some o) :
    h.isInstance v n = o.isInstance n ∧ h.isInstance v t = o.isInstance t := by
  simp only [Heap.isInstance, object, known.ne_root, decide_false, Bool.false_or, and_self]

theorem isInstance_passes (known : Known source n t) (fits : h.isInstance v n = true) :
    h.isInstance v t = h.passes v n t := by
  obtain ⟨r, rfl⟩ := Heap.exists_reference fits
  have object : h.object? (.reference r) = some (h.get r) := rfl
  obtain ⟨lower, upper⟩ := known.isInstance_eq object
  rw [upper, known.isInstance (lower ▸ fits), Heap.passes, object]
  simp [known.ne_root.2, known.ne.symm]

theorem forall_values_iff (known : Known source n t) (p : Object → Prop) :
    (∀ (h : Heap) v o, h.object? v = some o → p o → h.isInstance v n = true →
        h.isInstance v t = true) ↔
      ∀ o, p o → o.isInstance n = true → o.isInstance t = true := by
  constructor
  · intro all o has fits
    have object : (⟨#[o]⟩ : Heap).object? (.reference ⟨0⟩) = some o := rfl
    obtain ⟨lower, upper⟩ := known.isInstance_eq object
    exact upper ▸ all _ _ o object has (lower.trans fits)
  · intro all h v o object has fits
    obtain ⟨lower, upper⟩ := known.isInstance_eq object
    exact upper.trans (all o has (lower.symm.trans fits))

theorem exists_refused (known : Known source n t) :
    ∃ (h : Heap) (v : Value), h.isInstance v n = true ∧ h.isInstance v t = false := by
  let o : Object := .handler ⟨n, fun _ _ _ _ => .value .null⟩
  have object : (⟨#[o]⟩ : Heap).object? (.reference ⟨0⟩) = some o := rfl
  obtain ⟨lower, upper⟩ := known.isInstance_eq object
  have fits : o.isInstance n = true := by simp [o, Object.isInstance]
  exact ⟨_, _, lower.trans fits, upper.trans (known.isInstance fits)⟩

end Known

/-- An instance of a class that may pass for another one is taken for an instance of that one just if
it is the same class or the root, if the class of a plain object counts as it, if text is asked to
be a sequence of characters or comparable, or if a wrapped value is asked to be a number. Casts let
through null and what is taken for an instance, and refuse everything else. So values are never
refused just for the same class and the root. Text, wrapped values and arrays are never refused also
where text is not asked to be serializable, and where a number is asked for. -/
theorem instance_of_assignable (named : source.className? = some n)
    (named' : target.className? = some t) (lets : assignable source target = true) :
    (∀ (h : Heap) v, h.isInstance v n = true → h.isInstance v t = h.passes v n t) ∧
      (∀ (f : Activation) (m : Machine) v, m.heap.isInstance v n = true →
        f.Told m v t (m.heap.passes v n t)) ∧
      (∀ (f : Activation) (m : Machine) i pc stack, f.owner.pool.classNameAt? i = some t →
        Run.checkCast i ⟨f.holding pc (.null :: stack), m⟩ =
          Run.push .null ⟨f.holding pc stack, m⟩) ∧
      ((∀ (h : Heap) v, h.isInstance v n = true → h.isInstance v t = true) ↔
        t = objectClass ∨ t = n) ∧
      ((∀ (h : Heap) v o, h.object? v = some o → o.isValue = true → h.isInstance v n = true →
          h.isInstance v t = true) ↔
        t = objectClass ∨ t = n ∨ (n = Object.stringClass ∧ t ≠ "java/io/Serializable") ∨
          t = "java/lang/Number") := by
  have cases := cases_of_assignable named named' lets
  have root (h : Heap) v (fits : h.isInstance v n = true) : h.isInstance v objectClass = true := by
    obtain ⟨r, rfl⟩ := Heap.exists_reference fits
    exact h.isInstance_objectClass r
  have same (h : Heap) v (fits : h.isInstance v n = true) :
      h.isInstance v t = h.passes v n t := by
    rcases cases with rfl | rfl | known
    · rw [root h v fits, Heap.passes]
      simp
    · rw [fits, Heap.passes]
      simp
    · exact known.isInstance_passes fits
  refine ⟨same, fun f m v fits => ?_, fun f m i pc stack named => ?_, ?_, ?_⟩
  · obtain ⟨r, rfl⟩ := Heap.exists_reference fits
    rw [← same m.heap _ fits]
    exact f.told m r t
  · rw [Run.checkCast_holding named rfl, if_pos (.inl rfl)]
  · rcases cases with rfl | rfl | known
    · exact iff_of_true root (.inl rfl)
    · exact iff_of_true (fun _ _ fits => fits) (.inr rfl)
    · obtain ⟨h, v, fits, refused⟩ := known.exists_refused
      refine iff_of_false (fun all => ?_) (not_or.2 ⟨known.ne_root.2, known.ne.symm⟩)
      exact absurd (all h v fits) (Bool.not_eq_true _ ▸ refused)
  · rcases cases with rfl | rfl | known
    · exact iff_of_true (fun h v _ _ _ fits => root h v fits) (.inl rfl)
    · exact iff_of_true (fun _ _ _ _ _ fits => fits) (.inr (.inl rfl))
    · rw [known.forall_values_iff (·.isValue = true), known.agrees_iff]
      simp only [known.ne_root.2, known.ne.symm, false_or]

theorem instance_of_assignable_number :
    let h : Heap := ⟨#[.box "java/lang/Integer" (.int 5)]⟩
    assignable (.object "java/lang/Integer") (.object "java/lang/Number") = true ∧
      h.isInstance (.reference ⟨0⟩) "java/lang/Integer" = true ∧
      h.isInstance (.reference ⟨0⟩) "java/lang/Number" = true ∧
      ∀ f : Activation, f.Told { heap := h } (.reference ⟨0⟩) "java/lang/Number" true := by
  intro h
  have lets : assignable (.object "java/lang/Integer") (.object "java/lang/Number") = true := by
    decide
  have fits : h.isInstance (.reference ⟨0⟩) "java/lang/Integer" = true := by decide
  obtain ⟨same, told, -⟩ := instance_of_assignable rfl rfl lets
  exact ⟨lets, fits, same h _ fits, fun f => told f { heap := h } _ fits⟩

/-- Text may pass for what is serializable, and no machine takes it for that. -/
theorem not_instance_of_assignable :
    assignable (.object Object.stringClass) (.object "java/io/Serializable") = true ∧
      ∃ v m, Machine.newString "text" {} = .ok v m ∧
        m.heap.isInstance v Object.stringClass = true ∧
        m.heap.isInstance v "java/io/Serializable" = false ∧
        ∀ f : Activation, f.Told m v "java/io/Serializable" false := by
  refine ⟨by decide, .reference ⟨0⟩, _, rfl, by decide, by decide, fun f => ?_⟩
  exact f.told _ ⟨0⟩ "java/io/Serializable"

end ClassForge
