import ClassForge.Proofs.Descriptor.Decoding
import Mathlib.Data.List.Basic

namespace ClassForge

/-- Parts between single slashes. None is empty, and none has a character that ends names. -/
def IsPath (name : List Char) : Prop :=
  ∃ parts : List (List Char), parts ≠ [] ∧
    (∀ p ∈ parts, p ≠ [] ∧ ∀ c ∈ p, c ≠ '/' ∧ c ≠ ';' ∧ c ≠ '.' ∧ c ≠ '[') ∧
    name = ['/'].intercalate parts

theorem isSegmented_append {part : List Char} (whole : '/' ∉ part) (fresh : Bool)
    (rest : List Char) :
    isSegmented fresh (part ++ rest) = isSegmented (fresh && part.isEmpty) rest := by
  induction part generalizing fresh with
  | nil => simp
  | cons c part ih =>
    simp only [List.mem_cons, not_or] at whole
    have first : isSegmented fresh (c :: (part ++ rest)) = isSegmented false (part ++ rest) := by
      rw [isSegmented]
      exact fun slash => whole.1 slash.symm
    rw [List.cons_append, first, ih whole.2]
    simp

theorem isSegmented_intercalate {parts : List (List Char)} (present : parts ≠ [])
    (whole : ∀ p ∈ parts, p ≠ [] ∧ '/' ∉ p) :
    isSegmented true (['/'].intercalate parts) = true := by
  induction parts with
  | nil => exact absurd rfl present
  | cons p rest ih =>
    simp only [List.mem_cons, forall_eq_or_imp] at whole
    have filled : p.isEmpty = false := List.isEmpty_eq_false_iff.2 whole.1.1
    cases rest with
    | nil =>
      have alone := isSegmented_append whole.1.2 true []
      rw [List.append_nil, filled] at alone
      rw [List.intercalate_singleton, alone]
      rfl
    | cons q rest =>
      rw [List.intercalate_cons_cons, List.append_assoc, isSegmented_append whole.1.2, filled]
      exact ih (List.cons_ne_nil _ _) whole.2

theorem exists_parts {fresh : Bool} {name : List Char} (segmented : isSegmented fresh name = true) :
    ∃ first rest, name = ['/'].intercalate (first :: rest) ∧ (fresh = true → first ≠ []) ∧
      (∀ p ∈ rest, p ≠ []) ∧ ∀ p ∈ first :: rest, '/' ∉ p := by
  induction name generalizing fresh with
  | nil =>
    refine ⟨[], [], rfl, ?_, nofun, by simp⟩
    rintro rfl
    cases segmented
  | cons c name ih =>
    by_cases slash : c = '/'
    · subst slash
      rw [isSegmented, Bool.and_eq_true] at segmented
      obtain ⟨first, rest, rfl, begun, filled, whole⟩ := ih segmented.2
      refine ⟨[], first :: rest, rfl, ?_, ?_, ?_⟩
      · rintro rfl
        cases segmented.1
      · simp only [List.mem_cons, forall_eq_or_imp]
        exact ⟨begun rfl, filled⟩
      · intro p inside
        rcases List.mem_cons.1 inside with rfl | inside
        · exact List.not_mem_nil
        · exact whole p inside
    · rw [isSegmented] at segmented
      · obtain ⟨first, rest, rfl, -, filled, whole⟩ := ih segmented
        simp only [List.mem_cons, forall_eq_or_imp] at whole
        refine ⟨c :: first, rest, ?_, fun _ => List.cons_ne_nil _ _, filled, ?_⟩
        · cases rest with
          | nil => simp only [List.intercalate_singleton]
          | cons p rest => simp only [List.intercalate_cons_cons, List.cons_append]
        · simp only [List.mem_cons, forall_eq_or_imp, not_or]
          exact ⟨⟨fun same => slash same.symm, whole.1⟩, whole.2⟩
      · exact slash

theorem mem_intercalate {parts : List (List Char)} {c : Char}
    (inside : c ∈ ['/'].intercalate parts) : c = '/' ∨ ∃ p ∈ parts, c ∈ p := by
  induction parts with
  | nil => cases inside
  | cons p rest ih =>
    cases rest with
    | nil =>
      rw [List.intercalate_singleton] at inside
      exact .inr ⟨p, List.mem_singleton_self p, inside⟩
    | cons q rest =>
      rw [List.intercalate_cons_cons, List.append_assoc, List.mem_append] at inside
      rcases inside with inside | inside
      · exact .inr ⟨p, List.mem_cons_self, inside⟩
      · rcases List.mem_cons.1 inside with slash | inside
        · exact .inl slash
        · rcases ih inside with slash | ⟨r, among, inside⟩
          · exact .inl slash
          · exact .inr ⟨r, List.mem_cons_of_mem _ among, inside⟩

theorem mem_intercalate_of_mem {parts : List (List Char)} {p : List Char} {c : Char}
    (among : p ∈ parts) (inside : c ∈ p) : c ∈ ['/'].intercalate parts := by
  induction parts with
  | nil => cases among
  | cons q rest ih =>
    cases rest with
    | nil =>
      rw [List.mem_singleton.1 among] at inside
      rwa [List.intercalate_singleton]
    | cons r rest =>
      rw [List.intercalate_cons_cons, List.append_assoc, List.mem_append]
      rcases List.mem_cons.1 among with rfl | among
      · exact .inl inside
      · exact .inr (List.mem_cons_of_mem _ (ih among))

theorem isPath_iff {name : List Char} :
    IsPath name ↔ isSegmented true name = true ∧ ∀ c ∈ name, endsName c = false := by
  constructor
  · rintro ⟨parts, present, filled, rfl⟩
    refine ⟨isSegmented_intercalate present fun p among => ?_, fun c inside => ?_⟩
    · exact ⟨(filled p among).1, fun slash => ((filled p among).2 _ slash).1 rfl⟩
    · rcases mem_intercalate inside with rfl | ⟨p, among, inside⟩
      · rfl
      · obtain ⟨-, semicolon, dot, bracket⟩ := (filled p among).2 c inside
        simp [endsName, semicolon, dot, bracket]
  · rintro ⟨segmented, continues⟩
    obtain ⟨first, rest, rfl, begun, filled, whole⟩ := exists_parts segmented
    refine ⟨first :: rest, List.cons_ne_nil _ _, fun p among => ⟨?_, fun c inside => ?_⟩, rfl⟩
    · rcases List.mem_cons.1 among with rfl | among
      · exact begun rfl
      · exact filled p among
    · have apart := continues c (mem_intercalate_of_mem among inside)
      simp only [endsName, Bool.or_eq_false_iff, decide_eq_false_iff_not] at apart
      refine ⟨?_, apart.1.1, apart.1.2, apart.2⟩
      rintro rfl
      exact whole p among inside

namespace FieldType

/-- Classes inside the type are named by paths. -/
def Named : FieldType → Prop
  | object name => IsPath name.toList
  | array component => component.Named
  | _ => True

/-- Types that have a descriptor. -/
structure WellFormed (t : FieldType) : Prop where
  shallow : t.dimensions ≤ 255
  named : t.Named

theorem dimensions_arrayOf (t : FieldType) (n : Nat) :
    (t.arrayOf n).dimensions = t.dimensions + n := by
  induction n with
  | zero => rfl
  | succ n ih => rw [arrayOf, dimensions, ih, Nat.add_assoc]

theorem named_arrayOf (t : FieldType) (n : Nat) : (t.arrayOf n).Named ↔ t.Named := by
  induction n with
  | zero => rfl
  | succ n ih => exact ih

theorem exists_element (t : FieldType) :
    ∃ e : FieldType, e.dimensions = 0 ∧ t = e.arrayOf t.dimensions := by
  induction t with
  | array component ih =>
    obtain ⟨e, flat, same⟩ := ih
    refine ⟨e, flat, ?_⟩
    rw [dimensions, arrayOf, ← same]
  | _ => exact ⟨_, rfl, rfl⟩

theorem element_of_read {text rest : List Char} {t : FieldType}
    (read : readElement text = some (t, rest)) : t.dimensions = 0 ∧ t.Named := by
  unfold readElement at read
  split at read
  · cases read
  · dsimp only at read
    split at read
    · split at read
      · rename_i segmented
        cases read
        refine ⟨rfl, ?_⟩
        rw [Named, String.toList_ofList, isPath_iff]
        refine ⟨segmented, fun c inside => ?_⟩
        simpa using List.mem_takeWhile_imp inside
      · cases read
    · cases read
  · obtain ⟨t', found, same⟩ := Option.map_eq_some_iff.1 read
    cases same
    unfold ofLetter? at found
    split at found <;> cases found <;> exact ⟨rfl, True.intro⟩

theorem wellFormed_of_read {text rest : List Char} {t : FieldType}
    (done : read text = some (t, rest)) : t.WellFormed := by
  unfold read at done
  dsimp only at done
  split at done
  · cases done
  · rename_i shallow
    simp only [Option.bind_eq_bind, Option.bind_eq_some_iff, Option.pure_def] at done
    obtain ⟨⟨element, rest'⟩, found, same⟩ := done
    cases same
    obtain ⟨flat, named⟩ := element_of_read found
    constructor
    · rw [dimensions_arrayOf, flat, Nat.zero_add]
      exact Nat.not_lt.1 shallow
    · exact (named_arrayOf _ _).2 named

theorem readElement_letters {e : FieldType} (flat : e.dimensions = 0) (named : e.Named)
    (more : List Char) : readElement (e.letters ++ more) = some (e, more) := by
  cases e with
  | array component => cases flat
  | object name =>
    obtain ⟨segmented, continues⟩ := isPath_iff.1 named
    have inside : ∀ c ∈ name.toList, (!endsName c) = true := by
      intro c inside
      rw [continues c inside]
      rfl
    have ends : (!endsName ';') = false := rfl
    rw [letters, List.append_assoc, List.cons_append, readElement]
    simp only [List.takeWhile_append_of_pos inside, List.dropWhile_append_of_pos inside,
      List.singleton_append, List.takeWhile_cons, List.dropWhile_cons, ends, Bool.false_eq_true,
      if_false, List.append_nil, segmented, if_true, String.ofList_toList]
  | _ => rfl

theorem WellFormed.read {t : FieldType} (wellFormed : t.WellFormed) (more : List Char) :
    FieldType.read (t.letters ++ more) = some (t, more) := by
  obtain ⟨e, flat, same⟩ := exists_element t
  have named : e.Named := by
    rw [← named_arrayOf e t.dimensions, ← same]
    exact wellFormed.named
  have brackets : ∀ c ∈ List.replicate t.dimensions '[', (decide (c = '[')) = true := by
    intro c inside
    rw [List.eq_of_mem_replicate inside]
    rfl
  have behind : (e.letters ++ more).takeWhile (· = '[') = [] ∧
      (e.letters ++ more).dropWhile (· = '[') = e.letters ++ more := by
    cases e with
    | array component => cases flat
    | _ => exact ⟨rfl, rfl⟩
  have shallow : ¬maxDimensions < t.dimensions := Nat.not_lt.2 wellFormed.shallow
  have letters : t.letters = List.replicate t.dimensions '[' ++ e.letters := by
    rw [← letters_arrayOf, ← same]
  rw [letters, List.append_assoc, FieldType.read]
  simp only [List.takeWhile_append_of_pos brackets, List.dropWhile_append_of_pos brackets, behind.1,
    behind.2, List.append_nil, List.length_replicate, if_neg shallow,
    readElement_letters flat named more]
  exact congrArg (fun u => some (u, more)) same.symm

theorem readable_iff {t : FieldType} : t.Readable ↔ t.WellFormed := by
  constructor
  · intro readable
    exact wellFormed_of_read (readable.read [])
  · intro wellFormed
    have read := wellFormed.read []
    rw [List.append_nil] at read
    rw [Readable, decode?, descriptor, String.toList_ofList, read]

theorem decode?_eq_some_iff {text : String} {t : FieldType} :
    decode? text = some t ↔ t.descriptor = text ∧ t.WellFormed := by
  constructor
  · intro decoded
    have spelled : t.descriptor = text := by
      rw [descriptor, ← letters_of_decode? decoded, String.ofList_toList]
    rw [← spelled] at decoded
    exact ⟨spelled, readable_iff.1 decoded⟩
  · rintro ⟨rfl, wellFormed⟩
    exact readable_iff.2 wellFormed

end FieldType

namespace MethodDescriptor

structure WellFormed (d : MethodDescriptor) : Prop where
  params : ∀ t ∈ d.params, t.WellFormed
  returns : ∀ t, d.returns = some t → t.WellFormed

theorem wellFormed_of_readParams (text : List Char) :
    ∀ t ∈ (readParams text).1, t.WellFormed := by
  induction text using readParams.induct with
  | case1 text refused =>
    rw [readParams_of_none refused]
    intro t inside
    cases inside
  | case2 text t rest found _ _ _ ih =>
    rw [readParams_of_some found]
    simp only [List.mem_cons, forall_eq_or_imp]
    exact ⟨FieldType.wellFormed_of_read found, ih⟩

theorem wellFormed_of_readReturn {text rest : List Char} {returns : Option FieldType}
    (done : readReturn text = some (returns, rest)) {t : FieldType} (given : returns = some t) :
    t.WellFormed := by
  unfold readReturn at done
  split at done
  · cases done
    cases given
  · obtain ⟨⟨u, rest'⟩, found, same⟩ := Option.map_eq_some_iff.1 done
    cases same
    cases given
    exact FieldType.wellFormed_of_read found

theorem wellFormed_of_decode? {text : String} {d : MethodDescriptor}
    (decoded : decode? text = some d) : d.WellFormed := by
  unfold decode? at decoded
  split at decoded
  · rename_i d' found
    cases decoded
    unfold read at found
    split at found
    · rename_i tail _
      dsimp only at found
      split at found
      · obtain ⟨⟨returns, rest'⟩, returned, same⟩ := Option.map_eq_some_iff.1 found
        cases same
        exact ⟨wellFormed_of_readParams tail, fun t given => wellFormed_of_readReturn returned given⟩
      · cases found
    · cases found
  · cases decoded

theorem decode?_eq_some_iff {text : String} {d : MethodDescriptor} :
    decode? text = some d ↔ d.descriptor = text ∧ d.WellFormed := by
  constructor
  · intro decoded
    exact ⟨descriptor_of_decode? decoded, wellFormed_of_decode? decoded⟩
  · rintro ⟨rfl, params, returns⟩
    exact decode?_descriptor (fun t inside => FieldType.readable_iff.2 (params t inside))
      fun t given => FieldType.readable_iff.2 (returns t given)

end MethodDescriptor

/-- Reading accepts the descriptors of well-formed types, each as the type it is made for, and no
other text. -/
theorem decodes_iff_spells :
    (∀ (text : String) (t : FieldType),
      FieldType.decode? text = some t ↔ t.descriptor = text ∧ t.WellFormed) ∧
    ∀ (text : String) (d : MethodDescriptor),
      MethodDescriptor.decode? text = some d ↔ d.descriptor = text ∧ d.WellFormed :=
  ⟨fun _ _ => FieldType.decode?_eq_some_iff, fun _ _ => MethodDescriptor.decode?_eq_some_iff⟩

example : FieldType.decode? "[[La/b;" = some (.array (.array (.object "a/b"))) ∧
    FieldType.decode? "La//b;" = none ∧ FieldType.decode? "[V" = none := by decide +kernel

end ClassForge
