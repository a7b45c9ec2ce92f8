import ClassForge.Proofs.Descriptor.Decoding

namespace ClassForge.FieldType

def Undivided : FieldType → Prop
  | object name => ';' ∉ name.toList
  | array component => component.Undivided
  | _ => True

theorem undivided_arrayOf {t : FieldType} (undivided : t.Undivided) (n : Nat) :
    (t.arrayOf n).Undivided := by
  induction n with
  | zero => exact undivided
  | succ n ih => exact ih

theorem undivided_readElement {text rest : List Char} {t : FieldType}
    (read : readElement text = some (t, rest)) : t.Undivided := by
  unfold readElement at read
  split at read
  · cases read
  · dsimp only at read
    split at read
    · split at read
      · cases read
        rw [Undivided, String.toList_ofList]
        intro inside
        have before := List.mem_takeWhile_imp inside
        simp [endsName] at before
      · cases read
    · cases read
  · obtain ⟨t', found, same⟩ := Option.map_eq_some_iff.1 read
    cases same
    unfold ofLetter? at found
    split at found <;> cases found <;> exact True.intro

theorem undivided_read {text rest : List Char} {t : FieldType} (done : read text = some (t, rest)) :
    t.Undivided := by
  unfold read at done
  dsimp only at done
  split at done
  · cases done
  · simp only [Option.bind_eq_bind, Option.bind_eq_some_iff, Option.pure_def] at done
    obtain ⟨⟨element, rest'⟩, found, same⟩ := done
    cases same
    exact undivided_arrayOf (undivided_readElement found) _

theorem Readable.undivided {t : FieldType} (readable : t.Readable) : t.Undivided :=
  undivided_read (readable.read [])

theorem letters_ne_nil (t : FieldType) : t.letters ≠ [] := by cases t <;> simp [letters]

variable {t : FieldType} {ts us : List FieldType} {xs ys : List Char}

theorem Undivided.semicolon_last (undivided : t.Undivided) (same : t.letters = xs ++ ';' :: ys) :
    ys = [] := by
  induction t generalizing xs with
  | object name =>
    cases xs with
    | nil => simp [letters] at same
    | cons x xs =>
      simp only [letters, List.cons_append, List.cons.injEq] at same
      obtain ⟨-, same⟩ := same
      rcases List.eq_nil_or_concat ys with rfl | ⟨zs, z, rfl⟩
      · rfl
      · rw [List.concat_eq_append] at same
        refine absurd ?_ undivided
        have cut : xs ++ ';' :: (zs ++ [z]) = (xs ++ ';' :: zs) ++ [z] := by simp
        rw [cut] at same
        rw [(List.append_inj' same rfl).1]
        simp
  | array component ih =>
    cases xs with
    | nil => simp [letters] at same
    | cons x xs =>
      simp only [letters, List.cons_append, List.cons.injEq] at same
      exact ih undivided same.2
  | _ =>
    cases xs with
    | nil => simp [letters] at same
    | cons x xs => simp [letters] at same

theorem divides_at_semicolon (undivided : ∀ u ∈ us, u.Undivided)
    (same : us.flatMap letters = xs ++ ';' :: ys) : ∃ first last, us = first ++ last ∧
      first.flatMap letters = xs ++ [';'] ∧ last.flatMap letters = ys := by
  induction us generalizing xs with
  | nil => simp at same
  | cons u rest ih =>
    simp only [List.mem_cons, forall_eq_or_imp] at undivided
    rw [List.flatMap_cons] at same
    rcases List.append_eq_append_iff.1 same with ⟨more, rfl, behind⟩ | ⟨more, own, behind⟩
    · obtain ⟨first, last, rfl, spelled, remaining⟩ := ih undivided.2 behind
      exact ⟨u :: first, last, rfl, by rw [List.flatMap_cons, spelled, List.append_assoc], remaining⟩
    · cases more with
      | nil =>
        have start : rest.flatMap letters = [] ++ ';' :: ys := behind.symm
        obtain ⟨first, last, rfl, spelled, remaining⟩ := ih undivided.2 start
        refine ⟨u :: first, last, rfl, ?_, remaining⟩
        rw [List.flatMap_cons, spelled, own, List.append_nil, List.nil_append]
      | cons c more =>
        simp only [List.cons_append, List.cons.injEq] at behind
        obtain ⟨rfl, behind⟩ := behind
        cases undivided.1.semicolon_last own
        exact ⟨[u], rest, rfl, by simp [own], behind.symm⟩

/-- Types divide where another type ends that is spelled as they begin. -/
theorem divides (t : FieldType) {us : List FieldType} {ys : List Char}
    (undivided : ∀ u ∈ us, u.Undivided) (same : us.flatMap letters = t.letters ++ ys) :
    ∃ first last, us = first ++ last ∧ first.flatMap letters = t.letters ∧
      last.flatMap letters = ys := by
  induction t generalizing us with
  | object name =>
    rw [letters, List.append_assoc, List.singleton_append] at same
    exact divides_at_semicolon undivided same
  | array component ih =>
    cases us with
    | nil => simp [letters] at same
    | cons u rest =>
      simp only [List.mem_cons, forall_eq_or_imp] at undivided
      cases u with
      | array c =>
        simp only [List.flatMap_cons, letters, List.cons_append, List.cons.injEq, true_and] at same
        have inner : ∀ x ∈ c :: rest, x.Undivided := by
          simp only [List.mem_cons, forall_eq_or_imp]
          exact undivided
        obtain ⟨first, last, divided, spelled, remaining⟩ := ih inner same
        cases first with
        | nil => exact absurd spelled.symm component.letters_ne_nil
        | cons x first =>
          rw [List.cons_append, List.cons.injEq] at divided
          obtain ⟨rfl, rfl⟩ := divided
          refine ⟨array c :: first, last, rfl, ?_, remaining⟩
          rw [List.flatMap_cons] at spelled
          rw [List.flatMap_cons, letters, letters, List.cons_append, spelled]
      | _ => simp [letters] at same
  | _ =>
    cases us with
    | nil => simp [letters] at same
    | cons u rest =>
      cases u with
      | _ =>
        simp only [List.flatMap_cons, letters, List.cons_append, List.nil_append, List.cons.injEq,
          Char.reduceEq, false_and, true_and] at same
        try exact ⟨[_], rest, rfl, rfl, same⟩

theorem totalSlots_append (ts us : List FieldType) :
    totalSlots (ts ++ us) = totalSlots ts + totalSlots us := by
  induction ts with
  | nil => exact (Nat.zero_add _).symm
  | cons t rest ih =>
    change t.slots + totalSlots (rest ++ us) = t.slots + totalSlots rest + totalSlots us
    rw [ih, Nat.add_assoc]

theorem slots_le_of_spelled (same : us.flatMap letters = t.letters) :
    t.slots ≤ totalSlots us ∧ (t.slots = totalSlots us → us = [t]) := by
  match us with
  | [] => exact absurd same.symm t.letters_ne_nil
  | [u] =>
    rw [List.flatMap_singleton] at same
    rw [letters_inj same]
    exact ⟨Nat.le_refl _, fun _ => rfl⟩
  | u :: v :: rest =>
    have one := u.slots_pos
    have two := v.slots_pos
    have whole : totalSlots (u :: v :: rest) = u.slots + (v.slots + totalSlots rest) := rfl
    have first := List.length_pos_iff.2 u.letters_ne_nil
    have second := List.length_pos_iff.2 v.letters_ne_nil
    have length := congrArg List.length same
    simp only [List.flatMap_cons, List.length_append] at length
    have single : t.slots = 1 := by
      cases t <;> first | rfl | (simp only [letters, List.length_singleton] at length; omega)
    omega

/-- Types that are spelled like undivided ones are these, or have fewer slots. -/
theorem totalSlots_le_of_spelled (undivided : ∀ u ∈ us, u.Undivided)
    (same : us.flatMap letters = ts.flatMap letters) :
    totalSlots ts ≤ totalSlots us ∧ (totalSlots ts = totalSlots us → ts = us) := by
  induction ts generalizing us with
  | nil =>
    cases us with
    | nil => exact ⟨Nat.le_refl _, fun _ => rfl⟩
    | cons u rest =>
      rw [List.flatMap_cons, List.flatMap_nil, List.append_eq_nil_iff] at same
      exact absurd same.1 u.letters_ne_nil
  | cons t rest ih =>
    rw [List.flatMap_cons] at same
    obtain ⟨first, last, rfl, spelled, remaining⟩ := divides t undivided same
    obtain ⟨le, equal⟩ := slots_le_of_spelled spelled
    obtain ⟨le', equal'⟩ := ih (fun u inside => undivided u (List.mem_append_right _ inside)) remaining
    have left : totalSlots (t :: rest) = t.slots + totalSlots rest := rfl
    have right := totalSlots_append first last
    refine ⟨by omega, fun even => ?_⟩
    rw [equal (by omega), equal' (by omega), List.singleton_append]

end ClassForge.FieldType
