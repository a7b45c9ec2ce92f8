import ClassForge.Descriptor.Reader
import Mathlib.Data.List.TakeWhile

namespace ClassForge

namespace FieldType

theorem letters_arrayOf (t : FieldType) (n : Nat) :
    (t.arrayOf n).letters = List.replicate n '[' ++ t.letters := by
  induction n with
  | zero => rfl
  | succ n ih => rw [arrayOf, letters, ih, List.replicate_succ, List.cons_append]

theorem letters_of_ofLetter? {c : Char} {t : FieldType} (found : ofLetter? c = some t) :
    t.letters = [c] := by
  unfold ofLetter? at found
  split at found <;> cases found <;> rfl

theorem readElement_eq_some {text rest : List Char} {t : FieldType}
    (read : readElement text = some (t, rest)) : text = t.letters ++ rest := by
  unfold readElement at read
  split at read
  · cases read
  · rename_i tail
    have whole := List.takeWhile_append_dropWhile (p := (!endsName ·)) (l := tail)
    dsimp only at read
    split at read
    · rename_i rest' same
      rw [same] at whole
      split at read
      · cases read
        rw [letters, String.toList_ofList, List.cons_append, List.cons_append, List.append_assoc,
          List.singleton_append, whole]
      · cases read
    · cases read
  · rename_i c tail _
    obtain ⟨t', found, same⟩ := Option.map_eq_some_iff.1 read
    cases same
    rw [letters_of_ofLetter? found]
    rfl

theorem read_eq_some {text rest : List Char} {t : FieldType} (done : read text = some (t, rest)) :
    text = t.letters ++ rest := by
  unfold read at done
  dsimp only at done
  split at done
  · cases done
  · simp only [Option.bind_eq_bind, Option.bind_eq_some_iff, Option.pure_def] at done
    obtain ⟨⟨element, rest'⟩, found, same⟩ := done
    cases same
    have brackets : text.takeWhile (· = '[') =
        List.replicate (text.takeWhile (· = '[')).length '[' := by
      refine List.eq_replicate_iff.2 ⟨rfl, fun c inside => ?_⟩
      simpa using List.mem_takeWhile_imp inside
    have whole := List.takeWhile_append_dropWhile (p := (decide <| · = '[')) (l := text)
    rw [readElement_eq_some found] at whole
    rw [letters_arrayOf, List.append_assoc, ← brackets, whole]

theorem dot_not_mem_readElement {text rest : List Char} {t : FieldType}
    (read : readElement text = some (t, rest)) : '.' ∉ t.letters := by
  unfold readElement at read
  split at read
  · cases read
  · dsimp only at read
    split at read
    · split at read
      · cases read
        rw [letters, String.toList_ofList]
        simp only [List.mem_append, List.mem_cons, List.not_mem_nil, or_false,
          false_or, Char.reduceEq]
        intro inside
        have before := List.mem_takeWhile_imp inside
        simp [endsName] at before
      · cases read
    · cases read
  · rename_i c tail _
    obtain ⟨t', found, same⟩ := Option.map_eq_some_iff.1 read
    cases same
    unfold ofLetter? at found
    split at found <;> cases found <;> decide

theorem dot_not_mem_letters {text rest : List Char} {t : FieldType}
    (done : read text = some (t, rest)) : '.' ∉ t.letters := by
  unfold read at done
  dsimp only at done
  split at done
  · cases done
  · simp only [Option.bind_eq_bind, Option.bind_eq_some_iff, Option.pure_def] at done
    obtain ⟨⟨element, rest'⟩, found, same⟩ := done
    cases same
    rw [letters_arrayOf, List.mem_append, not_or]
    refine ⟨fun inside => ?_, dot_not_mem_readElement found⟩
    cases List.eq_of_mem_replicate inside

theorem ends_append {p : Char → Bool} {text rest : List Char} {c : Char} (more : List Char)
    (ends : text.dropWhile p = c :: rest) : (text ++ more).takeWhile p = text.takeWhile p ∧
      (text ++ more).dropWhile p = c :: (rest ++ more) := by
  have whole := List.takeWhile_append_dropWhile (p := p) (l := text)
  have short : (text.takeWhile p).length ≠ text.length := by
    have length := congrArg List.length whole
    rw [ends, List.length_append, List.length_cons] at length
    omega
  rw [List.takeWhile_append, List.dropWhile_append, if_neg short, ends]
  simp

theorem readElement_append {text rest : List Char} {t : FieldType} (more : List Char)
    (read : readElement text = some (t, rest)) :
    readElement (text ++ more) = some (t, rest ++ more) := by
  unfold readElement at read
  split at read
  · cases read
  · rename_i tail
    dsimp only at read
    split at read
    · rename_i rest' same
      obtain ⟨name, behind⟩ := ends_append more same
      split at read
      · rename_i segmented
        cases read
        rw [List.cons_append, readElement]
        simp only [name, behind, segmented, if_true]
      · cases read
    · cases read
  · rename_i c tail other
    obtain ⟨t', found, same⟩ := Option.map_eq_some_iff.1 read
    cases same
    rw [List.cons_append, readElement]
    · rw [found, Option.map_some]
    · exact fun same => other same

theorem read_append {text rest : List Char} {t : FieldType} (more : List Char)
    (done : read text = some (t, rest)) : read (text ++ more) = some (t, rest ++ more) := by
  unfold read at done ⊢
  dsimp only at done ⊢
  split at done
  · cases done
  · rename_i shallow
    simp only [Option.bind_eq_bind, Option.bind_eq_some_iff, Option.pure_def] at done
    obtain ⟨⟨element, rest'⟩, found, same⟩ := done
    cases same
    cases behind : text.dropWhile (· = '[') with
    | nil =>
      rw [behind] at found
      cases found
    | cons c tail =>
      obtain ⟨brackets, behind'⟩ := ends_append more behind
      rw [behind] at found
      have appended := readElement_append more found
      rw [List.cons_append] at appended
      simp only [brackets, shallow, if_false, behind', appended]
      rfl

def Readable (t : FieldType) : Prop := decode? t.descriptor = some t

instance (t : FieldType) : Decidable t.Readable := inferInstanceAs (Decidable (_ = _))

theorem letters_inj {t u : FieldType} (same : t.letters = u.letters) : t = u := by
  induction t generalizing u with
  | array c ih =>
    cases u with
    | array d =>
      rw [letters, letters, List.cons.injEq] at same
      rw [ih same.2]
    | _ => simp [letters] at same
  | object n =>
    cases u with
    | object m =>
      rw [letters, letters, List.cons_append, List.cons_append, List.cons.injEq,
        List.append_cancel_right_eq] at same
      rw [String.toList_inj.1 same.2]
    | _ => simp [letters] at same
  | _ => cases u <;> simp [letters] at same ⊢

theorem letters_of_decode? {text : String} {t : FieldType} (decoded : decode? text = some t) :
    text.toList = t.letters := by
  unfold decode? at decoded
  split at decoded
  · rename_i t' found
    cases decoded
    rw [read_eq_some found, List.append_nil]
  · cases decoded

theorem readable_of_isSome {t : FieldType} (accepted : (decode? t.descriptor).isSome = true) :
    t.Readable := by
  obtain ⟨u, decoded⟩ := Option.isSome_iff_exists.1 accepted
  have same := letters_of_decode? decoded
  rw [descriptor, String.toList_ofList] at same
  rw [Readable, decoded, letters_inj same]

theorem Readable.read {t : FieldType} (readable : t.Readable) (more : List Char) :
    FieldType.read (t.letters ++ more) = some (t, more) := by
  rw [Readable, decode?, descriptor, String.toList_ofList] at readable
  split at readable
  · rename_i u found
    cases readable
    exact read_append more found
  · cases readable

end FieldType

namespace MethodDescriptor

open FieldType (Readable)

theorem readParams_of_none {text : List Char} (refused : FieldType.read text = none) :
    readParams text = ([], text) := by
  rw [readParams]
  split
  · rfl
  · rename_i found
    rw [refused] at found
    cases found

theorem readParams_of_some {text rest : List Char} {t : FieldType}
    (found : FieldType.read text = some (t, rest)) :
    readParams text = (t :: (readParams rest).1, (readParams rest).2) := by
  rw [readParams]
  split
  · rename_i refused
    rw [found] at refused
    cases refused
  · rename_i found'
    rw [found] at found'
    cases found'
    rfl

theorem readParams_eq (text : List Char) :
    text = (readParams text).1.flatMap FieldType.letters ++ (readParams text).2 := by
  induction text using readParams.induct with
  | case1 text refused => rw [readParams_of_none refused, List.flatMap_nil, List.nil_append]
  | case2 text t rest found _ _ _ ih =>
    rw [readParams_of_some found, List.flatMap_cons, List.append_assoc, ← ih]
    exact FieldType.read_eq_some found

theorem readReturn_eq_some {text rest : List Char} {t : Option FieldType}
    (done : readReturn text = some (t, rest)) : text = returnLetters t ++ rest := by
  unfold readReturn at done
  split at done
  · cases done
    rfl
  · obtain ⟨⟨u, rest'⟩, found, same⟩ := Option.map_eq_some_iff.1 done
    cases same
    exact FieldType.read_eq_some found

theorem dot_not_mem_returns {text : String} {d : MethodDescriptor} (decoded : decode? text = some d)
    {t : FieldType} (returns : d.returns = some t) : '.' ∉ t.letters := by
  unfold decode? at decoded
  split at decoded
  · rename_i d' found
    cases decoded
    unfold read at found
    split at found
    · dsimp only at found
      split at found
      · obtain ⟨⟨u, rest'⟩, returned, same⟩ := Option.map_eq_some_iff.1 found
        cases same
        cases returns
        unfold readReturn at returned
        split at returned
        · cases returned
        · obtain ⟨⟨v, rest⟩, last, same⟩ := Option.map_eq_some_iff.1 returned
          cases same
          exact FieldType.dot_not_mem_letters last
      · cases found
    · cases found
  · cases decoded

theorem descriptor_of_decode? {text : String} {d : MethodDescriptor}
    (decoded : decode? text = some d) : d.descriptor = text := by
  suffices letters : text.toList = d.letters by
    rw [descriptor, ← letters, String.ofList_toList]
  unfold decode? at decoded
  split at decoded
  · rename_i d' found
    cases decoded
    unfold read at found
    split at found
    · rename_i tail opened
      have params := readParams_eq tail
      dsimp only at found
      split at found
      · rename_i rest behind
        obtain ⟨⟨returns, rest'⟩, returned, same⟩ := Option.map_eq_some_iff.1 found
        cases same
        rw [behind, readReturn_eq_some returned, List.append_nil] at params
        rw [opened, MethodDescriptor.letters, List.cons_append, ← params]
      · cases found
    · cases found
  · cases decoded

theorem readParams_of_readable {ts : List FieldType} (readable : ∀ t ∈ ts, t.Readable)
    {more : List Char} (ends : FieldType.read more = none) :
    readParams (ts.flatMap FieldType.letters ++ more) = (ts, more) := by
  induction ts with
  | nil => exact readParams_of_none ends
  | cons t rest ih =>
    simp only [List.mem_cons, forall_eq_or_imp] at readable
    have first := readable.1.read (rest.flatMap FieldType.letters ++ more)
    rw [List.flatMap_cons, List.append_assoc, readParams_of_some first, ih readable.2]

theorem readReturn_of_readable {returns : Option FieldType}
    (readable : ∀ t, returns = some t → t.Readable) :
    readReturn (returnLetters returns) = some (returns, []) := by
  cases returns with
  | none => rfl
  | some t =>
    have read := (readable t rfl).read []
    rw [List.append_nil] at read
    have direct : readReturn t.letters = (FieldType.read t.letters).map fun read =>
        (some read.1, read.2) := by
      cases t <;> rfl
    rw [returnLetters, direct, read]
    rfl

theorem decode?_descriptor {d : MethodDescriptor} (params : ∀ t ∈ d.params, t.Readable)
    (returns : ∀ t, d.returns = some t → t.Readable) : decode? d.descriptor = some d := by
  have ends : readParams (d.params.flatMap FieldType.letters ++ ')' :: returnLetters d.returns) =
      (d.params, ')' :: returnLetters d.returns) := readParams_of_readable params rfl
  rw [decode?, descriptor, String.toList_ofList, letters, List.cons_append, read]
  simp only [ends, readReturn_of_readable returns]
  rfl

end MethodDescriptor
end ClassForge
