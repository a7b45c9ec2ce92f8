import ClassForge.Proofs.Machine.Loading

namespace ClassForge

/-- The name and the descriptor that the member has in the pool, however they are spelled there. -/
def Member.Called (p : Pool) (name descriptor : String) (x : Member) : Prop :=
  x.name? p = some name ∧ x.descriptor? p = some descriptor

namespace ClassFile

structure FirstCalled (d : ClassFile) (name descriptor : String) (i : Nat) (x : Member) :
    Prop where
  here : d.methods[i]? = some x
  called : x.Called d.pool name descriptor
  before : ∀ k y, k < i → d.methods[k]? = some y → ¬y.Called d.pool name descriptor

structure LastCalled (d : ClassFile) (name descriptor : String) (i : Nat) (x : Member) :
    Prop where
  here : d.methods[i]? = some x
  called : x.Called d.pool name descriptor
  behind : ∀ k y, i < k → d.methods[k]? = some y → ¬y.Called d.pool name descriptor

variable {d : ClassFile} {name descriptor : String}

theorem LastCalled.unique {i j : Nat} {x y : Member} (last : d.LastCalled name descriptor i x)
    (last' : d.LastCalled name descriptor j y) : i = j ∧ x = y := by
  have before : ¬i < j := fun less => last.behind j y less last'.here last'.called
  have behind : ¬j < i := fun less => last'.behind i x less last.here last.called
  obtain rfl : i = j := by omega
  exact ⟨rfl, Option.some.inj (last.here.symm.trans last'.here)⟩

theorem findMethod?_eq_none : d.findMethod? name descriptor = none ↔
    ∀ x ∈ d.methods, ¬x.Called d.pool name descriptor := by
  simp [findMethod?, Member.Called]

theorem exists_firstCalled {i : Nat} (found : d.findMethod? name descriptor = some i) :
    ∃ x, d.FirstCalled name descriptor i x := by
  obtain ⟨inside, called, before⟩ := List.findIdx?_eq_some_iff_getElem.1 found
  refine ⟨d.methods[i], List.getElem?_eq_getElem inside, by simpa [Member.Called] using called, ?_⟩
  intro k y less here calledSo
  obtain ⟨_, rfl⟩ := List.getElem?_eq_some_iff.1 here
  exact before k less (by simpa [Member.Called] using calledSo)

end ClassFile

theorem find?_reverse_of_forall₂ {α β : Type} {R : α → β → Prop} {P : α → Prop} {q : β → Bool}
    (agree : ∀ a b, R a b → (q b = true ↔ P a)) {xs : List α} {ys : List β}
    (related : List.Forall₂ R xs ys) :
    (ys.reverse.find? q = none ∧ ∀ x ∈ xs, ¬P x) ∨ ∃ i x y, ys.reverse.find? q = some y ∧
      xs[i]? = some x ∧ R x y ∧ P x ∧ ∀ (k : Nat) z, i < k → xs[k]? = some z → ¬P z := by
  induction related with
  | nil => exact .inl ⟨rfl, by simp⟩
  | @cons x y xs ys first _ ih =>
    rw [List.reverse_cons, List.find?_append]
    rcases ih with ⟨absent, none_⟩ | ⟨i, x', y', found, here, same, passes, behind⟩
    · rw [absent, Option.none_or]
      by_cases passes : P x
      · refine .inr ⟨0, x, y, ?_, rfl, first, passes, fun k z positive here => ?_⟩
        · rw [List.find?_singleton, if_pos ((agree x y first).2 passes)]
        · rw [List.getElem?_cons, if_neg (Nat.ne_of_gt positive)] at here
          exact none_ z (List.mem_of_getElem? here)
      · refine .inl ⟨?_, List.forall_mem_cons.2 ⟨passes, none_⟩⟩
        rw [List.find?_singleton, if_neg (mt (agree x y first).1 passes)]
    · rw [found, Option.some_or]
      refine .inr ⟨i + 1, x', y', rfl, here, same, passes, fun k z less here => ?_⟩
      obtain ⟨k, rfl⟩ := Nat.exists_eq_succ_of_ne_zero (Nat.ne_zero_of_lt less)
      exact behind k z (Nat.lt_of_succ_lt_succ less) here

theorem Declaration.LoadedFrom.declaredMethod? {own : Declaration} {d : ClassFile} {name : String}
    (loaded : own.LoadedFrom d name) (superclass : LoadedClass) (called descriptor : String) :
    ((LoadedClass.extending own superclass).declaredMethod? called descriptor = none ∧
      ∀ x ∈ d.methods, ¬x.Called d.pool called descriptor) ∨
    ∃ i x method, (LoadedClass.extending own superclass).declaredMethod? called descriptor =
      some method ∧ d.LastCalled called descriptor i x ∧ MethodLoaded d.pool x method := by
  obtain ⟨methods, related, reversed⟩ := loaded.methods
  have agree (x : Member) (m : Method) (same : MethodLoaded d.pool x m) :
      (m.name = called && m.descriptor = descriptor) = true ↔
        x.Called d.pool called descriptor := by
    simp [Member.Called, same.name, same.descriptor]
  rw [LoadedClass.declaredMethod?, LoadedClass.own, reversed]
  rcases find?_reverse_of_forall₂ agree related with none_ | ⟨i, x, m, found, here, same, calledSo,
    behind⟩
  · exact .inl none_
  · exact .inr ⟨i, x, m, found, ⟨here, calledSo, behind⟩, same⟩

namespace Machine

variable {m m' : Machine}

/-- A class that was defined declares a method just if its class file finds one. The file finds the
first of those that are called so, and the class has the last, with its access flags and its code.
They are the same where one method is called so. -/
theorem define_finds {bytes : List UInt8} {name : String} (done : define bytes m = .ok name m') :
    ∃ d c, ClassFile.parse bytes = .ok d ∧ m'.classes[name]? = some c ∧ ∀ called descriptor,
      (d.findMethod? called descriptor = none ∧ c.declaredMethod? called descriptor = none) ∨
      ∃ i x j y method, d.findMethod? called descriptor = some i ∧
        d.FirstCalled called descriptor i x ∧ c.declaredMethod? called descriptor = some method ∧
        d.LastCalled called descriptor j y ∧ method.access = y.access ∧ method.code = y.code? ∧
        (d.LastCalled called descriptor i x →
          method.access = x.access ∧ method.code = x.code?) := by
  obtain ⟨d, own, superclass, read, -, -, found, loaded⟩ := define_eq_ok done
  refine ⟨d, .extending own superclass, read, found, fun called descriptor => ?_⟩
  rcases loaded.declaredMethod? superclass called descriptor with ⟨absent, none_⟩ |
    ⟨j, y, method, declared, last, same⟩
  · exact .inl ⟨ClassFile.findMethod?_eq_none.2 none_, absent⟩
  · cases asked : d.findMethod? called descriptor with
    | none =>
      have none_ := ClassFile.findMethod?_eq_none.1 asked y (List.mem_of_getElem? last.here)
      exact absurd last.called none_
    | some i =>
      obtain ⟨x, first⟩ := ClassFile.exists_firstCalled asked
      refine .inr ⟨i, x, j, y, method, rfl, first, declared, last, same.access, same.code, ?_⟩
      intro only
      obtain ⟨-, rfl⟩ := only.unique last
      exact ⟨same.access, same.code⟩

/-- The file of a class with the methods, whose names and descriptors stand at 5 and 6. -/
def declaringMethods (methods : List (List UInt8)) : List UInt8 :=
  let text (s : String) : List UInt8 :=
    1 :: Bytes.ofU16 (UInt16.ofNat s.utf8ByteSize) ++ Text.ModifiedUtf8.encode s
  [0xca, 0xfe, 0xba, 0xbe, 0, 0, 0, 49, 0, 8] ++ text "C" ++ [7, 0, 1] ++ text objectClass ++
    [7, 0, 3] ++ text "f" ++ text "()V" ++ text "Code" ++ [0, 0x21, 0, 2, 0, 4, 0, 0, 0, 0] ++
    Bytes.ofU16 (UInt16.ofNat methods.length) ++ methods.flatten ++ [0, 0]

def returningMethod : List UInt8 :=
  [0, 9, 0, 5, 0, 6, 0, 1, 0, 7, 0, 0, 0, 13, 0, 0, 0, 0, 0, 0, 0, 1, 0xb1, 0, 0, 0, 0]

def nativeMethod : List UInt8 := [1, 9, 0, 5, 0, 6, 0, 0]

theorem define_finds_last : ∃ m' d c i x j y method,
    define (declaringMethods [returningMethod, nativeMethod]) {} = .ok "C" m' ∧
      ClassFile.parse (declaringMethods [returningMethod, nativeMethod]) = .ok d ∧
      m'.classes["C"]? = some c ∧ d.findMethod? "f" "()V" = some i ∧
      d.FirstCalled "f" "()V" i x ∧ c.declaredMethod? "f" "()V" = some method ∧
      d.LastCalled "f" "()V" j y ∧ method.access = y.access ∧ method.code = y.code? := by
  have defines : ((define (declaringMethods [returningMethod, nativeMethod])).run' {}).any
      (decide <| · = "C") = true := by decide +kernel
  have finds : (ClassFile.parse (declaringMethods [returningMethod, nativeMethod])).toOption.map
      (fun d => d.findMethod? "f" "()V") = some (some 0) := by decide +kernel
  rcases Outcome.exists_of_any_run defines with ⟨name, m', done, called⟩
  rw [of_decide_eq_true called] at done
  rcases define_finds done with ⟨d, c, read, loaded, answers⟩
  rw [read] at finds
  rcases answers "f" "()V" with ⟨absent, -⟩ | ⟨i, x, j, y, method, found, first, declared, last,
    access, code, -⟩
  · cases absent.symm.trans (Option.some.inj finds)
  · exact ⟨m', d, c, i, x, j, y, method, done, read, loaded, found, first, declared, last, access,
      code⟩

/-- Where a method is declared again, the file and the class give different ones. -/
theorem not_define_finds_same : ∃ m' d c x method,
    define (declaringMethods [returningMethod, nativeMethod]) {} = .ok "C" m' ∧
      ClassFile.parse (declaringMethods [returningMethod, nativeMethod]) = .ok d ∧
      m'.classes["C"]? = some c ∧ (d.findMethod? "f" "()V").bind (d.methods[·]?) = some x ∧
      c.declaredMethod? "f" "()V" = some method ∧ method.access ≠ x.access ∧
      method.code ≠ x.code? := by
  have shape : (match ClassFile.parse (declaringMethods [returningMethod, nativeMethod]),
        define (declaringMethods [returningMethod, nativeMethod]) {} with
      | .ok d, .ok name m => some (name,
          (d.findMethod? "f" "()V").bind (d.methods[·]?) |>.map
            (fun x => (x.access, x.code?.isSome)),
          m.classes["C"]?.bind (·.declaredMethod? "f" "()V") |>.map
            (fun x => (x.access, x.code.isSome)))
      | _, _ => none) = some ("C", some (9, true), some (0x0109, false)) := by decide +kernel
  split at shape
  · rename_i d name m' read done
    simp only [Option.some.injEq, Prod.mk.injEq, Option.map_eq_some_iff] at shape
    obtain ⟨rfl, ⟨x, found, access, coded⟩, method, declared, access', coded'⟩ := shape
    obtain ⟨c, loaded, declared⟩ := Option.bind_eq_some_iff.1 declared
    refine ⟨m', d, c, x, method, done, read, loaded, found, declared, ?_, ?_⟩
    · rw [access, access']
      decide
    · intro same
      rw [same, coded] at coded'
      cases coded'
  · cases shape

end Machine
end ClassForge
