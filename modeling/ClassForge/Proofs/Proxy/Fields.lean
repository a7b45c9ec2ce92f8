import ClassForge.Proofs.Proxy.Delegating

namespace ClassForge

open Object

theorem getElem?_foldl_insert {β : Type} (entries : List (String × β))
    (fields : Std.TreeMap String β) (name : String) :
    (entries.foldl (fun fields p => fields.insert p.1 p.2) fields)[name]? =
      (entries.reverse.lookup name).or fields[name]? := by
  induction entries generalizing fields with
  | nil => rfl
  | cons p rest ih =>
    obtain ⟨key, value⟩ := p
    rw [List.foldl_cons, ih, List.reverse_cons, List.lookup_append, Option.or_assoc,
      Std.TreeMap.getElem?_insert]
    congr 1
    by_cases same : name = key
    · simp [same]
    · have other : ¬key = name := fun back => same back.symm
      have differs : (name == key) = false := beq_false_of_ne same
      simp [List.lookup_cons, other, differs]

namespace Object

variable {fields fields' : Std.TreeMap String Value} {names : List String} {vs ws : List Value}

theorem getElem?_fill (fields : Std.TreeMap String Value) (names : List String) (vs : List Value)
    (name : String) :
    (fill fields names vs)[name]? = ((names.zip vs).reverse.lookup name).or fields[name]? :=
  getElem?_foldl_insert (names.zip vs) fields name

theorem fill_related {R : Value → Value → Prop} (related : List.Forall₂ R vs ws)
    (before : ∀ name : String, Option.Rel R fields[name]? fields'[name]?) :
    ∀ name : String, Option.Rel R (fill fields names vs)[name]? (fill fields' names ws)[name]? := by
  induction related generalizing names fields fields' with
  | nil => simpa [fill] using before
  | @cons v w vs ws first _ ih =>
    cases names with
    | nil => exact before
    | cons name names =>
      refine ih fun other => ?_
      rw [Std.TreeMap.getElem?_insert, Std.TreeMap.getElem?_insert]
      split
      · exact .some first
      · exact before other

def blank (k : LoadedClass) : Std.TreeMap String Value :=
  (k.instanceFields.map fun f => (f.1, Value.initial f.2)).foldl
    (fun fields p => fields.insert p.1 p.2) ∅

theorem ofClass_eq (k : LoadedClass) : ofClass k = .plain k (blank k) := by
  rw [ofClass, blank, List.foldl_map]

end Object

namespace ProxySpec

variable {s : ProxySpec} {all : List (String × ConstructorSpec)} {k : LoadedClass}

theorem Loaded.getElem?_fields (loaded : s.Loaded all k) {f : String × FieldType}
    (inside : f ∈ s.fields) : k.own.fields[f.1]? = some (Generation.privateFinal, f.2) := by
  have whole : k.own.fields = (s.fields.map fun f => (f.1, Generation.privateFinal, f.2)).foldl
      (fun declared p => declared.insert p.1 p.2) ∅ := by
    rw [loaded.fields, List.foldl_map]
  rw [whole, getElem?_foldl_insert, lookup_of_mem (b := (Generation.privateFinal, f.2))]
  · rfl
  · rw [List.mem_reverse]
    exact List.mem_map_of_mem (f := fun f => (f.1, Generation.privateFinal, f.2)) inside
  · intro b there
    obtain ⟨g, member, same⟩ := List.mem_map.1 (List.mem_reverse.1 there)
    obtain ⟨name, value⟩ := Prod.mk.inj same
    rw [← value, List.inj_on_of_nodup_map loaded.apart member inside name]

theorem Loaded.getElem?_blank (loaded : s.Loaded all k) {f : String × FieldType}
    (inside : f ∈ s.fields) : (blank k)[f.1]? = some (.initial f.2) := by
  have declared := loaded.getElem?_fields inside
  obtain ⟨own, superclass, rfl⟩ := loaded.extending
  change own.fields[f.1]? = _ at declared
  let ours := own.fields.toList.filterMap fun p =>
    if isSet p.2.1 Access.staticFlag then none else some (p.1, p.2.2)
  have bound : ¬isSet Generation.privateFinal Access.staticFlag = true := by decide
  have member : (f.1, f.2) ∈ ours :=
    List.mem_filterMap.2 ⟨_, Std.TreeMap.mem_toList_iff_getElem?_eq_some.2 declared, if_neg bound⟩
  have only : ∀ t, (f.1, t) ∈ ours → t = f.2 := by
    intro t there
    obtain ⟨⟨name, access, type⟩, inside, kept⟩ := List.mem_filterMap.1 there
    have found := Std.TreeMap.mem_toList_iff_getElem?_eq_some.1 inside
    simp only [Option.ite_none_left_eq_some, Option.some.injEq, Prod.mk.injEq] at kept
    obtain ⟨-, rfl, rfl⟩ := kept
    rw [declared] at found
    cases found
    rfl
  rw [blank, LoadedClass.instanceFields, List.map_append, getElem?_foldl_insert,
    List.reverse_append, List.lookup_append, lookup_of_mem (b := .initial f.2)]
  · rfl
  · rw [List.mem_reverse]
    exact List.mem_map_of_mem (f := fun f => (f.1, Value.initial f.2)) member
  · intro b there
    obtain ⟨g, inside, same⟩ := List.mem_map.1 (List.mem_reverse.1 there)
    obtain ⟨name, value⟩ := Prod.mk.inj same
    rw [← value, only g.2 (name ▸ inside)]

end ProxySpec
end ClassForge
