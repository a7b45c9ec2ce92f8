import Mathlib.Data.List.Perm.Subperm
import ClassForge.Proofs.Proxy.Generated

namespace ClassForge

theorem lookup_of_mem {β : Type} {entries : List (String × β)} {name : String} {b : β}
    (inside : (name, b) ∈ entries) (only : ∀ b', (name, b') ∈ entries → b' = b) :
    entries.lookup name = some b := by
  cases found : entries.lookup name with
  | none =>
    have other := List.lookup_eq_none_iff.1 found _ inside
    simp at other
  | some b' =>
    obtain ⟨before, behind, rfl, -⟩ := List.lookup_eq_some_iff.1 found
    rw [only b' (List.mem_append_right _ List.mem_cons_self)]

theorem mem_of_lookup {β : Type} {entries : List (String × β)} {name : String} {b : β}
    (found : entries.lookup name = some b) : (name, b) ∈ entries := by
  obtain ⟨before, behind, rfl, -⟩ := List.lookup_eq_some_iff.1 found
  exact List.mem_append_right _ List.mem_cons_self

namespace ProxySpec

open Generation

def target? (s : ProxySpec) (c : ConstructorSpec) : Option String :=
  match c.kind with
  | .forwarding .. => none
  | .delegating _ target _ => some (constructorDescriptor (s.declaredParams target))

/-- The chain of calls that starts with a constructor, as far as another one. Those in front of the
last are listed, the latest first. -/
inductive Chain (s : ProxySpec) (all : List (String × ConstructorSpec))
    (x : String × ConstructorSpec) :
    List (String × ConstructorSpec) → String × ConstructorSpec → Prop where
  | start : Chain s all x [] x
  | on {before : List (String × ConstructorSpec)} {y z : String × ConstructorSpec}
    (chain : Chain s all x before y) (calls : s.target? y.2 = some z.1)
    (found : all.lookup z.1 = some z.2) : Chain s all x (y :: before) z

section

variable (s : ProxySpec) (all : List (String × ConstructorSpec)) (x : String × ConstructorSpec)

/-- The chain comes to a constructor that forwards. -/
def Reaches : Prop := ∃ before y, s.Chain all x before y ∧ s.target? y.2 = none

/-- The chain names a constructor that there is not. -/
def Misses (next : String) : Prop :=
  ∃ before y, s.Chain all x before y ∧ s.target? y.2 = some next ∧ all.lookup next = none

/-- The chain comes back to a constructor that is on it. -/
def Loops (next : String) : Prop :=
  ∃ before y c, s.Chain all x before y ∧ s.target? y.2 = some next ∧ all.lookup next = some c ∧
    (next, c) ∈ y :: before

end

theorem target?_eq_none {s : ProxySpec} {c : ConstructorSpec} : s.target? c = none ↔
    ∃ superParams captures, c.kind = .forwarding superParams captures := by
  unfold target?
  cases c.kind <;> simp

theorem target?_eq_some {s : ProxySpec} {c : ConstructorSpec} {next : String} :
    s.target? c = some next ↔ ∃ params target arguments,
      c.kind = .delegating params target arguments ∧
      constructorDescriptor (s.declaredParams target) = next := by
  unfold target?
  cases c.kind <;> simp

variable {s : ProxySpec} {all : List (String × ConstructorSpec)} {x y : String × ConstructorSpec}
  {before : List (String × ConstructorSpec)} {visited : List String} {descriptor next : String}
  {c : ConstructorSpec} {k n m : Nat} {e e' : Option String} {result : Except Error Unit}

/-- The search for the end of a chain, with the number of signatures that are looked up. -/
inductive Follows (s : ProxySpec) (all : List (String × ConstructorSpec)) :
    List String → String → ConstructorSpec → Nat → Except Error Unit → Prop where
  | forwards {visited : List String} {descriptor : String} {c : ConstructorSpec}
    (last : s.target? c = none) : Follows s all visited descriptor c 0 (.ok ())
  | missing {visited : List String} {descriptor next : String} {c : ConstructorSpec}
    (calls : s.target? c = some next) (absent : all.lookup next = none) :
    Follows s all visited descriptor c 1 (.error (.unsupported (.missingConstructor s.name next)))
  | loops {visited : List String} {descriptor next : String} {c d : ConstructorSpec}
    (calls : s.target? c = some next) (found : all.lookup next = some d)
    (again : next ∈ descriptor :: visited) :
    Follows s all visited descriptor c 1 (.error (.unsupported (.delegationLoop s.name next)))
  | on {visited : List String} {descriptor next : String} {c d : ConstructorSpec} {k : Nat}
    {result : Except Error Unit} (calls : s.target? c = some next)
    (found : all.lookup next = some d) (new : next ∉ descriptor :: visited)
    (follows : Follows s all (descriptor :: visited) next d k result) :
    Follows s all visited descriptor c (k + 1) result

theorem checkDelegation_eq (fuel : Nat) :
    checkDelegation s all visited descriptor c (fuel + 1) = match s.target? c with
      | none => .ok ()
      | some next => match all.lookup next with
        | none => .error (.unsupported (.missingConstructor s.name next))
        | some d =>
          if next ∈ descriptor :: visited then
            .error (.unsupported (.delegationLoop s.name next))
          else checkDelegation s all (descriptor :: visited) next d fuel := by
  rw [checkDelegation, target?]
  cases c.kind with
  | forwarding superParams captures => rfl
  | delegating params target arguments =>
    dsimp only
    cases all.lookup (constructorDescriptor (s.declaredParams target)) with
    | none => rfl
    | some d => simp only [List.contains_iff_mem]

theorem length_lt_of_distinct (known : descriptor ∈ all.map (·.1))
    (distinct : (descriptor :: visited).Nodup) (inside : ∀ d ∈ visited, d ∈ all.map (·.1)) :
    visited.length < all.length := by
  have whole : descriptor :: visited ⊆ all.map (·.1) := by
    simp only [List.cons_subset]
    exact ⟨known, inside⟩
  have le := (List.subperm_of_subset distinct whole).length_le
  rwa [List.length_cons, List.length_map] at le

/-- Constructors on the way differ, so that each of them is looked up once, and there is fuel left
for all of them. -/
theorem follows_checkDelegation {fuel : Nat} (known : descriptor ∈ all.map (·.1))
    (distinct : (descriptor :: visited).Nodup) (inside : ∀ d ∈ visited, d ∈ all.map (·.1))
    (enough : all.length ≤ fuel + visited.length) : ∃ k, k + visited.length ≤ all.length ∧
      s.Follows all visited descriptor c k
        (checkDelegation s all visited descriptor c fuel) := by
  have few := length_lt_of_distinct known distinct inside
  induction fuel generalizing visited descriptor c with
  | zero => omega
  | succ fuel ih =>
    rw [checkDelegation_eq]
    cases calls : s.target? c with
    | none => exact ⟨0, by omega, .forwards calls⟩
    | some next =>
      dsimp only
      cases found : all.lookup next with
      | none => exact ⟨1, by omega, .missing calls found⟩
      | some d =>
        dsimp only
        by_cases again : next ∈ descriptor :: visited
        · rw [if_pos again]
          exact ⟨1, by omega, .loops calls found again⟩
        · rw [if_neg again]
          have there : next ∈ all.map (·.1) := List.mem_map_of_mem (mem_of_lookup found)
          have distinct' : (next :: descriptor :: visited).Nodup :=
            List.nodup_cons.2 ⟨again, distinct⟩
          have inside' : ∀ d ∈ descriptor :: visited, d ∈ all.map (·.1) := by
            simp only [List.mem_cons, forall_eq_or_imp]
            exact ⟨known, inside⟩
          have more : all.length ≤ fuel + (descriptor :: visited).length := by
            rw [List.length_cons]
            omega
          obtain ⟨k, bound, follows⟩ := ih (c := d) there distinct' inside' more
            (length_lt_of_distinct there distinct' inside')
          rw [List.length_cons] at bound
          exact ⟨k + 1, by omega, .on calls found again follows⟩

theorem Chain.lookup (chain : s.Chain all x before y) (known : all.lookup x.1 = some x.2) :
    ∀ z ∈ y :: before, all.lookup z.1 = some z.2 := by
  induction chain with
  | start => simpa using known
  | on chain calls found ih =>
    simp only [List.mem_cons, forall_eq_or_imp] at ih ⊢
    exact ⟨found, ih⟩

theorem Follows.cases_of_chain (follows : s.Follows all visited descriptor c k result)
    (known : all.lookup x.1 = some x.2) (chain : s.Chain all x before (descriptor, c))
    (same : before.map (·.1) = visited) :
    (result = .ok () ∧ s.Reaches all x) ∨
    (∃ next, result = .error (.unsupported (.missingConstructor s.name next)) ∧
      s.Misses all x next) ∨
    ∃ next, result = .error (.unsupported (.delegationLoop s.name next)) ∧
      s.Loops all x next := by
  induction follows generalizing before with
  | forwards last => exact .inl ⟨rfl, before, _, chain, last⟩
  | missing calls absent => exact .inr (.inl ⟨_, rfl, before, _, chain, calls, absent⟩)
  | @loops _ descriptor next c d calls found again =>
    refine .inr (.inr ⟨next, rfl, before, _, d, chain, calls, found, ?_⟩)
    rw [← same] at again
    obtain ⟨z, on, rfl⟩ : ∃ z ∈ (descriptor, c) :: before, z.1 = next :=
      List.mem_map.1 (show next ∈ ((descriptor, c) :: before).map (·.1) from again)
    have held := chain.lookup known z on
    rw [found, Option.some.injEq] at held
    rwa [held]
  | @on _ descriptor next c d _ _ calls found _ _ ih =>
    exact ih (chain.on (z := (next, d)) calls found) (by rw [List.map_cons, same])

/-- The steps to the end of the chain, and the missing signature that stands there if the end is no
forwarding constructor. -/
inductive Ends (s : ProxySpec) (all : List (String × ConstructorSpec)) :
    ConstructorSpec → Nat → Option String → Prop where
  | forwards {c : ConstructorSpec} (last : s.target? c = none) : Ends s all c 0 none
  | missing {c : ConstructorSpec} {next : String} (calls : s.target? c = some next)
    (absent : all.lookup next = none) : Ends s all c 0 (some next)
  | on {c d : ConstructorSpec} {next : String} {n : Nat} {e : Option String}
    (calls : s.target? c = some next) (found : all.lookup next = some d)
    (ends : Ends s all d n e) : Ends s all c (n + 1) e

theorem Ends.unique (ends : s.Ends all c n e) (ends' : s.Ends all c m e') : n = m ∧ e = e' := by
  induction ends generalizing m with
  | forwards last =>
    cases ends' with
    | forwards => exact ⟨rfl, rfl⟩
    | missing calls | on calls => cases last.symm.trans calls
  | missing calls absent =>
    cases ends' with
    | forwards last => cases calls.symm.trans last
    | missing calls' => exact ⟨rfl, calls.symm.trans calls'⟩
    | on calls' found =>
      cases calls.symm.trans calls'
      cases absent.symm.trans found
  | on calls found _ ih =>
    cases ends' with
    | forwards last => cases calls.symm.trans last
    | missing calls' absent =>
      cases calls.symm.trans calls'
      cases found.symm.trans absent
    | on calls' found' ends' =>
      cases calls.symm.trans calls'
      cases found.symm.trans found'
      obtain ⟨rfl, rfl⟩ := ih ends'
      exact ⟨rfl, rfl⟩

theorem Chain.ends (chain : s.Chain all x before y) (ends : s.Ends all y.2 n e) :
    s.Ends all x.2 (n + before.length) e := by
  induction chain generalizing n with
  | start => exact ends
  | on chain calls found ih =>
    rw [List.length_cons, ← Nat.add_assoc, Nat.add_right_comm]
    exact ih (.on calls found ends)

theorem Chain.nearer (chain : s.Chain all x before y) (ends : s.Ends all x.2 n e) :
    ∃ m, s.Ends all y.2 m e ∧ ∀ w ∈ before, ∃ m', m < m' ∧ s.Ends all w.2 m' e := by
  induction chain with
  | start => exact ⟨n, ends, by simp⟩
  | on chain calls found ih =>
    obtain ⟨m, here, further⟩ := ih
    cases here with
    | forwards last => cases calls.symm.trans last
    | missing calls' absent =>
      cases calls.symm.trans calls'
      cases found.symm.trans absent
    | @on _ d _ m _ calls' found' here =>
      cases calls.symm.trans calls'
      cases found.symm.trans found'
      refine ⟨m, here, ?_⟩
      simp only [List.mem_cons, forall_eq_or_imp]
      refine ⟨⟨m + 1, Nat.lt_succ_self m, .on calls found here⟩, fun w on => ?_⟩
      obtain ⟨m', lt, ends⟩ := further w on
      exact ⟨m', by omega, ends⟩

theorem Reaches.ends (reaches : s.Reaches all x) : ∃ n, s.Ends all x.2 n none := by
  obtain ⟨before, y, chain, last⟩ := reaches
  exact ⟨_, chain.ends (.forwards last)⟩

theorem Misses.ends (misses : s.Misses all x next) : ∃ n, s.Ends all x.2 n (some next) := by
  obtain ⟨before, y, chain, calls, absent⟩ := misses
  exact ⟨_, chain.ends (.missing calls absent)⟩

theorem Loops.not_ends (loops : s.Loops all x next) (ends : s.Ends all x.2 n e) : False := by
  obtain ⟨before, y, c, chain, calls, found, again⟩ := loops
  obtain ⟨m, here, further⟩ := (chain.on (z := (next, c)) calls found).nearer ends
  obtain ⟨m', lt, there⟩ := further _ again
  exact Nat.ne_of_lt lt (here.unique there).1

theorem Reaches.not_misses (reaches : s.Reaches all x) : ¬ s.Misses all x next := by
  intro misses
  obtain ⟨n, ends⟩ := reaches.ends
  obtain ⟨m, ends'⟩ := misses.ends
  cases (ends.unique ends').2

theorem Reaches.not_loops (reaches : s.Reaches all x) : ¬ ∃ next, s.Loops all x next := by
  rintro ⟨next, loops⟩
  obtain ⟨n, ends⟩ := reaches.ends
  exact loops.not_ends ends

theorem Misses.not_loops (misses : s.Misses all x next) : ¬ ∃ next, s.Loops all x next := by
  rintro ⟨other, loops⟩
  obtain ⟨n, ends⟩ := misses.ends
  exact loops.not_ends ends

theorem Misses.unique {other : String} (misses : s.Misses all x next)
    (misses' : s.Misses all x other) : next = other := by
  obtain ⟨n, ends⟩ := misses.ends
  obtain ⟨m, ends'⟩ := misses'.ends
  exact Option.some.inj (ends.unique ends').2

theorem Follows.unique {k' : Nat} {result' : Except Error Unit}
    (follows : s.Follows all visited descriptor c k result)
    (follows' : s.Follows all visited descriptor c k' result') : k' = k ∧ result' = result := by
  induction follows generalizing k' with
  | forwards last =>
    cases follows' with
    | forwards => exact ⟨rfl, rfl⟩
    | missing calls | loops calls | on calls => cases last.symm.trans calls
  | missing calls absent =>
    cases follows' with
    | forwards last => cases calls.symm.trans last
    | missing calls' =>
      cases calls.symm.trans calls'
      exact ⟨rfl, rfl⟩
    | loops calls' found | on calls' found =>
      cases calls.symm.trans calls'
      cases absent.symm.trans found
  | loops calls found again =>
    cases follows' with
    | forwards last => cases calls.symm.trans last
    | missing calls' absent =>
      cases calls.symm.trans calls'
      cases found.symm.trans absent
    | loops calls' =>
      cases calls.symm.trans calls'
      exact ⟨rfl, rfl⟩
    | on calls' _ new =>
      cases calls.symm.trans calls'
      exact absurd again new
  | on calls found new _ ih =>
    cases follows' with
    | forwards last => cases calls.symm.trans last
    | missing calls' absent =>
      cases calls.symm.trans calls'
      cases found.symm.trans absent
    | loops calls' _ again =>
      cases calls.symm.trans calls'
      exact absurd again new
    | on calls' found' _ follows' =>
      cases calls.symm.trans calls'
      cases found.symm.trans found'
      obtain ⟨rfl, rfl⟩ := ih follows'
      exact ⟨rfl, rfl⟩

/-- The check of a constructor tells how its chain goes, with at most one lookup for each
constructor that there is. -/
structure Checked (s : ProxySpec) (all : List (String × ConstructorSpec))
    (x : String × ConstructorSpec) (result : Except Error Unit) : Prop where
  reaches : result = .ok () ↔ s.Reaches all x
  misses : ∀ next, result = .error (.unsupported (.missingConstructor s.name next)) ↔
    s.Misses all x next
  loops : (∃ next, result = .error (.unsupported (.delegationLoop s.name next))) ↔
    ∃ next, s.Loops all x next
  loopsTo : ∀ next, result = .error (.unsupported (.delegationLoop s.name next)) →
    s.Loops all x next
  only : s.Reaches all x ∨ (∃ next, s.Misses all x next) ∨ ∃ next, s.Loops all x next
  lookups : ∃ k ≤ all.length, ∀ k' result', s.Follows all [] x.1 x.2 k' result' ↔
    k' = k ∧ result' = result

theorem checked_of_cases (known : all.lookup x.1 = some x.2) (bound : k ≤ all.length)
    (follows : s.Follows all [] x.1 x.2 k result) : s.Checked all x result := by
  have ends := follows.cases_of_chain known .start rfl
  have lookups : ∃ k ≤ all.length, ∀ k' result', s.Follows all [] x.1 x.2 k' result' ↔
      k' = k ∧ result' = result := by
    refine ⟨k, bound, fun k' result' => ⟨follows.unique, fun same => ?_⟩⟩
    rwa [same.1, same.2]
  rcases ends with ⟨rfl, reaches⟩ | ⟨next, rfl, misses⟩ | ⟨next, rfl, loops⟩
  · exact {
      reaches := by simpa using reaches
      misses := fun other => ⟨nofun, fun misses => (reaches.not_misses misses).elim⟩
      loops := ⟨nofun, fun loops => (reaches.not_loops loops).elim⟩
      loopsTo := nofun
      only := .inl reaches
      lookups }
  · refine {
      reaches := ⟨nofun, fun reaches => (reaches.not_misses misses).elim⟩
      misses := fun other => ⟨fun same => ?_, fun misses' => ?_⟩
      loops := ⟨nofun, fun loops => (misses.not_loops loops).elim⟩
      loopsTo := nofun
      only := .inr (.inl ⟨next, misses⟩)
      lookups }
    · cases same
      exact misses
    · rw [misses.unique misses']
  · refine {
      reaches := ⟨nofun, fun reaches => (reaches.not_loops ⟨next, loops⟩).elim⟩
      misses := fun other => ⟨nofun, fun misses => (misses.not_loops ⟨next, loops⟩).elim⟩
      loops := ⟨fun _ => ⟨next, loops⟩, fun _ => ⟨next, rfl⟩⟩
      loopsTo := fun other same => ?_
      only := .inr (.inr ⟨next, loops⟩)
      lookups }
    cases same
    exact loops

theorem checked (distinct : (all.map (·.1)).Nodup) (inside : x ∈ all) :
    s.Checked all x (checkDelegation s all [] x.1 x.2 all.length) := by
  obtain ⟨k, bound, follows⟩ := follows_checkDelegation (s := s) (c := x.2)
    (List.mem_map_of_mem inside) (List.nodup_singleton x.1) nofun (Nat.le_refl all.length)
  have known : all.lookup x.1 = some x.2 := lookup_of_mem inside fun c other =>
    (Prod.mk.inj (List.inj_on_of_nodup_map distinct other inside rfl)).2
  exact checked_of_cases known bound follows

theorem ends_of_constructs (constructs : Constructs s all) (inside : x ∈ all) :
    ∃ n, s.Ends all x.2 n none := by
  have distinct := (signatures_eq_ok constructs.signed .nil).1
  exact ((checked distinct inside).reaches.1 (constructs.leads x inside)).ends

theorem signatures_eq {cs : List ConstructorSpec} {types : List (List FieldType)}
    (resolved : cs.mapM s.constructorParams = .ok types)
    (distinct : ((before.map (·.1)).reverse ++ types.map constructorDescriptor).Nodup) :
    signatures s before cs =
      .ok (before.reverse ++ (types.map constructorDescriptor).zip cs) := by
  induction cs generalizing before types with
  | nil =>
    cases resolved
    simp [signatures]
  | cons c rest ih =>
    obtain ⟨params, others, first, behind, rfl⟩ := Outcome.mapM_cons_eq_ok.1 resolved
    rw [List.map_cons] at distinct
    have new : before.lookup (constructorDescriptor params) = none := by
      rw [List.lookup_eq_none_iff]
      intro y on
      rw [List.nodup_append] at distinct
      have other := distinct.2.2 y.1 (List.mem_reverse.2 (List.mem_map_of_mem on))
        (constructorDescriptor params) List.mem_cons_self
      simpa using fun same : constructorDescriptor params = y.1 => other same.symm
    have distinct' : ((((constructorDescriptor params, c) :: before).map (·.1)).reverse ++
        others.map constructorDescriptor).Nodup := by
      rw [List.map_cons, List.reverse_cons, List.append_assoc]
      exact distinct
    rw [signatures, first]
    change (if (before.lookup (constructorDescriptor params)).isSome = true then _ else _) = _
    rw [new, if_neg (by simp)]
    refine (ih behind distinct').trans ?_
    rw [List.reverse_cons, List.append_assoc]
    rfl

end ProxySpec
end ClassForge
