import ClassForge.Proofs.Code.Flow

namespace ClassForge.DepthSearch

open Outcome

variable {l : Layout} {handlers : List Nat}

def At (s : DepthSearch) (i d : Nat) : Prop := s.depths.getD i none = some d

theorem At.unique {s : DepthSearch} {i d e : Nat} (left : s.At i d) (right : s.At i e) : d = e := by
  rw [At, right] at left
  exact (Option.some.inj left).symm

theorem At.lt {s : DepthSearch} {i d : Nat} (met : s.At i d) : i < s.depths.size := by
  by_cases inside : i < s.depths.size
  · exact inside
  · rw [At, Array.getD_eq_getD_getElem?, Array.getElem?_eq_none (by omega)] at met
    cases met

theorem meet_eq_ok {s s' : DepthSearch} {i d : Nat} : s.meet l i d = .ok s' ↔
    i < l.size ∧ ((s.At i d ∧ s' = s) ∨ ((∀ e, ¬s.At i e) ∧
      s' = { s with depths := s.depths.setIfInBounds i (some d), work := i :: s.work })) := by
  rw [meet]
  split
  · rename_i outside
    simp [Nat.not_lt.2 outside]
  · rename_i inside
    simp only [At]
    rw [and_iff_right (by omega)]
    cases s.depths.getD i none with
    | none => simp [eq_comm]
    | some known =>
      by_cases same : known = d
      · simp [same, eq_comm]
      · simp [same]

/-- Each instruction met is either still to be looked at or has been taken up, once. -/
structure Tracks (l : Layout) (s : DepthSearch) (taken : List Nat) : Prop where
  size : s.depths.size = l.size
  once : (taken ++ s.work).Nodup
  met : ∀ i, i ∈ taken ++ s.work ↔ ∃ d, s.At i d

/-- The instruction at position `i` has been followed: its depth is enough for it, and all that may
run next is met with the depth behind it. -/
def Followed (l : Layout) (s : DepthSearch) (i : Nat) : Prop :=
  ∃ d instruction js, s.At i d ∧ l.instructions[i]? = some instruction ∧ instruction.pops ≤ d ∧
    instruction.behind d ≤ 65535 ∧ instruction.behind d ≤ s.peak ∧
    (∀ kind, instruction.operation = .leave kind → d = instruction.pops) ∧
    l.successors i instruction.operation = .ok js ∧ ∀ j ∈ js, s.At j (instruction.behind d)

structure Sound (l : Layout) (handlers : List Nat) (s : DepthSearch) (handled : List Nat) :
    Prop where
  reached : ∀ i d, s.At i d → l.Reachable handlers i
  followed : ∀ i ∈ handled, s.Followed l i
  below : ∀ i d, s.At i d → d ≤ s.peak

/-- The peak is the depth before or behind some instruction. -/
def PeakOccurs (l : Layout) (s : DepthSearch) (handled : List Nat) : Prop :=
  ∃ i d, s.At i d ∧ (s.peak = d ∨ ∃ instruction, i ∈ handled ∧
    l.instructions[i]? = some instruction ∧ s.peak = instruction.behind d)

def Grows (s s' : DepthSearch) : Prop := s.peak ≤ s'.peak ∧ ∀ i d, s.At i d → s'.At i d

theorem Grows.refl (s : DepthSearch) : Grows s s := ⟨Nat.le_refl _, fun _ _ met => met⟩

theorem Grows.trans {s s' s'' : DepthSearch} (first : Grows s s') (second : Grows s' s'') :
    Grows s s'' :=
  ⟨Nat.le_trans first.1 second.1, fun i d met => second.2 i d (first.2 i d met)⟩

theorem Followed.grow {s s' : DepthSearch} {i : Nat} (followed : s.Followed l i)
    (grows : Grows s s') : s'.Followed l i := by
  obtain ⟨d, instruction, js, met, here, enough, bounded, peak, leaves, found, next⟩ := followed
  exact ⟨d, instruction, js, grows.2 i d met, here, enough, bounded, Nat.le_trans peak grows.1,
    leaves, found, fun j hj => grows.2 j _ (next j hj)⟩

theorem at_met {s : DepthSearch} {i d : Nat} (inside : i < s.depths.size) {work : List Nat}
    (j e : Nat) : ({ s with depths := s.depths.setIfInBounds i (some d), work } : DepthSearch).At j e ↔
      if j = i then e = d else s.At j e := by
  simp only [At, Array.getD_eq_getD_getElem?, Array.getElem?_setIfInBounds]
  by_cases same : j = i
  · subst same
    simp [inside, eq_comm]
  · rw [if_neg same, if_neg (Ne.symm same)]

theorem meet_grows {s s' : DepthSearch} {i d : Nat} (tracked : s.depths.size = l.size)
    (met : s.meet l i d = .ok s') : Grows s s' ∧ s'.At i d ∧ s'.peak = s.peak := by
  obtain ⟨inside, ⟨known, rfl⟩ | ⟨unmet, rfl⟩⟩ := meet_eq_ok.1 met
  · exact ⟨.refl _, known, rfl⟩
  · rw [← tracked] at inside
    refine ⟨⟨Nat.le_refl _, fun j e found => ?_⟩, ?_, rfl⟩
    · rw [at_met inside]
      split
      · rename_i same
        subst same
        exact absurd found (unmet e)
      · exact found
    · rw [at_met inside, if_pos rfl]

theorem Tracks.meet {s s' : DepthSearch} {taken : List Nat} {i d : Nat} (tracks : Tracks l s taken)
    (met : s.meet l i d = .ok s') : Tracks l s' taken := by
  obtain ⟨inside, ⟨known, rfl⟩ | ⟨unmet, rfl⟩⟩ := meet_eq_ok.1 met
  · exact tracks
  · have new : i ∉ taken ++ s.work := by
      intro member
      obtain ⟨e, found⟩ := (tracks.met i).1 member
      exact unmet e found
    have moved : (taken ++ i :: s.work).Perm (i :: (taken ++ s.work)) := List.perm_middle
    refine ⟨by simpa using tracks.size, moved.nodup_iff.2 (List.nodup_cons.2 ⟨new, tracks.once⟩), ?_⟩
    intro j
    rw [moved.mem_iff, List.mem_cons, tracks.met j]
    rw [← tracks.size] at inside
    simp only [at_met inside]
    by_cases same : j = i
    · simp [same]
    · simp [same]

theorem Sound.meet {s s' : DepthSearch} {handled : List Nat} {i d : Nat}
    (sound : Sound l handlers s handled) (tracked : s.depths.size = l.size)
    (reached : l.Reachable handlers i) (below : d ≤ s.peak) (met : s.meet l i d = .ok s') :
    Sound l handlers s' handled := by
  obtain ⟨grows, -, peak⟩ := meet_grows tracked met
  obtain ⟨inside, ⟨known, rfl⟩ | ⟨unmet, rfl⟩⟩ := meet_eq_ok.1 met
  · exact sound
  · rw [← tracked] at inside
    refine ⟨?_, fun j hj => (sound.followed j hj).grow grows, ?_⟩
    · intro j e found
      rw [at_met inside] at found
      split at found
      · rename_i same
        exact same ▸ reached
      · exact sound.reached j e found
    · intro j e found
      rw [at_met inside] at found
      split at found
      · exact found ▸ below
      · exact sound.below j e found

def meetAll (l : Layout) (s : DepthSearch) (js : List Nat) (d : Nat) : Except Error DepthSearch :=
  js.foldlM (fun s j => s.meet l j d) s

theorem meetAll_cons_eq_ok {s s' : DepthSearch} {j : Nat} {js : List Nat} {d : Nat} :
    s.meetAll l (j :: js) d = .ok s' ↔
      ∃ between, s.meet l j d = .ok between ∧ between.meetAll l js d = .ok s' := by
  rw [meetAll, List.foldlM_cons, bind_eq_ok]
  rfl

theorem meetAll_singleton (s : DepthSearch) (j d : Nat) : s.meetAll l [j] d = s.meet l j d := by
  simp [meetAll]

theorem follow_eq_ok {s s' : DepthSearch} {i d : Nat} {instruction : Instruction} :
    s.follow l i d instruction = .ok s' ↔ instruction.pops ≤ d ∧ instruction.behind d ≤ 65535 ∧
      (∀ kind, instruction.operation = .leave kind → d = instruction.pops) ∧
      ∃ js, l.successors i instruction.operation = .ok js ∧
        ({ s with peak := max s.peak (instruction.behind d) } : DepthSearch).meetAll l js
          (instruction.behind d) = .ok s' := by
  have behind : d - instruction.pops + instruction.pushes = instruction.behind d := rfl
  simp only [follow, guard_eq_ok, Nat.not_lt, behind, Layout.successors_eq_ok]
  refine and_congr_right fun _ => and_congr_right fun _ => ?_
  cases h : instruction.operation with
  | leave kind =>
    by_cases all : d = instruction.pops
    · simp [all, Operation.target?, Operation.fallsThrough, meetAll, eq_comm]
    · simp [all, throw, throwThe, MonadExceptOf.throw]
  | goto t =>
    simp only [Operation.target?, Operation.fallsThrough, bind_eq_ok]
    constructor
    · intro jumps
      obtain ⟨j, marked, met⟩ := jumps
      exact ⟨by simp, [j], ⟨j, marked, rfl⟩, (meetAll_singleton _ _ _).trans met⟩
    · intro jumps
      obtain ⟨-, _, ⟨j, marked, rfl⟩, met⟩ := jumps
      exact ⟨j, marked, (meetAll_singleton _ _ _).symm.trans met⟩
  | branch c t =>
    simp only [Operation.target?, Operation.fallsThrough, bind_eq_ok]
    constructor
    · intro jumps
      obtain ⟨j, marked, between, met, fell⟩ := jumps
      exact ⟨by simp, [j, i + 1], ⟨j, marked, rfl⟩,
        meetAll_cons_eq_ok.2 ⟨between, met, (meetAll_singleton _ _ _).trans fell⟩⟩
    · intro jumps
      obtain ⟨-, _, ⟨j, marked, rfl⟩, all⟩ := jumps
      obtain ⟨between, met, fell⟩ := meetAll_cons_eq_ok.1 all
      exact ⟨j, marked, between, met, (meetAll_singleton _ _ _).symm.trans fell⟩
  | raise => simp [Operation.target?, Operation.fallsThrough, meetAll, eq_comm]
  | _ => simp [Operation.target?, Operation.fallsThrough, meetAll_singleton]

theorem Tracks.meetAll {s s' : DepthSearch} {taken js : List Nat} {d : Nat}
    (tracks : Tracks l s taken) (met : s.meetAll l js d = .ok s') : Tracks l s' taken := by
  induction js generalizing s with
  | nil =>
    cases met
    exact tracks
  | cons j rest ih =>
    obtain ⟨between, first, others⟩ := meetAll_cons_eq_ok.1 met
    exact ih (tracks.meet first) others

theorem meetAll_grows {s s' : DepthSearch} {taken js : List Nat} {d : Nat}
    (tracks : Tracks l s taken) (met : s.meetAll l js d = .ok s') :
    Grows s s' ∧ (∀ j ∈ js, s'.At j d) ∧ s'.peak = s.peak := by
  induction js generalizing s with
  | nil =>
    cases met
    exact ⟨.refl _, by simp, rfl⟩
  | cons j rest ih =>
    obtain ⟨between, first, others⟩ := meetAll_cons_eq_ok.1 met
    obtain ⟨grows, here, peak⟩ := meet_grows tracks.size first
    obtain ⟨grows', next, peak'⟩ := ih (tracks.meet first) others
    refine ⟨grows.trans grows', ?_, peak'.trans peak⟩
    intro k hk
    rcases List.mem_cons.1 hk with rfl | inRest
    · exact grows'.2 k d here
    · exact next k inRest

theorem Sound.meetAll {s s' : DepthSearch} {taken handled js : List Nat} {d : Nat}
    (sound : Sound l handlers s handled) (tracks : Tracks l s taken)
    (reached : ∀ j ∈ js, l.Reachable handlers j) (below : d ≤ s.peak)
    (met : s.meetAll l js d = .ok s') : Sound l handlers s' handled := by
  induction js generalizing s with
  | nil =>
    cases met
    exact sound
  | cons j rest ih =>
    obtain ⟨between, first, others⟩ := meetAll_cons_eq_ok.1 met
    simp only [List.mem_cons, forall_eq_or_imp] at reached
    have peak := (meet_grows tracks.size first).2.2
    exact ih (sound.meet tracks.size reached.1 below first) (tracks.meet first) reached.2
      (by omega) others

theorem Tracks.take {s : DepthSearch} {taken rest : List Nat} {i : Nat} (tracks : Tracks l s taken)
    (work : s.work.Perm (i :: rest)) : Tracks l { s with work := rest } (i :: taken) := by
  have moved : (taken ++ s.work).Perm (i :: taken ++ rest) :=
    (work.append_left taken).trans List.perm_middle
  refine ⟨tracks.size, moved.nodup_iff.1 tracks.once, fun j => ?_⟩
  rw [← moved.mem_iff]
  exact tracks.met j

theorem Sound.follow {s s' : DepthSearch} {taken handled : List Nat} {i d : Nat}
    {instruction : Instruction} (sound : Sound l handlers s handled) (tracks : Tracks l s taken)
    (met : s.At i d) (here : l.instructions[i]? = some instruction)
    (followed : s.follow l i d instruction = .ok s') : Sound l handlers s' (i :: handled) := by
  obtain ⟨enough, bounded, leaves, js, found, all⟩ := follow_eq_ok.1 followed
  have raised : Tracks l { s with peak := max s.peak (instruction.behind d) } taken :=
    ⟨tracks.size, tracks.once, tracks.met⟩
  have higher : Grows s { s with peak := max s.peak (instruction.behind d) } :=
    ⟨Nat.le_max_left _ _, fun _ _ met => met⟩
  have start : Sound l handlers { s with peak := max s.peak (instruction.behind d) } handled :=
    ⟨sound.reached, fun j hj => (sound.followed j hj).grow higher,
      fun j e met => Nat.le_trans (sound.below j e met) higher.1⟩
  have reached : ∀ j ∈ js, l.Reachable handlers j := fun j hj =>
    .next (sound.reached i d met) here ((Layout.mem_successors found j).1 hj)
  have done := start.meetAll raised reached (Nat.le_max_right _ _) all
  obtain ⟨grows, next, peak⟩ := meetAll_grows raised all
  refine ⟨done.reached, fun j hj => ?_, done.below⟩
  rcases List.mem_cons.1 hj with rfl | before
  · exact ⟨d, instruction, js, grows.2 j d met, here, enough, bounded,
      Nat.le_trans (Nat.le_max_right _ _) grows.1, leaves, found, next⟩
  · exact done.followed j before

theorem follow_tracks {s s' : DepthSearch} {taken : List Nat} {i d : Nat}
    {instruction : Instruction} (tracks : Tracks l s taken)
    (followed : s.follow l i d instruction = .ok s') : Tracks l s' taken ∧ Grows s s' ∧
      s'.peak = max s.peak (instruction.behind d) := by
  obtain ⟨-, -, -, js, -, all⟩ := follow_eq_ok.1 followed
  have raised : Tracks l { s with peak := max s.peak (instruction.behind d) } taken :=
    ⟨tracks.size, tracks.once, tracks.met⟩
  obtain ⟨grows, -, peak⟩ := meetAll_grows raised all
  exact ⟨raised.meetAll all, ⟨Nat.le_trans (Nat.le_max_left _ _) grows.1, grows.2⟩, peak⟩

theorem PeakOccurs.follow {s s' : DepthSearch} {taken handled : List Nat} {i d : Nat}
    {instruction : Instruction} (occurs : s.PeakOccurs l handled) (tracks : Tracks l s taken)
    (met : s.At i d) (here : l.instructions[i]? = some instruction)
    (followed : s.follow l i d instruction = .ok s') : s'.PeakOccurs l (i :: handled) := by
  obtain ⟨-, grows, peak⟩ := follow_tracks tracks followed
  by_cases higher : s.peak ≤ instruction.behind d
  · refine ⟨i, d, grows.2 i d met, .inr ⟨instruction, List.mem_cons_self, here, ?_⟩⟩
    rw [peak, Nat.max_eq_right higher]
  · obtain ⟨j, e, found, reason⟩ := occurs
    have same : s'.peak = s.peak := by rw [peak, Nat.max_eq_left (by omega)]
    refine ⟨j, e, grows.2 j e found, ?_⟩
    rw [same]
    rcases reason with before | ⟨other, member, there, behind⟩
    · exact .inl before
    · exact .inr ⟨other, List.mem_cons_of_mem _ member, there, behind⟩

end ClassForge.DepthSearch
