import ClassForge.Proofs.Code.SearchRun

namespace ClassForge

open Outcome DepthSearch

variable {l : Layout} {handlers : List Nat}

def Layout.entered (l : Layout) (handlers : List Nat) : Except Error DepthSearch := do
  let empty : DepthSearch := { depths := Array.replicate l.size none }
  let entered ← empty.meet l 0 0
  handlers.foldlM (fun (s : DepthSearch) i => do
    let s ← s.meet l i 1
    return { s with peak := 1 }) entered

theorem Layout.stackDepths_eq (l : Layout) (handlers : List Nat) :
    l.stackDepths handlers = (l.entered handlers >>= fun s => s.run l l.size) := by
  rw [stackDepths, entered, bind_assoc]

namespace DepthSearch

structure Entered (l : Layout) (handlers : List Nat) (s : DepthSearch) : Prop where
  tracks : Tracks l s []
  sound : Sound l handlers s []
  occurs : s.PeakOccurs l []
  low : s.peak ≤ 1

theorem meet_peak (s : DepthSearch) (i : Nat) :
    (s.meet l i 1 >>= fun s => pure { s with peak := 1 }) =
      ({ s with peak := 1 } : DepthSearch).meet l i 1 := by
  unfold meet
  split
  · rfl
  · cases h : s.depths.getD i none with
    | none => rfl
    | some known =>
      dsimp only
      split <;> rfl

theorem Entered.enter {s s' : DepthSearch} {i : Nat} (entered : Entered l handlers s)
    (handles : i ∈ handlers) (met : ({ s with peak := 1 } : DepthSearch).meet l i 1 = .ok s') :
    Entered l handlers s' ∧ Grows s s' ∧ s'.At i 1 := by
  have raised : Tracks l { s with peak := 1 } [] :=
    ⟨entered.tracks.size, entered.tracks.once, entered.tracks.met⟩
  have higher : Sound l handlers { s with peak := 1 } [] :=
    ⟨entered.sound.reached, by simp,
      fun j e found => Nat.le_trans (entered.sound.below j e found) entered.low⟩
  obtain ⟨grows, here, peak⟩ := meet_grows raised.size met
  have sound := higher.meet raised.size (.handler handles) (Nat.le_refl 1) met
  exact ⟨⟨raised.meet met, sound, ⟨i, 1, here, .inl peak⟩, Nat.le_of_eq peak⟩,
    ⟨Nat.le_trans entered.low (Nat.le_of_eq peak.symm), grows.2⟩, here⟩

theorem Entered.enterAll {s s' : DepthSearch} {rest : List Nat} (entered : Entered l handlers s)
    (handle : rest ⊆ handlers)
    (met : rest.foldlM (fun (s : DepthSearch) i => do
      let s ← s.meet l i 1
      return { s with peak := 1 }) s = .ok s') :
    Entered l handlers s' ∧ Grows s s' ∧ ∀ i ∈ rest, s'.At i 1 := by
  induction rest generalizing s with
  | nil =>
    cases met
    exact ⟨entered, .refl _, by simp⟩
  | cons i rest ih =>
    rw [List.foldlM_cons, bind_eq_ok] at met
    obtain ⟨between, first, others⟩ := met
    rw [meet_peak] at first
    obtain ⟨entered', grows, here⟩ := entered.enter (handle List.mem_cons_self) first
    obtain ⟨last, grows', all⟩ := ih entered' (fun j hj => handle (List.mem_cons_of_mem _ hj)) others
    refine ⟨last, grows.trans grows', ?_⟩
    intro j hj
    rcases List.mem_cons.1 hj with rfl | inRest
    · exact grows'.2 j 1 here
    · exact all j inRest

theorem entered_of_empty {s : DepthSearch}
    (met : ({ depths := Array.replicate l.size none } : DepthSearch).meet l 0 0 = .ok s) :
    Entered l handlers s ∧ s.At 0 0 := by
  have unmet : ∀ i d, ¬({ depths := Array.replicate l.size none } : DepthSearch).At i d := by
    intro i d found
    simp only [At, Array.getD_eq_getD_getElem?, Array.getElem?_replicate] at found
    split at found <;> cases found
  have tracks : Tracks l { depths := Array.replicate l.size none } [] :=
    ⟨by simp, by simp, fun i => by simp [unmet]⟩
  have sound : Sound l handlers { depths := Array.replicate l.size none } [] :=
    ⟨fun i d found => absurd found (unmet i d), by simp, fun i d found => absurd found (unmet i d)⟩
  obtain ⟨-, here, peak⟩ := meet_grows tracks.size met
  exact ⟨⟨tracks.meet met, sound.meet tracks.size .first (Nat.le_refl 0) met,
    ⟨0, 0, here, .inl peak⟩, by rw [peak]; exact Nat.zero_le 1⟩, here⟩

theorem entered_of_eq_ok {s : DepthSearch} (done : l.entered handlers = .ok s) :
    Entered l handlers s ∧ s.At 0 0 ∧ ∀ i ∈ handlers, s.At i 1 := by
  rw [Layout.entered, bind_eq_ok] at done
  obtain ⟨first, met, others⟩ := done
  obtain ⟨entered, here⟩ : Entered l handlers first ∧ first.At 0 0 := entered_of_empty met
  obtain ⟨last, grows, all⟩ := entered.enterAll (List.Subset.refl _) others
  exact ⟨last, grows.2 0 0 here, all⟩

structure Analysed (l : Layout) (handlers : List Nat) (s : DepthSearch) : Prop where
  reached : ∀ i, l.Reachable handlers i ↔ ∃ d, s.At i d
  first : s.At 0 0
  handler : ∀ i ∈ handlers, s.At i 1
  inside : ∀ i d, s.At i d → i < l.size
  followed : ∀ i d, s.At i d → s.Followed l i
  below : ∀ i d, s.At i d → d ≤ s.peak
  occurs : ∃ i d, s.At i d ∧ (s.peak = d ∨ ∃ instruction, l.instructions[i]? = some instruction ∧
    s.peak = instruction.behind d)

/-- In whatever order instructions are followed, the search is done when no work is left. -/
theorem analysed_of_runs {start s : DepthSearch} {is : List Nat}
    (hstart : l.entered handlers = .ok start) (runs : Runs l start is s) (noWork : s.work = []) :
    Analysed l handlers s := by
  obtain ⟨entered, first, handler⟩ := entered_of_eq_ok hstart
  have tracks := runs.tracks entered.tracks
  obtain ⟨sound, i, d, met, reason⟩ := runs.sound entered.tracks entered.sound entered.occurs
  have grows := runs.grows entered.tracks
  have followed : ∀ i d, s.At i d → s.Followed l i := by
    intro i d met
    have member := (tracks.met i).2 ⟨d, met⟩
    rw [noWork, List.append_nil] at member
    exact sound.followed i member
  refine ⟨fun i => ⟨fun reached => ?_, fun ⟨d, met⟩ => sound.reached i d met⟩, grows.2 0 0 first,
    fun i hi => grows.2 i 1 (handler i hi), fun i d met => by rw [← tracks.size]; exact met.lt,
    followed, sound.below, i, d, met, ?_⟩
  · induction reached with
    | first => exact ⟨0, grows.2 0 0 first⟩
    | handler handles => exact ⟨1, grows.2 _ 1 (handler _ handles)⟩
    | next _ here after ih =>
      obtain ⟨d, met⟩ := ih
      obtain ⟨e, instruction, js, -, there, -, -, -, -, found, next⟩ := followed _ d met
      rw [here] at there
      cases there
      exact ⟨_, next _ ((Layout.mem_successors found _).2 after)⟩
  · rcases reason with before | ⟨instruction, -, here, behind⟩
    · exact .inl before
    · exact .inr ⟨instruction, here, behind⟩

theorem analysed_of_eq_ok {s : DepthSearch} (done : l.stackDepths handlers = .ok s) :
    Analysed l handlers s := by
  rw [Layout.stackDepths_eq, bind_eq_ok] at done
  obtain ⟨start, hstart, done⟩ := done
  have tracks := (entered_of_eq_ok hstart).1.tracks
  obtain ⟨is, runs⟩ := tracks.runs_of_run done
  exact analysed_of_runs hstart runs ((tracks.run_enough (by simp)).2 s done)

theorem Analysed.next {s : DepthSearch} (analysed : Analysed l handlers s) {i j d : Nat}
    {instruction : Instruction} (met : s.At i d) (here : l.instructions[i]? = some instruction)
    (next : l.Next i instruction.operation j) : s.At j (instruction.behind d) := by
  obtain ⟨e, other, js, met', there, -, -, -, -, found, all⟩ := analysed.followed i d met
  rw [here] at there
  cases there
  rw [met.unique met']
  exact all j ((Layout.mem_successors found j).2 next)

theorem Analysed.pops_le {s : DepthSearch} (analysed : Analysed l handlers s) {i d : Nat}
    {instruction : Instruction} (met : s.At i d) (here : l.instructions[i]? = some instruction) :
    instruction.pops ≤ d := by
  obtain ⟨e, other, js, met', there, enough, -⟩ := analysed.followed i d met
  rw [here] at there
  cases there
  rw [met.unique met']
  exact enough

theorem Analysed.depth_le {s : DepthSearch} (analysed : Analysed l handlers s) {i d : Nat}
    (met : s.At i d) : d ≤ 65535 := by
  have reached := (analysed.reached i).2 ⟨d, met⟩
  cases reached with
  | first =>
    have same := met.unique analysed.first
    omega
  | handler handles =>
    have same := met.unique (analysed.handler i handles)
    omega
  | next before here after =>
    obtain ⟨e, met'⟩ := (analysed.reached _).1 before
    obtain ⟨e, instruction, js, -, there, -, bounded, -, -, found, next⟩ :=
      analysed.followed _ e met'
    rw [here] at there
    cases there
    have same := met.unique (next i ((Layout.mem_successors found i).2 after))
    omega

theorem Analysed.peak_le {s : DepthSearch} (analysed : Analysed l handlers s) :
    s.peak ≤ 65535 := by
  obtain ⟨i, d, met, reason⟩ := analysed.occurs
  rcases reason with same | ⟨instruction, here, same⟩
  · have le := analysed.depth_le met
    omega
  · obtain ⟨e, instruction', js, met', there, -, bounded, -⟩ := analysed.followed i d met
    rw [here] at there
    cases there
    rw [met.unique met'] at same
    omega

def found (s : DepthSearch) (i : Nat) : Nat := (s.depths.getD i none).getD 0

theorem At.found_eq {s : DepthSearch} {i d : Nat} (met : s.At i d) : s.found i = d := by
  rw [found, show s.depths.getD i none = some d from met, Option.getD_some]

theorem Analysed.consistent {s : DepthSearch} (analysed : Analysed l handlers s) :
    l.Consistent handlers s.found := by
  have follow : ∀ i instruction, l.Reachable handlers i → l.instructions[i]? = some instruction →
      s.At i (s.found i) ∧ instruction.pops ≤ s.found i ∧ instruction.behind (s.found i) ≤ 65535 ∧
        (∀ kind, instruction.operation = .leave kind → s.found i = instruction.pops) ∧
        ∀ j, l.Next i instruction.operation j → s.At j (instruction.behind (s.found i)) := by
    intro i instruction reached here
    obtain ⟨d, met⟩ := (analysed.reached i).1 reached
    obtain ⟨e, other, js, met', there, enough, bounded, -, leaves, hjs, next⟩ :=
      analysed.followed i d met
    rw [here] at there
    cases there
    rw [met'.found_eq]
    exact ⟨met', enough, bounded, leaves, fun j after => next j ((Layout.mem_successors hjs j).2 after)⟩
  constructor
  · intro i reached
    obtain ⟨d, met⟩ := (analysed.reached i).1 reached
    exact analysed.inside i d met
  · exact analysed.first.found_eq
  · intro i handles
    exact (analysed.handler i handles).found_eq
  · intro i instruction reached here
    exact (follow i instruction reached here).2.1
  · intro i instruction reached here
    exact (follow i instruction reached here).2.2.1
  · intro i instruction j reached here after
    exact ((follow i instruction reached here).2.2.2.2 j after).found_eq
  · intro i instruction kind reached here leaves
    exact (follow i instruction reached here).2.2.2.1 kind leaves

def Agrees (s : DepthSearch) (depth : Nat → Nat) : Prop := ∀ i d, s.At i d → d = depth i

variable {depth : Nat → Nat}

theorem Agrees.meet {s : DepthSearch} {i : Nat} (agrees : s.Agrees depth)
    (tracked : s.depths.size = l.size) (inside : i < l.size) :
    ∃ s', s.meet l i (depth i) = .ok s' ∧ s'.Agrees depth := by
  by_cases met : ∃ e, s.At i e
  · obtain ⟨e, found⟩ := met
    rw [agrees i e found] at found
    exact ⟨s, meet_eq_ok.2 ⟨inside, .inl ⟨found, rfl⟩⟩, agrees⟩
  · refine ⟨_, meet_eq_ok.2 ⟨inside, .inr ⟨fun e found => met ⟨e, found⟩, rfl⟩⟩, ?_⟩
    intro j e found
    rw [at_met (by omega)] at found
    split at found
    · rename_i same
      rw [same, found]
    · exact agrees j e found

theorem Agrees.meetAll {s : DepthSearch} {taken js : List Nat} {d : Nat} (agrees : s.Agrees depth)
    (tracks : Tracks l s taken) (inside : ∀ j ∈ js, j < l.size) (same : ∀ j ∈ js, depth j = d) :
    ∃ s', s.meetAll l js d = .ok s' ∧ s'.Agrees depth := by
  induction js generalizing s with
  | nil => exact ⟨s, rfl, agrees⟩
  | cons j rest ih =>
    simp only [List.mem_cons, forall_eq_or_imp] at inside same
    obtain ⟨between, met, agrees'⟩ := agrees.meet tracks.size inside.1
    rw [same.1] at met
    obtain ⟨s', others, last⟩ := ih agrees' (tracks.meet met) inside.2 same.2
    exact ⟨s', meetAll_cons_eq_ok.2 ⟨between, met, others⟩, last⟩

theorem Agrees.follow {s : DepthSearch} {taken : List Nat} {i : Nat} {instruction : Instruction}
    (agrees : s.Agrees depth) (consistent : l.Consistent handlers depth)
    (marked : l.Marked handlers) (tracks : Tracks l s taken) (reached : l.Reachable handlers i)
    (here : l.instructions[i]? = some instruction) :
    ∃ s', s.follow l i (depth i) instruction = .ok s' ∧ s'.Agrees depth := by
  obtain ⟨js, hjs⟩ : ∃ js, l.successors i instruction.operation = .ok js := by
    cases branches : instruction.operation.target? with
    | none => exact ⟨_, Layout.successors_eq_ok.2 (by rw [branches])⟩
    | some t =>
      obtain ⟨j, hj⟩ := marked i instruction t reached here branches
      exact ⟨_, Layout.successors_eq_ok.2 (by rw [branches]; exact ⟨j, hj, rfl⟩)⟩
  have next : ∀ j ∈ js, l.Next i instruction.operation j := fun j hj =>
    (Layout.mem_successors hjs j).1 hj
  have raised : Tracks l { s with peak := max s.peak (instruction.behind (depth i)) } taken :=
    ⟨tracks.size, tracks.once, tracks.met⟩
  have agrees' : ({ s with peak := max s.peak (instruction.behind (depth i)) } :
      DepthSearch).Agrees depth := agrees
  obtain ⟨s', all, last⟩ := agrees'.meetAll raised
    (fun j hj => consistent.inside j (.next reached here (next j hj)))
    (fun j hj => consistent.flows i instruction j reached here (next j hj))
  exact ⟨s', follow_eq_ok.2 ⟨consistent.enough i instruction reached here,
    consistent.bounded i instruction reached here,
    fun kind => consistent.leaves i instruction kind reached here, js, hjs, all⟩, last⟩

theorem Agrees.run {s : DepthSearch} {taken handled : List Nat} (fuel : Nat)
    (agrees : s.Agrees depth) (consistent : l.Consistent handlers depth)
    (marked : l.Marked handlers) (tracks : Tracks l s taken) (sound : Sound l handlers s handled) :
    ∃ s', s.run l fuel = .ok s' ∧ s'.Agrees depth := by
  -- What is met is reachable, so the given depths leave no check that could fail.
  induction fuel generalizing s taken handled with
  | zero => exact ⟨s, rfl, agrees⟩
  | succ fuel ih =>
    cases work : s.work with
    | nil => exact ⟨s, run_nil work _, agrees⟩
    | cons i rest =>
      obtain ⟨d, instruction, met, here⟩ := tracks.head work
      have taking := tracks.take (.of_eq work)
      have sound' : Sound l handlers { s with work := rest } handled :=
        ⟨sound.reached, sound.followed, sound.below⟩
      have agrees' : ({ s with work := rest } : DepthSearch).Agrees depth := agrees
      obtain ⟨between, followed, agrees''⟩ :=
        agrees'.follow consistent marked taking (sound.reached i d met) here
      rw [← agrees i d met] at followed
      obtain ⟨s', others, last⟩ := ih agrees'' (follow_tracks taking followed).1
        (sound'.follow taking met here followed)
      exact ⟨s', by rw [run_cons work met here, followed]; exact others, last⟩

theorem Agrees.enterAll {s : DepthSearch} {rest : List Nat} (agrees : s.Agrees depth)
    (consistent : l.Consistent handlers depth) (entered : Entered l handlers s)
    (handle : rest ⊆ handlers) :
    ∃ s', rest.foldlM (fun (s : DepthSearch) i => do
      let s ← s.meet l i 1
      return { s with peak := 1 }) s = .ok s' ∧ s'.Agrees depth := by
  induction rest generalizing s with
  | nil => exact ⟨s, rfl, agrees⟩
  | cons i rest ih =>
    have handles := handle List.mem_cons_self
    have agrees' : ({ s with peak := 1 } : DepthSearch).Agrees depth := agrees
    obtain ⟨between, met, agrees''⟩ :=
      agrees'.meet entered.tracks.size (consistent.inside i (.handler handles))
    rw [consistent.handler i handles] at met
    obtain ⟨entered', -, -⟩ := entered.enter handles met
    obtain ⟨s', others, last⟩ := ih agrees'' entered' fun j hj => handle (List.mem_cons_of_mem _ hj)
    refine ⟨s', ?_, last⟩
    rw [List.foldlM_cons, meet_peak, met]
    exact others

theorem agrees_of_consistent (consistent : l.Consistent handlers depth)
    (marked : l.Marked handlers) : ∃ s, l.stackDepths handlers = .ok s ∧ s.Agrees depth := by
  have unmet : ({ depths := Array.replicate l.size none } : DepthSearch).Agrees depth := by
    intro i d found
    simp only [At, Array.getD_eq_getD_getElem?, Array.getElem?_replicate] at found
    split at found <;> cases found
  have inside := consistent.inside 0 .first
  obtain ⟨first, met, agrees⟩ := unmet.meet (l := l) (i := 0) (by simp) inside
  rw [consistent.first] at met
  obtain ⟨entered, _⟩ : Entered l handlers first ∧ first.At 0 0 := entered_of_empty met
  obtain ⟨start, others, agrees'⟩ := agrees.enterAll consistent entered (List.Subset.refl _)
  have hstart : l.entered handlers = .ok start := by
    rw [Layout.entered, bind_eq_ok]
    exact ⟨first, met, others⟩
  obtain ⟨entered', -, -⟩ := entered_of_eq_ok hstart
  obtain ⟨s, done, last⟩ := agrees'.run l.size consistent marked entered'.tracks entered'.sound
  exact ⟨s, by rw [Layout.stackDepths_eq, bind_eq_ok]; exact ⟨start, hstart, done⟩, last⟩

end DepthSearch

namespace Layout

theorem maxStack_eq_ok {peak : Nat} :
    l.maxStack handlers = .ok peak ↔ ∃ s, l.stackDepths handlers = .ok s ∧ s.peak = peak := by
  rw [maxStack, bind_eq_ok]
  refine exists_congr fun s => and_congr_right fun _ => ?_
  rw [pure_eq_ok, eq_comm]

theorem peak_occurs {s : DepthSearch} {depth : Nat → Nat} (analysed : Analysed l handlers s)
    (agrees : s.Agrees depth) : l.Occurs handlers depth s.peak ∧
      ∀ d, l.Occurs handlers depth d → d ≤ s.peak := by
  have here : ∀ i, l.Reachable handlers i → s.At i (depth i) := by
    intro i reached
    obtain ⟨d, met⟩ := (analysed.reached i).1 reached
    exact agrees i d met ▸ met
  constructor
  · obtain ⟨i, d, met, reason⟩ := analysed.occurs
    have reached := (analysed.reached i).2 ⟨d, met⟩
    have same := agrees i d met
    rcases reason with before | ⟨instruction, there, behind⟩
    · rw [before, same]
      exact .before reached
    · rw [behind, same]
      exact .behind reached there
  · intro d occurs
    cases occurs with
    | before reached => exact analysed.below _ _ (here _ reached)
    | behind reached there =>
      obtain ⟨e, other, js, met, there', -, -, peak, -⟩ := analysed.followed _ _ (here _ reached)
      rw [there] at there'
      cases there'
      rwa [agrees _ e met] at peak

theorem maxStack_of_runs {start s : DepthSearch} {is : List Nat} (marked : l.Marked handlers)
    (hstart : l.entered handlers = .ok start) (runs : Runs l start is s) (noWork : s.work = []) :
    l.maxStack handlers = .ok s.peak := by
  have analysed := analysed_of_runs hstart runs noWork
  obtain ⟨s', done, agrees⟩ := agrees_of_consistent analysed.consistent marked
  -- The depths of one search are consistent, so the other search has to find them as well.
  have own : s.Agrees s.found := fun i d met => met.found_eq.symm
  obtain ⟨occurs, greatest⟩ := peak_occurs analysed own
  obtain ⟨occurs', greatest'⟩ := peak_occurs (analysed_of_eq_ok done) agrees
  exact maxStack_eq_ok.2 ⟨s', done, Nat.le_antisymm (greatest _ occurs') (greatest' _ occurs)⟩

/-- The analysis succeeds exactly when depths fit together, and then it gives the greatest of them.
No instruction is followed twice, whatever the order, so that the search ends by itself before the
limit on its steps stops it. -/
theorem maxStack_iff_consistent (l : Layout) (handlers : List Nat) (marked : l.Marked handlers) :
    ((∃ peak, l.maxStack handlers = .ok peak) ↔ ∃ depth, l.Consistent handlers depth) ∧
    (∀ peak depth, l.maxStack handlers = .ok peak → l.Consistent handlers depth →
      l.Occurs handlers depth peak ∧ ∀ d, l.Occurs handlers depth d → d ≤ peak) ∧
    ∀ start, l.entered handlers = .ok start →
      (∀ is s, Runs l start is s → is.Nodup ∧ (∀ i ∈ is, i < l.size) ∧
        (s.work = [] → l.maxStack handlers = .ok s.peak)) ∧
      (∀ fuel, l.size ≤ fuel → start.run l fuel = start.run l l.size) ∧
      ∀ s, start.run l l.size = .ok s → s.work = [] := by
  refine ⟨⟨?_, ?_⟩, ?_, ?_⟩
  · intro succeeds
    obtain ⟨peak, done⟩ := succeeds
    obtain ⟨s, done, -⟩ := maxStack_eq_ok.1 done
    exact ⟨s.found, (analysed_of_eq_ok done).consistent⟩
  · intro fit
    obtain ⟨depth, consistent⟩ := fit
    obtain ⟨s, done, -⟩ := agrees_of_consistent consistent marked
    exact ⟨s.peak, maxStack_eq_ok.2 ⟨s, done, rfl⟩⟩
  · intro peak depth succeeds consistent
    obtain ⟨s, done, rfl⟩ := maxStack_eq_ok.1 succeeds
    obtain ⟨s', done', agrees⟩ := agrees_of_consistent consistent marked
    rw [done] at done'
    cases done'
    exact peak_occurs (analysed_of_eq_ok done) agrees
  · intro start hstart
    have tracks := (entered_of_eq_ok hstart).1.tracks
    have enough := tracks.run_enough (Nat.le_add_left l.size _)
    refine ⟨fun is s runs => ?_, enough.1, enough.2⟩
    have tracks' := runs.tracks tracks
    rw [List.append_nil] at tracks'
    refine ⟨?_, fun i hi => ?_, maxStack_of_runs marked hstart runs⟩
    · exact (List.reverse_perm is).nodup_iff.1 (List.nodup_append.1 tracks'.once).1
    · obtain ⟨d, met⟩ := (tracks'.met i).1 (List.mem_append_left _ (List.mem_reverse.2 hi))
      rw [← tracks'.size]
      exact met.lt

/-- A loop that pushes a number and leaves when it is zero. -/
def loop : Layout where
  instructions := #[⟨.pushInt 0, 0, 1⟩, ⟨.branch (.zero .ne) ⟨0⟩, 1, 0⟩, ⟨.leave none, 0, 0⟩]
  offsets := #[0, 1, 4, 5]
  labels := (∅ : Std.TreeMap Nat Nat).insert 0 0

theorem marked_loop : loop.Marked [] := by
  intro i instruction t _ here branches
  match i with
  | 0 | 2 =>
    cases here
    cases branches
  | 1 =>
    cases here
    cases branches
    exact ⟨0, by rfl⟩
  | _ + 3 => cases here

theorem maxStack_iff_consistent_loop :
    loop.maxStack [] = .ok 1 ∧ ∃ depth, loop.Consistent [] depth := by
  have done : loop.maxStack [] = .ok 1 := by rfl
  exact ⟨done, (maxStack_iff_consistent loop [] marked_loop).1.1 ⟨1, done⟩⟩

end Layout
end ClassForge
