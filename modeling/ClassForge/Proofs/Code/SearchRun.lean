import Mathlib.Data.List.Perm.Subperm
import ClassForge.Proofs.Code.DepthSearch

namespace ClassForge.DepthSearch

open Outcome

variable {l : Layout} {handlers : List Nat}

/-- Instructions followed one after the other, in any order, until it is left off. -/
inductive Runs (l : Layout) : DepthSearch → List Nat → DepthSearch → Prop where
  | leaveOff (s : DepthSearch) : Runs l s [] s
  | follow {s s' s'' : DepthSearch} {i d : Nat} {rest is : List Nat} {instruction : Instruction}
    (work : s.work.Perm (i :: rest)) (met : s.At i d)
    (here : l.instructions[i]? = some instruction)
    (followed : ({ s with work := rest } : DepthSearch).follow l i d instruction = .ok s')
    (others : Runs l s' is s'') : Runs l s (i :: is) s''

theorem Tracks.length_le {s : DepthSearch} {taken : List Nat} (tracks : Tracks l s taken) :
    taken.length + s.work.length ≤ l.size := by
  have inside : taken ++ s.work ⊆ List.range l.size := by
    intro i member
    obtain ⟨d, met⟩ := (tracks.met i).1 member
    rw [List.mem_range, ← tracks.size]
    exact met.lt
  have bound := (List.subperm_of_subset tracks.once inside).length_le
  rwa [List.length_append, List.length_range] at bound

theorem Tracks.head {s : DepthSearch} {taken rest : List Nat} {i : Nat} (tracks : Tracks l s taken)
    (work : s.work = i :: rest) :
    ∃ d instruction, s.At i d ∧ l.instructions[i]? = some instruction := by
  have member : i ∈ taken ++ s.work := by rw [work]; simp
  obtain ⟨d, met⟩ := (tracks.met i).1 member
  have inside : i < l.instructions.size := by
    have bound := met.lt
    rwa [tracks.size] at bound
  exact ⟨d, l.instructions[i], met, Array.getElem?_eq_getElem inside⟩

theorem run_nil {s : DepthSearch} (work : s.work = []) (fuel : Nat) : s.run l fuel = .ok s := by
  cases fuel with
  | zero => rfl
  | succ fuel => rw [run, work]

theorem run_cons {s : DepthSearch} {i d : Nat} {rest : List Nat} {instruction : Instruction}
    (work : s.work = i :: rest) (met : s.At i d) (here : l.instructions[i]? = some instruction)
    (fuel : Nat) : s.run l (fuel + 1) =
      (({ s with work := rest } : DepthSearch).follow l i d instruction >>= run l fuel) := by
  rw [At] at met
  simp only [run, work, here, met]

/-- With enough fuel for all instructions that are left, the search gets through its work, and more
fuel changes nothing. -/
theorem Tracks.run_enough {s : DepthSearch} {taken : List Nat} {fuel : Nat}
    (tracks : Tracks l s taken) (enough : l.size ≤ taken.length + fuel) :
    (∀ more, fuel ≤ more → s.run l more = s.run l fuel) ∧
      ∀ s', s.run l fuel = .ok s' → s'.work = [] := by
  -- Each round takes up an instruction that was not taken up before.
  induction fuel generalizing s taken with
  | zero =>
    have bound := tracks.length_le
    have work : s.work = [] := List.eq_nil_of_length_eq_zero (by omega)
    refine ⟨fun more _ => by rw [run_nil work, run_nil work], fun s' done => ?_⟩
    cases done
    exact work
  | succ fuel ih =>
    cases work : s.work with
    | nil =>
      refine ⟨fun more _ => by rw [run_nil work, run_nil work], fun s' done => ?_⟩
      rw [run_nil work] at done
      cases done
      exact work
    | cons i rest =>
      obtain ⟨d, instruction, met, here⟩ := tracks.head work
      have taking := tracks.take (.of_eq work)
      constructor
      · intro more less
        obtain ⟨more, rfl⟩ : ∃ m, more = m + 1 := ⟨more - 1, by omega⟩
        rw [run_cons work met here, run_cons work met here]
        cases h : ({ s with work := rest } : DepthSearch).follow l i d instruction with
        | error e => rfl
        | ok s' =>
          have tracks' := (follow_tracks taking h).1
          exact (ih tracks' (by rw [List.length_cons]; omega)).1 more (by omega)
      · intro s'' done
        rw [run_cons work met here, bind_eq_ok] at done
        obtain ⟨s', h, done⟩ := done
        have tracks' := (follow_tracks taking h).1
        exact (ih tracks' (by rw [List.length_cons]; omega)).2 s'' done

theorem Runs.grows {s s' : DepthSearch} {is : List Nat} (runs : Runs l s is s') {taken : List Nat}
    (tracks : Tracks l s taken) : Grows s s' := by
  induction runs generalizing taken with
  | leaveOff => exact .refl _
  | follow work met here followed others ih =>
    obtain ⟨tracks', grows, -⟩ := follow_tracks (tracks.take work) followed
    exact Grows.trans ⟨grows.1, grows.2⟩ (ih tracks')

theorem Runs.tracks {s s' : DepthSearch} {is : List Nat} (runs : Runs l s is s') {taken : List Nat}
    (tracks : Tracks l s taken) : Tracks l s' (is.reverse ++ taken) := by
  induction runs generalizing taken with
  | leaveOff => exact tracks
  | follow work met here followed others ih =>
    have tracks' := (follow_tracks (tracks.take work) followed).1
    have last := ih tracks'
    rwa [List.reverse_cons, List.append_assoc]

theorem Runs.sound {s s' : DepthSearch} {is : List Nat} (runs : Runs l s is s')
    {taken handled : List Nat} (tracks : Tracks l s taken) (sound : Sound l handlers s handled)
    (occurs : s.PeakOccurs l handled) :
    Sound l handlers s' (is.reverse ++ handled) ∧ s'.PeakOccurs l (is.reverse ++ handled) := by
  induction runs generalizing taken handled with
  | leaveOff => exact ⟨sound, occurs⟩
  | @follow s s' s'' i d rest is instruction work met here followed others ih =>
    have taking := tracks.take work
    have sound' : Sound l handlers { s with work := rest } handled :=
      ⟨sound.reached, sound.followed, sound.below⟩
    have occurs' : ({ s with work := rest } : DepthSearch).PeakOccurs l handled := occurs
    have last := ih (follow_tracks taking followed).1 (sound'.follow taking met here followed)
      (occurs'.follow taking met here followed)
    rwa [List.reverse_cons, List.append_assoc]

theorem Tracks.runs_of_run {s s' : DepthSearch} {taken : List Nat} {fuel : Nat}
    (tracks : Tracks l s taken) (done : s.run l fuel = .ok s') : ∃ is, Runs l s is s' := by
  induction fuel generalizing s taken with
  | zero =>
    cases done
    exact ⟨[], .leaveOff _⟩
  | succ fuel ih =>
    cases work : s.work with
    | nil =>
      rw [run_nil work] at done
      cases done
      exact ⟨[], .leaveOff _⟩
    | cons i rest =>
      obtain ⟨d, instruction, met, here⟩ := tracks.head work
      rw [run_cons work met here, bind_eq_ok] at done
      obtain ⟨between, followed, done⟩ := done
      obtain ⟨is, others⟩ := ih (follow_tracks (tracks.take (.of_eq work)) followed).1 done
      exact ⟨i :: is, .follow (.of_eq work) met here followed others⟩

end ClassForge.DepthSearch
