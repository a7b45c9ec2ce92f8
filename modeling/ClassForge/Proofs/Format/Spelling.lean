import ClassForge.Format.Cursor

namespace ClassForge

/-- The bytes by which a value may be spelled. -/
abbrev Spelling (α : Type) := α → List UInt8 → Prop

namespace Spelling

variable {α β : Type}

def nothing (a : α) : Spelling α := fun b us => b = a ∧ us = []

def never : Spelling α := fun _ _ => False

/-- One spelling behind the other, where the second may look at the value of the first. -/
def andThen (F : Spelling α) (G : α → Spelling β) : Spelling β := fun b us =>
  ∃ a u v, F a u ∧ G a b v ∧ us = u ++ v

def byte : Spelling UInt8 := fun b us => us = [b]

def u16 : Spelling UInt16 := fun n us => us = Bytes.ofU16 n

def u32 : Spelling UInt32 := fun n us => us = Bytes.ofU32 n

def raw (n : Nat) : Spelling (List UInt8) := fun bs us => us = bs ∧ bs.length = n

def all (F : Spelling α) : Spelling (List α)
  | [], us => us = []
  | a :: rest, us => ∃ u v, F a u ∧ all F rest v ∧ us = u ++ v

def table (F : Spelling α) : Spelling (List α) := fun xs us =>
  xs.length ≤ 65535 ∧ ∃ v, all F xs v ∧ us = Bytes.ofU16 (UInt16.ofNat xs.length) ++ v

theorem andThen_nothing {F : Spelling α} {f : α → β} {b : β} {us : List UInt8} :
    F.andThen (fun a => nothing (f a)) b us ↔ ∃ a, F a us ∧ b = f a := by
  constructor
  · intro parts
    obtain ⟨a, u, _, hu, ⟨rfl, rfl⟩, rfl⟩ := parts
    exact ⟨a, by simpa using hu, rfl⟩
  · intro parts
    obtain ⟨a, hu, rfl⟩ := parts
    exact ⟨a, us, [], hu, ⟨rfl, rfl⟩, by simp⟩

theorem andThen_u16 {G : UInt16 → Spelling β} {b : β} {us : List UInt8} :
    u16.andThen G b us ↔ ∃ n v, G n b v ∧ us = Bytes.ofU16 n ++ v := by
  constructor
  · intro parts
    obtain ⟨n, _, v, rfl, hv, rfl⟩ := parts
    exact ⟨n, v, hv, rfl⟩
  · intro parts
    obtain ⟨n, v, hv, rfl⟩ := parts
    exact ⟨n, _, v, rfl, hv, rfl⟩

theorem andThen_byte {G : UInt8 → Spelling β} {b : β} {us : List UInt8} :
    byte.andThen G b us ↔ ∃ n v, G n b v ∧ us = n :: v := by
  constructor
  · intro parts
    obtain ⟨n, _, v, rfl, hv, rfl⟩ := parts
    exact ⟨n, v, hv, rfl⟩
  · intro parts
    obtain ⟨n, v, hv, rfl⟩ := parts
    exact ⟨n, _, v, rfl, hv, rfl⟩

theorem table_iff {F : Spelling α} {xs : List α} {us : List UInt8} :
    table F xs us ↔
      ∃ n v, (xs.length = UInt16.toNat n ∧ all F xs v) ∧ us = Bytes.ofU16 n ++ v := by
  constructor
  · intro parts
    obtain ⟨short, v, hv, rfl⟩ := parts
    have whole : (UInt16.ofNat xs.length).toNat = xs.length := by
      rw [UInt16.toNat_ofNat']
      omega
    exact ⟨UInt16.ofNat xs.length, v, ⟨whole.symm, hv⟩, rfl⟩
  · intro parts
    obtain ⟨n, v, ⟨hn, hv⟩, rfl⟩ := parts
    have bound := n.toNat_lt
    exact ⟨by omega, v, hv, by rw [hn, UInt16.ofNat_toNat]⟩

theorem all_mono {F G : Spelling α} {xs : List α} (weaker : ∀ a ∈ xs, ∀ us, F a us → G a us)
    {us : List UInt8} (spelled : all F xs us) : all G xs us := by
  induction xs generalizing us with
  | nil => exact spelled
  | cons a rest ih =>
    obtain ⟨u, v, hu, hv, rfl⟩ := spelled
    simp only [List.mem_cons, forall_eq_or_imp] at weaker
    exact ⟨u, v, weaker.1 u hu, ih weaker.2 hv, rfl⟩

theorem table_mono {F G : Spelling α} {xs : List α} (weaker : ∀ a ∈ xs, ∀ us, F a us → G a us)
    {us : List UInt8} (spelled : table F xs us) : table G xs us := by
  obtain ⟨few, v, hv, rfl⟩ := spelled
  exact ⟨few, v, all_mono weaker hv, rfl⟩

theorem exists_spelled {F : Spelling α} {xs : List α} {us : List UInt8} (spelled : all F xs us)
    {a : α} (member : a ∈ xs) : ∃ u, F a u := by
  induction xs generalizing us with
  | nil => cases member
  | cons b rest ih =>
    obtain ⟨u, v, hu, hv, rfl⟩ := spelled
    rcases List.mem_cons.1 member with rfl | inRest
    · exact ⟨u, hu⟩
    · exact ih hv inRest

theorem all_and {F : Spelling α} {P : α → Prop} (xs : List α) (us : List UInt8) :
    all (fun a u => F a u ∧ P a) xs us ↔ all F xs us ∧ ∀ a ∈ xs, P a := by
  induction xs generalizing us with
  | nil => simp [all]
  | cons a rest ih =>
    simp only [all, ih, List.mem_cons, forall_eq_or_imp]
    constructor
    · intro parts
      obtain ⟨u, v, ⟨hu, ha⟩, ⟨hv, hrest⟩, rfl⟩ := parts
      exact ⟨⟨u, v, hu, hv, rfl⟩, ha, hrest⟩
    · intro parts
      obtain ⟨⟨u, v, hu, hv, rfl⟩, ha, hrest⟩ := parts
      exact ⟨u, v, ⟨hu, ha⟩, ⟨hv, hrest⟩, rfl⟩

theorem table_and {F : Spelling α} {P : α → Prop} (xs : List α) (us : List UInt8) :
    table (fun a u => F a u ∧ P a) xs us ↔ table F xs us ∧ ∀ a ∈ xs, P a := by
  simp only [table, all_and]
  constructor
  · intro parts
    obtain ⟨short, v, ⟨hv, each⟩, rfl⟩ := parts
    exact ⟨⟨short, v, hv, rfl⟩, each⟩
  · intro parts
    obtain ⟨⟨short, v, hv, rfl⟩, each⟩ := parts
    exact ⟨short, v, ⟨hv, each⟩, rfl⟩

theorem all_length {F : Spelling α} {width : α → Nat} (fixed : ∀ a us, F a us → us.length = width a)
    {xs : List α} {us : List UInt8} (spelled : all F xs us) :
    us.length = xs.foldr (fun a n => width a + n) 0 := by
  induction xs generalizing us with
  | nil => simp [show us = [] from spelled]
  | cons a rest ih =>
    obtain ⟨u, v, hu, hv, rfl⟩ := spelled
    simp [fixed a u hu, ih hv]

theorem table_length {F : Spelling α} {width : Nat} (fixed : ∀ a us, F a us → us.length = width)
    {xs : List α} {us : List UInt8} (spelled : table F xs us) :
    us.length = 2 + width * xs.length := by
  obtain ⟨-, v, hv, rfl⟩ := spelled
  have sum : xs.foldr (fun _ n => width + n) 0 = width * xs.length := by
    clear hv
    induction xs with
    | nil => simp
    | cons a rest ih =>
      rw [List.foldr_cons, ih, List.length_cons, Nat.mul_succ]
      omega
  rw [List.length_append, Bytes.length_ofU16, all_length fixed hv, sum]

end Spelling

namespace Reader

open Spelling

variable {α β γ : Type}

/-- A reader that follows a format reads the values it spells, whatever comes behind them. -/
def Follows (r : Reader α) (F : Spelling α) : Prop :=
  ∀ c a c', r c = .ok (a, c') ↔
    ∃ us, F a us ∧ c.bytes = us ++ c'.bytes ∧ c'.offset = c.offset + us.length

/-- Within its own bytes a reader uses up just what the format spells. -/
def UsesUp (r : Reader α) (F : Spelling α) : Prop :=
  ∀ offset bytes a,
    (∃ c', r ⟨offset, bytes⟩ = .ok (a, c') ∧ c'.bytes = []) ↔ F a bytes

theorem bind_eq_ok {r : Reader α} {k : α → Reader β} {c : Cursor} {x : β × Cursor} :
    (r >>= k) c = .ok x ↔ ∃ a c', r c = .ok (a, c') ∧ k a c' = .ok x := by
  change (r c >>= fun y => k y.1 y.2) = .ok x ↔ _
  cases r c with
  | error f => simp [Bind.bind, Except.bind]
  | ok y =>
    obtain ⟨a, left⟩ := y
    simp only [Bind.bind, Except.bind, Except.ok.injEq, Prod.mk.injEq]
    constructor
    · intro hk
      exact ⟨a, left, ⟨rfl, rfl⟩, hk⟩
    · intro parts
      obtain ⟨_, _, ⟨rfl, rfl⟩, hk⟩ := parts
      exact hk

theorem map_eq_ok {r : Reader α} {view : α → β} {c c' : Cursor} {b : β} :
    (view <$> r) c = .ok (b, c') ↔ ∃ a, r c = .ok (a, c') ∧ view a = b := by
  change ((fun y : α × Cursor => (view y.1, y.2)) <$> r c) = .ok (b, c') ↔ _
  cases r c with
  | error f => simp [Functor.map, Except.map]
  | ok y =>
    obtain ⟨a, left⟩ := y
    simp only [Functor.map, Except.map, Except.ok.injEq, Prod.mk.injEq]
    constructor
    · intro parts
      obtain ⟨rfl, rfl⟩ := parts
      exact ⟨a, ⟨rfl, rfl⟩, rfl⟩
    · intro parts
      obtain ⟨_, ⟨rfl, rfl⟩, rfl⟩ := parts
      exact ⟨rfl, rfl⟩

theorem UsesUp.congr {r : Reader α} {F G : Spelling α} (usesUp : UsesUp r F)
    (same : ∀ a us, F a us ↔ G a us) : UsesUp r G := by
  intro offset bytes a
  rw [usesUp offset bytes a, same]

namespace Follows

theorem congr {r : Reader α} {F G : Spelling α} (follows : Follows r F)
    (same : ∀ a us, F a us ↔ G a us) : Follows r G := by
  intro c a c'
  simp only [follows c a c', same]

/-- A reader may be followed up to a view of what it reads, when what comes next depends on no
more than that. -/
theorem bindView {r : Reader α} {view : α → β} {k : α → Reader γ} {F : Spelling β}
    {G : β → Spelling γ} (first : Follows (view <$> r) F) (next : ∀ a, Follows (k a) (G (view a))) :
    Follows (r >>= k) (F.andThen G) := by
  intro c b c'
  rw [bind_eq_ok]
  constructor
  · intro parts
    obtain ⟨a, middle, hr, hk⟩ := parts
    obtain ⟨u, hu, hbytes, hoffset⟩ := (first c (view a) middle).1 (map_eq_ok.2 ⟨a, hr, rfl⟩)
    obtain ⟨v, hv, hbytes', hoffset'⟩ := (next a middle b c').1 hk
    refine ⟨u ++ v, ⟨view a, u, v, hu, hv, rfl⟩, ?_, ?_⟩
    · rw [hbytes, hbytes', List.append_assoc]
    · rw [hoffset', hoffset, List.length_append, Nat.add_assoc]
  · intro parts
    obtain ⟨_, ⟨x, u, v, hu, hv, rfl⟩, hbytes, hoffset⟩ := parts
    have read := (first c x ⟨c.offset + u.length, v ++ c'.bytes⟩).2
      ⟨u, hu, by rw [hbytes, List.append_assoc], rfl⟩
    obtain ⟨a, hr, rfl⟩ := map_eq_ok.1 read
    refine ⟨a, _, hr, (next a _ b c').2 ⟨v, hv, rfl, ?_⟩⟩
    rw [hoffset, List.length_append, Nat.add_assoc]

theorem bind {r : Reader α} {k : α → Reader β} {F : Spelling α} {G : α → Spelling β}
    (first : Follows r F) (next : ∀ a, Follows (k a) (G a)) : Follows (r >>= k) (F.andThen G) :=
  bindView (F := F) (G := G) (by simpa using first : Follows (id <$> r) F) next

theorem pure (a : α) : Follows (pure a) (nothing a) := by
  intro c b c'
  change Except.ok (a, c) = .ok (b, c') ↔ _
  obtain ⟨offset, bytes⟩ := c
  obtain ⟨offset', bytes'⟩ := c'
  simp only [Except.ok.injEq, Prod.mk.injEq, Cursor.mk.injEq, nothing]
  constructor
  · intro parts
    obtain ⟨rfl, rfl, rfl⟩ := parts
    exact ⟨[], ⟨rfl, rfl⟩, rfl, rfl⟩
  · intro parts
    obtain ⟨_, ⟨rfl, rfl⟩, rfl, rfl⟩ := parts
    exact ⟨rfl, rfl, rfl⟩

theorem failAt (place : Nat) (reason : Reason) :
    Follows (failAt (α := α) place reason) never := by
  intro c a c'
  simp [Reader.failAt, never]

theorem guarded {c : Prop} [Decidable c] {place : Nat} {reason : Reason} {r : Reader α}
    {F : Spelling α} (follows : Follows r F) :
    Follows (if c then Reader.failAt place reason else r) (fun a us => ¬c ∧ F a us) := by
  split
  · rename_i fails
    exact (failAt place reason).congr (by simp [never, fails])
  · rename_i holds
    exact follows.congr (by simp [holds])

theorem offset {k : Nat → Reader α} {F : Spelling α} (next : ∀ place, Follows (k place) F) :
    Follows (Reader.offset >>= k) F := by
  intro c a c'
  rw [bind_eq_ok]
  constructor
  · intro parts
    obtain ⟨_, _, here, hk⟩ := parts
    cases here
    exact (next _ c a c').1 hk
  · intro spelled
    exact ⟨_, _, rfl, (next _ c a c').2 spelled⟩

theorem after {r : Reader α} {F : Spelling α} {report : Journal → Journal}
    (follows : Follows r F) : Follows (after report r) F := by
  intro c a c'
  rw [← follows c a c', Reader.after]
  cases r c <;> simp

theorem orElse {r other : Reader α} {F : Spelling α} (follows : Follows r F)
    (fails : Follows other never) : Follows (orElse r other) F := by
  intro c a c'
  rw [← follows c a c', Reader.orElse]
  cases r c with
  | ok found => rfl
  | error f =>
    constructor
    · intro read
      obtain ⟨_, impossible, -⟩ := (fails c a c').1 read
      exact impossible.elim
    · intro read
      cases read

theorem expect (wanted : List UInt8) : Follows (expect wanted) (fun _ us => us = wanted) := by
  intro c a c'
  obtain ⟨place, bytes⟩ := c
  obtain ⟨place', bytes'⟩ := c'
  simp only [Reader.expect]
  constructor
  · intro read
    split at read
    · rename_i same
      cases read
      have whole := List.take_append_drop wanted.length bytes
      rw [same] at whole
      exact ⟨wanted, rfl, whole.symm, rfl⟩
    · cases read
  · intro spelled
    obtain ⟨_, rfl, rfl, rfl⟩ := spelled
    simp

theorem usesUp {r : Reader α} {F : Spelling α} (follows : Follows r F) : UsesUp r F := by
  intro offset bytes a
  constructor
  · intro parts
    obtain ⟨c', hr, hleft⟩ := parts
    obtain ⟨us, hus, hbytes, -⟩ := (follows _ _ _).1 hr
    rw [hleft, List.append_nil] at hbytes
    subst hbytes
    exact hus
  · intro spelled
    exact ⟨⟨offset + bytes.length, []⟩, (follows _ _ _).2 ⟨bytes, spelled, by simp, rfl⟩, rfl⟩

theorem wrapped {r : Reader α} {F : Spelling α} (follows : Follows r F) (f : α → β) :
    Follows (r >>= fun a => Pure.pure (f a)) (fun b us => ∃ a, F a us ∧ b = f a) :=
  (follows.bind fun a => Follows.pure (f a)).congr fun _ _ => andThen_nothing

theorem u8 : Follows u8 byte := by
  intro c b c'
  obtain ⟨place, bytes⟩ := c
  obtain ⟨place', bytes'⟩ := c'
  simp only [Reader.u8, byte]
  cases bytes with
  | nil => simp
  | cons a rest =>
    simp only [Except.ok.injEq, Prod.mk.injEq, Cursor.mk.injEq]
    constructor
    · intro parts
      obtain ⟨rfl, rfl, rfl⟩ := parts
      exact ⟨[a], rfl, rfl, rfl⟩
    · intro parts
      obtain ⟨_, rfl, hbytes, rfl⟩ := parts
      cases hbytes
      exact ⟨rfl, rfl, rfl⟩

theorem u16 : Follows u16 Spelling.u16 := by
  intro c n c'
  obtain ⟨place, bytes⟩ := c
  obtain ⟨place', bytes'⟩ := c'
  simp only [Reader.u16, Spelling.u16]
  match bytes with
  | [] | [_] => simp [Bytes.ofU16]
  | a :: b :: rest =>
    simp only [Except.ok.injEq, Prod.mk.injEq, Cursor.mk.injEq]
    constructor
    · intro parts
      obtain ⟨rfl, rfl, rfl⟩ := parts
      exact ⟨[a, b], (Bytes.ofU16_toU16 a b).symm, rfl, rfl⟩
    · intro parts
      obtain ⟨_, rfl, hbytes, rfl⟩ := parts
      cases hbytes
      exact ⟨Bytes.toU16_ofU16 n, rfl, rfl⟩

theorem u32 : Follows u32 Spelling.u32 := by
  intro c n c'
  obtain ⟨place, bytes⟩ := c
  obtain ⟨place', bytes'⟩ := c'
  simp only [Reader.u32, Spelling.u32]
  match bytes with
  | [] | [_] | [_, _] | [_, _, _] => simp [Bytes.ofU32]
  | a :: b :: d :: e :: rest =>
    simp only [Except.ok.injEq, Prod.mk.injEq, Cursor.mk.injEq]
    constructor
    · intro parts
      obtain ⟨rfl, rfl, rfl⟩ := parts
      exact ⟨[a, b, d, e], (Bytes.ofU32_toU32 a b d e).symm, rfl, rfl⟩
    · intro parts
      obtain ⟨_, rfl, hbytes, rfl⟩ := parts
      cases hbytes
      exact ⟨Bytes.toU32_ofU32 n, rfl, rfl⟩

theorem take (n : Nat) : Follows (take n) (raw n) := by
  intro c taken c'
  obtain ⟨place, bytes⟩ := c
  obtain ⟨place', bytes'⟩ := c'
  simp only [Reader.take, raw]
  constructor
  · intro h
    split at h
    · rename_i long
      simp only [Except.ok.injEq, Prod.mk.injEq, Cursor.mk.injEq] at h
      obtain ⟨rfl, rfl, rfl⟩ := h
      exact ⟨_, ⟨rfl, long⟩, (List.take_append_drop n bytes).symm, by rw [long]⟩
    · cases h
  · intro parts
    obtain ⟨_, ⟨rfl, rfl⟩, rfl, rfl⟩ := parts
    simp

theorem many_go_succ_eq_ok {r : Reader α} {report : Journal → α → Journal} {n : Nat}
    {read : List α} {c : Cursor} {x : List α × Cursor} :
    many.go r report (n + 1) read c = .ok x ↔
      (r >>= fun a => many.go r report n (a :: read)) c = .ok x := by
  rw [bind_eq_ok, many.go]
  cases h : r c with
  | error f => simp [h]
  | ok y =>
    obtain ⟨a, left⟩ := y
    simp only [h, Except.ok.injEq, Prod.mk.injEq]
    constructor
    · intro hgo
      exact ⟨a, left, ⟨rfl, rfl⟩, hgo⟩
    · intro parts
      obtain ⟨_, _, ⟨rfl, rfl⟩, hgo⟩ := parts
      exact hgo

theorem many_go {r : Reader α} {F : Spelling α} (follows : Follows r F)
    (report : Journal → α → Journal) (n : Nat) (read : List α) :
    Follows (many.go r report n read)
      (fun xs us => ∃ new, xs = read.reverse ++ new ∧ new.length = n ∧ all F new us) := by
  induction n generalizing read with
  | zero =>
    refine (Follows.pure _).congr fun xs us => ?_
    simp only [nothing, List.length_eq_zero_iff]
    constructor
    · intro parts
      obtain ⟨rfl, rfl⟩ := parts
      exact ⟨[], by simp, rfl, rfl⟩
    · intro parts
      obtain ⟨_, rfl, rfl, rfl⟩ := parts
      exact ⟨by simp, rfl⟩
  | succ n ih =>
    intro c xs c'
    rw [many_go_succ_eq_ok, bind follows (fun a => ih (a :: read)) c xs c']
    refine exists_congr fun us => and_congr_left fun _ => ?_
    constructor
    · intro parts
      obtain ⟨a, u, v, hu, ⟨new, rfl, hn, hv⟩, rfl⟩ := parts
      exact ⟨a :: new, by simp, by simp [hn], u, v, hu, hv, rfl⟩
    · intro parts
      obtain ⟨new, rfl, hn, hnew⟩ := parts
      obtain - | ⟨a, rest⟩ := new
      · cases hn
      · obtain ⟨u, v, hu, hv, rfl⟩ := hnew
        exact ⟨a, u, v, hu, ⟨rest, by simp, by simpa using hn, hv⟩, rfl⟩

theorem many {r : Reader α} {F : Spelling α} (follows : Follows r F)
    (report : Journal → α → Journal) (n : Nat) :
    Follows (many r report n) (fun xs us => xs.length = n ∧ all F xs us) := by
  refine (many_go follows report n []).congr fun xs us => ?_
  constructor
  · intro parts
    obtain ⟨new, rfl, hn, hnew⟩ := parts
    exact ⟨hn, hnew⟩
  · intro parts
    obtain ⟨hn, hxs⟩ := parts
    exact ⟨xs, rfl, hn, hxs⟩

theorem times {r : Reader α} {F : Spelling α} (follows : Follows r F) (n : Nat) :
    Follows (times r n) (fun xs us => xs.length = n ∧ all F xs us) :=
  many follows _ n

end Follows
end Reader
end ClassForge
