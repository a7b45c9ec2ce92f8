import ClassForge.Proofs.Outcome
import ClassForge.Proofs.Pool.Changes

namespace ClassForge.Pool

variable {α β : Type} {p q : Pool}

theorem Extends.get?_eq (extends_ : q.Extends p) {i : Index} (inside : i.toNat ≤ p.size) :
    q.get? i = p.get? i := by
  rw [size_eq_length] at inside
  obtain ⟨new, slots⟩ := extends_
  rw [Pool.get?, Pool.get?]
  cases h : i.toNat with
  | zero => rfl
  | succ n =>
    rw [slots_get?_succ, slots_get?_succ, ← slots, List.getElem?_append_left (by omega)]

theorem First.extend {e : Entry} {i : Index} (first : p.First e i) (extends_ : q.Extends p) :
    q.First e i := by
  obtain ⟨holds, least⟩ := first
  refine ⟨extends_.get? holds, fun j again => ?_⟩
  by_cases inside : j.toNat ≤ p.size
  · rw [extends_.get?_eq inside] at again
    exact least j again
  · have bound := (toNat_le_size holds).2
    rw [UInt16.le_iff_toNat_le]
    omega

theorem Extends.truncate (extends_ : q.Extends p) {n : Nat} (above : p.size ≤ n) :
    (q.truncate n).Extends p := by
  rw [Pool.truncate]
  split
  · exact extends_
  · rw [size_eq_length] at above
    change p.slots.toList <+: (q.slots.items.take n).toList
    rw [Array.take_eq_extract, Array.toList_extract, List.extract_eq_take_drop, List.drop_zero,
      Nat.sub_zero]
    exact List.prefix_take_iff.2 ⟨extends_, above⟩

def standing : Discipline Pool where
  Holds := Agreeing
  Onward p q := q.Extends p
  refl := Extends.refl
  trans := Extends.trans

/-- All pools that begin with these slots give this, and are left as they are. -/
def Lasts (m : PoolM α) (a : α) (p : Pool) : Prop :=
  ∀ q, q.Agreeing → q.Extends p → m q = .ok a q

namespace Lasts

variable {m : PoolM α} {k : α → PoolM β} {a : α} {b : β}

theorem mono (lasts : Lasts m a p) (extends_ : q.Extends p) : Lasts m a q :=
  fun r agreeing further => lasts r agreeing (extends_.trans further)

theorem bind (first : Lasts m a p) (next : Lasts (k a) b p) : Lasts (m >>= k) b p := by
  intro q agreeing extends_
  rw [Outcome.bind_of_ok (first q agreeing extends_)]
  exact next q agreeing extends_

theorem intern {e : Entry} {i : Index} (agreeing : p.Agreeing) (found : p.find? e = some i) :
    Lasts (intern e) i p := by
  intro q agreeing' extends_
  have first := (agreeing.indexed e i).1 found
  exact intern_of_present ((agreeing'.indexed e i).2 (first.extend extends_))

end Lasts

section Requests

open Discipline

theorem standing_intern (e : Entry) : standing.Ensures (intern e) p
    (fun i q => q.get? i = some e ∧ Lasts (intern e) i q) := by
  constructor
  intro agreeing
  have agreeing' := Agreeing.intern agreeing e
  unfold left at agreeing'
  cases h : p.find? e with
  | some i =>
    rw [intern_of_present h]
    exact ⟨agreeing, .refl p, ((agreeing.indexed e i).1 h).1, .intern agreeing h⟩
  | none =>
    have absent := intern_of_absent h
    split at absent
    · obtain ⟨i, q, done, -, -, slots, found, -⟩ := absent
      have grown : q.Extends p := ⟨e.slots, slots.symm⟩
      rw [done] at agreeing' ⊢
      exact ⟨agreeing', grown, ((agreeing'.indexed e i).1 found).1, .intern agreeing' found⟩
    · rw [absent]
      exact ⟨agreeing, .refl p⟩

theorem standing_utf8 (text : String) : standing.Ensures (utf8 text) p
    (fun i q => q.utf8At? i = some text ∧ Lasts (utf8 text) i q) := by
  unfold utf8
  dsimp only
  split
  · exact Ensures.throw _
  · exact (standing_intern _).mono fun i q _ _ given => ⟨utf8At?_of_get? given.1, given.2⟩

theorem standing_classRef (name : String) : standing.Ensures (classRef name) p
    (fun i q => q.classNameAt? i = some (internalName name) ∧ Lasts (classRef name) i q) := by
  unfold classRef
  refine (standing_utf8 (internalName name)).bind fun n q _ _ named => ?_
  refine (standing_intern _).mono fun i r _ onward given => ⟨?_, ?_⟩
  · rw [classNameAt?, given.1]
    exact Extends.utf8At? onward named.1
  · exact (named.2.mono onward).bind given.2

theorem standing_string (value : String) : standing.Ensures (string value) p
    (fun i q => q.literalAt? i = some (.string value) ∧ Lasts (string value) i q) := by
  unfold string
  refine (standing_utf8 value).bind fun t q _ _ text => ?_
  refine (standing_intern _).mono fun i r _ onward given => ⟨?_, ?_⟩
  · simp only [literalAt?, given.1, Extends.utf8At? onward text.1, Option.map_some]
  · exact (text.2.mono onward).bind given.2

theorem standing_literal (l : Literal) : standing.Ensures (literal l) p
    (fun i q => q.literalAt? i = some l ∧ Lasts (literal l) i q) := by
  cases l with
  | string value => exact standing_string value
  | int v | float bits | long v | double bits =>
    refine (standing_intern _).mono fun i q _ _ given => ⟨?_, given.2⟩
    simp [literalAt?, given.1, joinHalves_halves]

theorem standing_nameAndType (name descriptor : String) :
    standing.Ensures (nameAndType name descriptor) p
      (fun i q => q.nameAndTypeAt? i = some (name, descriptor) ∧
        Lasts (nameAndType name descriptor) i q) := by
  unfold nameAndType
  refine (standing_utf8 name).bind fun n q _ _ named => ?_
  refine (standing_utf8 descriptor).bind fun d r _ onward typed => ?_
  refine (standing_intern _).mono fun i s _ further given => ⟨?_, ?_⟩
  · have named' := Extends.utf8At? (onward.trans further) named.1
    simp only [nameAndTypeAt?, given.1, named', Extends.utf8At? further typed.1,
      Option.bind_eq_bind, Option.bind_some, Option.pure_def]
  · exact (named.2.mono (onward.trans further)).bind ((typed.2.mono further).bind given.2)

theorem standing_member (kind : MemberKind) (owner name descriptor : String) :
    standing.Ensures (member kind owner name descriptor) p
      (fun i q => (q.tagAt? i = some (.member kind) ∧
        q.memberAt? i = some ⟨internalName owner, name, descriptor⟩) ∧
        Lasts (member kind owner name descriptor) i q) := by
  unfold member
  refine (standing_classRef owner).bind fun c q _ _ owned => ?_
  refine (standing_nameAndType name descriptor).bind fun nt r _ onward typed => ?_
  refine (standing_intern _).mono fun i s _ further given => ⟨⟨?_, ?_⟩, ?_⟩
  · rw [tagAt?, given.1]
    rfl
  · have owned' := Extends.classNameAt? (onward.trans further) owned.1
    simp only [memberAt?, given.1, owned', Extends.nameAndTypeAt? further typed.1,
      Option.bind_eq_bind, Option.bind_some, Option.pure_def]
  · exact (owned.2.mono (onward.trans further)).bind ((typed.2.mono further).bind given.2)

theorem standing_methodType (descriptor : String) : standing.Ensures (methodType descriptor) p
    (fun i q => (∃ t, q.get? i = some (.methodType t) ∧ q.utf8At? t = some descriptor) ∧
      Lasts (methodType descriptor) i q) := by
  unfold methodType
  refine (standing_utf8 descriptor).bind fun t q _ _ typed => ?_
  refine (standing_intern _).mono fun i r _ onward given => ⟨⟨t, given.1, ?_⟩, ?_⟩
  · exact Extends.utf8At? onward typed.1
  · exact (typed.2.mono onward).bind given.2

theorem standing_methodHandle (kind : ReferenceKind) (target : Index) :
    standing.Ensures (methodHandle kind target) p
      (fun i q => q.get? i = some (.methodHandle kind target) ∧
        Lasts (methodHandle kind target) i q) := by
  unfold methodHandle
  refine Ensures.get.bind fun here q _ _ same => ?_
  obtain ⟨rfl, rfl⟩ := same
  dsimp only
  split
  · rename_i fits
    refine (standing_intern _).mono fun i r _ onward given => ?_
    refine ⟨given.1, fun s agreeing further => ?_⟩
    have fits' : (s.tagAt? target).any (kind.targets.contains ·) = true := by
      rw [tagAt?, Option.any_map, Option.any_eq_true] at fits ⊢
      obtain ⟨e, holds, accepted⟩ := fits
      exact ⟨e, (Extends.trans onward further).get? holds, accepted⟩
    change (if (s.tagAt? target).any (kind.targets.contains ·) = true then
      intern (.methodHandle kind target) else throw _) s = _
    rw [if_pos fits']
    exact given.2 s agreeing further
  · exact Ensures.throw _

end Requests

def Request.Reads (p : Pool) (i : Index) : Request → Prop
  | .utf8 text => p.utf8At? i = some text
  | .classRef name => p.classNameAt? i = some (internalName name)
  | .literal value => p.literalAt? i = some value
  | .nameAndType name descriptor => p.nameAndTypeAt? i = some (name, descriptor)
  | .member kind owner name descriptor =>
    p.tagAt? i = some (.member kind) ∧
      p.memberAt? i = some ⟨internalName owner, name, descriptor⟩
  | .methodType descriptor =>
    ∃ t, p.get? i = some (.methodType t) ∧ p.utf8At? t = some descriptor
  | .methodHandle kind target => p.get? i = some (.methodHandle kind target)

theorem standing_answer (r : Request) :
    standing.Ensures r.answer p (fun i q => r.Reads q i ∧ Lasts r.answer i q) := by
  cases r with
  | utf8 text => exact standing_utf8 text
  | classRef name => exact standing_classRef name
  | literal value => exact standing_literal value
  | nameAndType name descriptor => exact standing_nameAndType name descriptor
  | member kind owner name descriptor => exact standing_member kind owner name descriptor
  | methodType descriptor => exact standing_methodType descriptor
  | methodHandle kind target => exact standing_methodHandle kind target

theorem Extends.after (extends_ : q.Extends p) (changes : List Change)
    (above : ∀ n, Change.truncate n ∈ changes → p.size ≤ n) : (q.after changes).Extends p :=
  preserves_after (P := fun r => r.Extends p) changes extends_
    (fun r e _ _ before => before.trans (extends_append r e))
    fun _ n cut before => before.truncate (above n cut)

/-- What a request gave leads to what was asked for, and the request gives it again without adding
anything, after all changes that do not cut off slots there were when it was given. -/
theorem answers_last {slots : Nat} (reached : Reached slots p) (few : slots ≤ 65535) {r : Request}
    {i : Index} (given : r.answer p = .ok i q) (changes : List Change)
    (above : ∀ n, Change.truncate n ∈ changes → q.size ≤ n) :
    r.Reads (q.after changes) i ∧ r.answer (q.after changes) = .ok i (q.after changes) := by
  have start := (standing_answer r).of_eq_ok (reached.agreeing few) given
  obtain ⟨agreeing, -, -, lasts⟩ := start
  have later := lasts (q.after changes) (agreeing.after changes)
    ((Extends.refl q).after changes above)
  -- The request is run again where it adds nothing, so what it gives is read there.
  exact ⟨((standing_answer r).of_eq_ok (agreeing.after changes) later).2.2.1, later⟩

theorem answers_last_cut : ∃ i q, Request.answer (.classRef "a.B") {} = .ok i q ∧
    let later := q.after [.request (.literal (.long 5)), .request (.utf8 "x"), .truncate 3,
      .intern (.classRef 9), .truncate 2]
    later.classNameAt? i = some "a/B" ∧
      Request.answer (.classRef "a.B") later = .ok i later := by
  have runs : ((Request.answer (.classRef "a.B")).run' {}).any (fun i => i == 2) = true := by
    decide +kernel
  obtain ⟨i, q, given, -⟩ := Outcome.exists_of_any_run runs
  have size : (left (Request.answer (.classRef "a.B")) {}).size = 2 := by decide +kernel
  unfold left at size
  rw [given] at size
  obtain ⟨reads, again⟩ := answers_last .new (by decide) given [.request (.literal (.long 5)),
    .request (.utf8 "x"), .truncate 3, .intern (.classRef 9), .truncate 2] (by simp [size])
  have name : internalName "a.B" = "a/B" := by decide
  rw [Request.Reads, name] at reads
  exact ⟨i, q, given, reads, again⟩

end ClassForge.Pool
