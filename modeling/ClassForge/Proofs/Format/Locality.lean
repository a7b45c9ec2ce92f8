import ClassForge.Format.ReadClass
import ClassForge.Proofs.Format.Spelling

namespace ClassForge

def Cursor.stop (c : Cursor) : Nat := c.offset + c.bytes.length

def Cursor.followedBy (c : Cursor) (more : List UInt8) : Cursor := ⟨c.offset, c.bytes ++ more⟩

theorem Cursor.offset_le_stop (c : Cursor) : c.offset ≤ c.stop := Nat.le_add_right ..

/-- A reason that says what is wrong. -/
def Reason.Specific (reason : Reason) : Prop := ∀ mismatch, reason ≠ .unspecific mismatch

namespace Reader

variable {α β : Type}

/-- What a reader does at `c` is still `result` where more bytes follow, or `c` ends too soon. Its
faults are specific and inside the bytes. -/
def Stays (more : List UInt8) (c : Cursor) (result : Except Fault (α × Cursor)) :
    Except Fault (α × Cursor) → Prop :=
  match result with
  | .ok (a, left) => fun x =>
    c.offset ≤ left.offset ∧ left.stop = c.stop ∧ x = .ok (a, left.followedBy more)
  | .error f => fun x =>
    f.offset ≤ c.stop ∧ f.reason.Specific ∧ (f.reason ≠ .truncated → x = .error f)

theorem Stays.eof {more : List UInt8} {c : Cursor} {x : Except Fault (α × Cursor)} :
    Stays more c (.error ⟨c.offset, .ofMismatch .eof, #[]⟩) x :=
  ⟨c.offset_le_stop, nofun, fun whole => absurd rfl whole⟩

theorem Stays.bind {more : List UInt8} {c : Cursor} {r r' : Reader α} {k k' : α → Reader β}
    (first : Stays more c (r c) (r' (c.followedBy more)))
    (next : ∀ a left, c.offset ≤ left.offset → r c = .ok (a, left) →
      Stays more left (k a left) (k' a (left.followedBy more))) :
    Stays more c ((r >>= k) c) ((r' >>= k') (c.followedBy more)) := by
  change Stays more c (r c >>= fun y => k y.1 y.2)
    (r' (c.followedBy more) >>= fun y => k' y.1 y.2)
  cases read : r c with
  | error f =>
    rw [read] at first
    obtain ⟨bound, specific, same⟩ := first
    refine ⟨bound, specific, fun whole => ?_⟩
    rw [same whole]
    rfl
  | ok y =>
    obtain ⟨a, left⟩ := y
    rw [read] at first
    obtain ⟨forward, stop, same⟩ := first
    rw [same]
    have rest := next a left forward read
    change Stays more c (k a left) (k' a (left.followedBy more))
    cases read' : k a left with
    | error f =>
      rw [read'] at rest
      exact ⟨stop ▸ rest.1, rest.2⟩
    | ok y =>
      rw [read'] at rest
      obtain ⟨forward', stop', same'⟩ := rest
      exact ⟨Nat.le_trans forward forward', stop'.trans stop, same'⟩

/-- Behind the place `low`, the second reader does with more bytes what the first one does without
them. The readers differ only where one of them may go deeper. -/
def Local (more : List UInt8) (low : Nat) (r r' : Reader α) : Prop :=
  ∀ c : Cursor, low ≤ c.offset → Stays more c (r c) (r' (c.followedBy more))

namespace Local

variable {more : List UInt8} {low : Nat} {r r' : Reader α} {k k' : α → Reader β}

theorem mono {high : Nat} (steady : Local more low r r') (le : low ≤ high) :
    Local more high r r' := fun c inside => steady c (Nat.le_trans le inside)

theorem of_ok {c left : Cursor} {a : α} (steady : Local more low r r') (inside : low ≤ c.offset)
    (read : r c = .ok (a, left)) : c.offset ≤ left.offset ∧ left.stop = c.stop ∧
      r' (c.followedBy more) = .ok (a, left.followedBy more) := by
  have found := steady c inside
  rwa [read] at found

theorem of_error {c : Cursor} {f : Fault} (steady : Local more low r r') (inside : low ≤ c.offset)
    (failed : r c = .error f) : f.offset ≤ c.stop ∧ f.reason.Specific ∧
      (f.reason ≠ .truncated → r' (c.followedBy more) = .error f) := by
  have found := steady c inside
  rwa [failed] at found

theorem pure (a : α) : Local more low (pure a) (pure a) := fun _ _ => ⟨Nat.le_refl _, rfl, rfl⟩

theorem bind (first : Local more low r r') (next : ∀ a, Local more low (k a) (k' a)) :
    Local more low (r >>= k) (r' >>= k') :=
  fun c inside => (first c inside).bind fun a left forward _ =>
    next a left (Nat.le_trans inside forward)

theorem offset {k k' : Nat → Reader β}
    (next : ∀ start, low ≤ start → Local more start (k start) (k' start)) :
    Local more low (Reader.offset >>= k) (Reader.offset >>= k') :=
  fun c inside => next c.offset inside c (Nat.le_refl _)

theorem failAt {place : Nat} {reason : Reason} (behind : place ≤ low) (specific : reason.Specific) :
    Local more low (Reader.failAt (α := α) place reason) (Reader.failAt place reason) :=
  fun c inside => ⟨Nat.le_trans behind (Nat.le_trans inside c.offset_le_stop), specific,
    fun _ => rfl⟩

theorem guarded {c : Prop} [Decidable c] {place : Nat} {reason : Reason} (behind : place ≤ low)
    (specific : reason.Specific) (steady : Local more low r r') :
    Local more low (if c then Reader.failAt place reason else r)
      (if c then Reader.failAt place reason else r') := by
  split
  · exact failAt behind specific
  · exact steady

theorem after {report : Journal → Journal} (steady : Local more low r r') :
    Local more low (after report r) (after report r') := by
  intro c inside
  unfold Reader.after
  cases read : r c with
  | ok y =>
    obtain ⟨forward, stop, same⟩ := steady.of_ok inside read
    rw [same]
    exact ⟨forward, stop, rfl⟩
  | error f =>
    obtain ⟨bound, specific, same⟩ := steady.of_error inside read
    refine ⟨bound, specific, fun whole => ?_⟩
    rw [same whole]

theorem take (n : Nat) : Local more low (take n) (take n) := by
  intro c inside
  unfold Reader.take
  dsimp only [Cursor.followedBy]
  split
  · rename_i long
    have long : n ≤ c.bytes.length := by
      rw [List.length_take] at long
      omega
    rw [List.take_append_of_le_length long, List.drop_append_of_le_length long,
      if_pos (by rw [List.length_take, Nat.min_eq_left long])]
    refine ⟨Nat.le_add_right .., ?_, rfl⟩
    simp only [Cursor.stop, List.length_drop]
    omega
  · exact .eof

theorem u8 : Local more low u8 u8 := by
  intro c inside
  obtain ⟨place, bytes⟩ := c
  match bytes with
  | [] => exact .eof
  | a :: rest => exact ⟨Nat.le_add_right .., by simp [Cursor.stop]; omega, rfl⟩

theorem u16 : Local more low u16 u16 := by
  intro c inside
  obtain ⟨place, bytes⟩ := c
  match bytes with
  | [] | [_] => exact .eof
  | a :: b :: rest => exact ⟨Nat.le_add_right .., by simp [Cursor.stop]; omega, rfl⟩

theorem u32 : Local more low u32 u32 := by
  intro c inside
  obtain ⟨place, bytes⟩ := c
  match bytes with
  | [] | [_] | [_, _] | [_, _, _] => exact .eof
  | a :: b :: d :: e :: rest => exact ⟨Nat.le_add_right .., by simp [Cursor.stop]; omega, rfl⟩

theorem take_eq_ok {n : Nat} {c left : Cursor} {bytes : List UInt8}
    (read : Reader.take n c = .ok (bytes, left)) :
    bytes.length = n ∧ left.offset = c.offset + n := by
  unfold Reader.take at read
  dsimp only at read
  split at read
  · rename_i long
    cases read
    exact ⟨long, rfl⟩
  · cases read

theorem taken {n : Nat} {k k' : Nat → List UInt8 → Reader β}
    (next : ∀ start bytes, low ≤ start → bytes.length = n →
      Local more (start + n) (k start bytes) (k' start bytes)) :
    Local more low (do let start ← Reader.offset; let bytes ← Reader.take n; k start bytes)
      (do let start ← Reader.offset; let bytes ← Reader.take n; k' start bytes) := by
  intro c inside
  refine (take n c inside).bind fun bytes left forward read => ?_
  obtain ⟨length, same⟩ := take_eq_ok read
  exact next c.offset bytes inside length left (Nat.le_of_eq same.symm)

theorem many_go_succ (r : Reader α) (report : Journal → α → Journal) (n : Nat) (read : List α) :
    many.go r report (n + 1) read =
      Reader.after (fun j => read.foldr (fun a j => report j a) j) r >>= fun a =>
        many.go r report n (a :: read) := by
  funext c
  change _ = Reader.after _ r c >>= fun y => many.go r report n (y.1 :: read) y.2
  rw [many.go]
  dsimp only [Reader.after]
  cases r c <;> rfl

theorem many_go (steady : Local more low r r') (report : Journal → α → Journal) (n : Nat)
    (read : List α) : Local more low (many.go r report n read) (many.go r' report n read) := by
  induction n generalizing read with
  | zero => exact pure _
  | succ n ih =>
    rw [many_go_succ, many_go_succ]
    exact steady.after.bind fun a => ih (a :: read)

theorem many (steady : Local more low r r') (report : Journal → α → Journal) (n : Nat) :
    Local more low (many r report n) (many r' report n) := many_go steady report n []

theorem times (steady : Local more low r r') (n : Nat) :
    Local more low (times r n) (times r' n) := many steady _ n

theorem table (steady : Local more low r r') : Local more low (table r) (table r') :=
  u16.bind fun n => times steady n.toNat

theorem rest : Local [] low rest rest := fun c _ =>
  ⟨Nat.le_add_right .., rfl, by rw [Reader.rest, Cursor.followedBy, List.append_nil]; rfl⟩

variable (p : Pool)

theorem checkTag {place : Nat} (behind : place ≤ low) (i : Index) (tag : Tag) :
    Local more low (checkTag p place i tag) (checkTag p place i tag) := by
  unfold Reader.checkTag
  split
  · exact failAt behind nofun
  · split
    · exact pure ()
    · exact failAt behind nofun

theorem indexOf (tag : Tag) : Local more low (indexOf p tag) (indexOf p tag) :=
  offset fun _ _ => u16.bind fun i => (checkTag p (Nat.le_refl _) i tag).bind fun _ => pure i

theorem indexOrZero (tag : Tag) : Local more low (indexOrZero p tag) (indexOrZero p tag) := by
  refine offset fun start _ => u16.bind fun i => ?_
  split
  · exact pure i
  · exact (checkTag p (Nat.le_refl _) i tag).bind fun _ => pure i

theorem handler (length : Nat) : Local more low (handler p length) (handler p length) :=
  offset fun _ _ => u16.bind fun _ => u16.bind fun _ => u16.bind fun _ =>
    (indexOrZero p .classRef).bind fun _ => guarded (Nat.le_refl _) nofun (pure _)

theorem verificationType : Local more low (verificationType p) (verificationType p) := by
  refine offset fun start _ => u8.bind fun b => ?_
  split
  case h_8 => exact (indexOf p .classRef).bind fun _ => pure _
  case h_9 => exact u16.bind fun _ => pure _
  case h_10 => exact failAt (Nat.le_refl _) nofun
  all_goals exact pure _

theorem frame : Local more low (frame p) (frame p) := by
  refine offset fun start _ => u8.bind fun b => ?_
  split
  · exact pure _
  · exact (verificationType p).bind fun _ => pure _
  · exact u16.bind fun _ => (verificationType p).bind fun _ => pure _
  · exact u16.bind fun _ => pure _
  · exact u16.bind fun _ => pure _
  · rename_i first _
    refine u16.bind fun _ => ?_
    -- A difference of numbers is taken apart one by one when it is matched.
    generalize first.toNat - 251 = n
    exact (times (verificationType p) n).bind fun _ => pure _
  · exact u16.bind fun _ => u16.bind fun _ => (times (verificationType p) _).bind fun _ =>
      u16.bind fun _ => (times (verificationType p) _).bind fun _ => pure _
  · exact failAt (Nat.le_refl _) nofun

theorem lineNumber : Local more low lineNumber lineNumber :=
  u16.bind fun _ => u16.bind fun _ => pure _

theorem localVariable : Local more low (localVariable p) (localVariable p) :=
  u16.bind fun _ => u16.bind fun _ => (indexOf p .utf8).bind fun _ => (indexOf p .utf8).bind
    fun _ => u16.bind fun _ => pure _

theorem constantValue : Local more low (constantValue p) (constantValue p) := by
  refine offset fun start _ => u16.bind fun i => ?_
  split
  · exact failAt (Nat.le_refl _) nofun
  · split
    · exact pure i
    · exact failAt (Nat.le_refl _) nofun

variable {p} {one one' : Reader Attribute}

theorem attributesBy (each : Local more low one one') :
    Local more low (attributesBy p one) (attributesBy p one') :=
  u16.bind fun n => each.many _ n.toNat

theorem code (each : Local more low one one') : Local more low (code p one) (code p one') := by
  refine u16.bind fun _ => u16.bind fun _ => offset fun place behind => u32.bind fun length => ?_
  refine guarded (Nat.le_refl _) nofun ((take _).bind fun _ => ?_)
  exact (table (handler p _)).bind fun _ => ((attributesBy each).mono behind).bind fun _ => pure _

/-- The content of an attribute is all there is, so nothing follows it. -/
theorem content (each : Local [] low one one') (name : Index) (kind : Option Attribute.Kind) :
    Local [] low (content p one name kind) (content p one' name kind) := by
  match kind with
  | some .constantValue => exact (constantValue p).bind fun _ => pure _
  | some .code => exact (code each).bind fun _ => pure _
  | some .stackMap => exact (table (frame p)).bind fun _ => pure _
  | some .exceptions => exact (table (indexOf p .classRef)).bind fun _ => pure _
  | some .signature | some .sourceFile => exact (indexOf p .utf8).bind fun _ => pure _
  | some .lineNumbers => exact (table lineNumber).bind fun _ => pure _
  | some .localVariables => exact (table (localVariable p)).bind fun _ => pure _
  | some .synthetic | some .deprecated => exact pure _
  | none => exact rest.bind fun _ => pure _

theorem within {start : Nat} {bytes : List UInt8} (inner : Local [] start one one')
    (behind : start + bytes.length ≤ low) (name : List UInt8) :
    Local more low (within p name start bytes one) (within p name start bytes one') := by
  intro c inside
  have bound : start + bytes.length ≤ c.stop :=
    Nat.le_trans behind (Nat.le_trans inside c.offset_le_stop)
  unfold Reader.within
  cases read : one ⟨start, bytes⟩ with
  | error f =>
    obtain ⟨before, specific, same⟩ := inner.of_error (Nat.le_refl _) read
    rw [Cursor.followedBy, List.append_nil] at same
    refine ⟨Nat.le_trans before bound, specific, fun whole => ?_⟩
    rw [same whole]
  | ok y =>
    obtain ⟨a, place, rest⟩ := y
    obtain ⟨-, stop, same⟩ := inner.of_ok (Nat.le_refl _) read
    rw [Cursor.followedBy, Cursor.followedBy, List.append_nil, List.append_nil] at same
    rw [same]
    cases rest with
    | nil => exact ⟨Nat.le_refl _, rfl, rfl⟩
    | cons u rest =>
      have before : place ≤ start + bytes.length :=
        Nat.le_trans (Cursor.offset_le_stop ⟨place, u :: rest⟩) (Nat.le_of_eq stop)
      exact ⟨Nat.le_trans before bound, nofun, fun _ => rfl⟩

theorem nestedAttribute {depth depth' : Nat} (le : depth ≤ depth') :
    Local more low (nestedAttribute p depth) (nestedAttribute p depth') := by
  induction depth generalizing depth' more low with
  | zero => exact fun _ _ => .eof
  | succ depth ih =>
    obtain ⟨depth', rfl⟩ : ∃ n, depth' = n + 1 := ⟨depth' - 1, by omega⟩
    refine (indexOf p .utf8).bind fun name => u32.bind fun length =>
      taken fun start bytes _ count => ?_
    exact within (content (ih (Nat.le_of_succ_le_succ le)) name _) (Nat.le_of_eq (by rw [count])) _

theorem attributes : Local more low (attributes p) (attributes p) := fun c inside =>
  attributesBy (nestedAttribute (by simp [Cursor.followedBy])) c inside

theorem textBytes : Local more low textBytes textBytes := by
  refine u16.bind fun length => taken fun start bytes _ count => ?_
  split
  · rename_i i found
    have before := (List.findIdx?_eq_some_iff_getElem.1 found).1
    exact failAt (by omega) nofun
  · exact pure bytes

theorem referenceKind : Local more low referenceKind referenceKind := by
  refine offset fun start _ => u8.bind fun b => ?_
  split
  · exact pure _
  · exact failAt (Nat.le_refl _) nofun

theorem entry : Local more low entry entry := by
  refine offset fun start _ => u8.bind fun b => ?_
  split
  case h_9 => exact textBytes.bind fun _ => pure _
  case h_10 => exact referenceKind.bind fun _ => u16.bind fun _ => pure _
  case h_16 => exact failAt (Nat.le_refl _) nofun
  all_goals first
    | exact u16.bind fun _ => pure _
    | exact u32.bind fun _ => pure _
    | exact u16.bind fun _ => u16.bind fun _ => pure _
    | exact u32.bind fun _ => u32.bind fun _ => pure _

theorem entries_go (slots n : Nat) (read : PlacedSlots) :
    Local more low (entries.go slots n read) (entries.go slots n read) := by
  induction n, read using entries.go.induct generalizing low with
  | case1 read => exact pure _
  | case2 remaining read wide narrow =>
    rw [entries.go]
    refine offset fun start _ => entry.bind fun e => ?_
    split
    · cases remaining with
      | zero => exact failAt (Nat.le_refl _) nofun
      | succ remaining => exact wide start e
    · exact narrow start e

theorem places_le_of_go {slots n : Nat} {read placed : PlacedSlots} {c left : Cursor}
    (taken : entries.go slots n read c = .ok (placed, left)) (before : ∀ x ∈ read, x.1 ≤ c.offset) :
    ∀ x ∈ placed, x.1 ≤ left.offset := by
  induction n, read using entries.go.induct generalizing c with
  | case1 read =>
    cases taken
    simpa using before
  | case2 remaining read wide narrow =>
    rw [entries.go] at taken
    obtain ⟨start, c₁, here, rest⟩ := bind_eq_ok.1 taken
    cases here
    obtain ⟨e, c₂, first, rest⟩ := bind_eq_ok.1 rest
    have steady : Local [] 0 Reader.entry Reader.entry := entry
    obtain ⟨forward, -, -⟩ := steady.of_ok (Nat.zero_le _) first
    have before₃ : ∀ x ∈ (c.offset, some e) :: read, x.1 ≤ c₂.offset :=
      List.forall_mem_cons.2 ⟨forward, fun x inside => Nat.le_trans (before x inside) forward⟩
    split at rest
    · cases remaining with
      | zero => cases rest
      | succ remaining =>
        exact wide c.offset e rest (List.forall_mem_cons.2 ⟨forward, before₃⟩)
    · exact narrow c.offset e rest before₃

theorem pool : Local more low pool pool := by
  refine offset fun start _ => u16.bind fun count =>
    guarded (Nat.le_refl _) nofun fun c inside => ?_
  refine (entries_go _ _ _ c inside).bind fun placed left _ read => ?_
  have before := places_le_of_go read (by simp)
  cases broken : (Pool.ofSlots (placed.map (·.2))).brokenLink? with
  | none => exact pure _ left (Nat.le_refl _)
  | some link =>
    have specific : (linkReason link).Specific := by
      unfold linkReason
      split <;> exact nofun
    refine failAt ?_ specific left (Nat.le_refl _)
    rw [Array.getD_eq_getD_getElem?, List.getElem?_toArray, List.getElem?_map]
    cases found : placed[link.referrer.toNat - 1]? with
    | none => exact Nat.zero_le _
    | some x => exact before x (List.mem_of_getElem? found)

/-- Where the wanted bytes are not there, what stands in has to find that the bytes end too soon,
if they do. -/
theorem orElse_expect {wanted : List UInt8} {other : Reader Unit}
    (steady : Local more low other other)
    (short : ∀ c : Cursor, c.bytes.length < wanted.length →
      other c = .error ⟨c.offset, .ofMismatch .eof, #[]⟩) :
    Local more low (orElse (expect wanted) other) (orElse (expect wanted) other) := by
  intro c inside
  unfold Reader.orElse Reader.expect
  by_cases long : wanted.length ≤ c.bytes.length
  · have front : (c.followedBy more).bytes.take wanted.length = c.bytes.take wanted.length :=
      List.take_append_of_le_length long
    have back : (c.followedBy more).bytes.drop wanted.length = c.bytes.drop wanted.length ++ more :=
      List.drop_append_of_le_length long
    by_cases same : c.bytes.take wanted.length = wanted
    · simp only [front, back, if_pos same]
      refine ⟨Nat.le_add_right .., ?_, rfl⟩
      simp only [Cursor.stop, List.length_drop]
      omega
    · simp only [front, if_neg same]
      exact steady c inside
  · have fewer := Nat.lt_of_not_le long
    have missing : c.bytes.take wanted.length ≠ wanted := by
      intro same
      rw [← same, List.length_take] at fewer
      omega
    rw [if_neg missing, short c fewer]
    exact .eof

theorem magic : Local more low magic magic := by
  refine orElse_expect (offset fun _ _ => u32.bind fun _ => failAt (Nat.le_refl _) nofun)
    fun c short => ?_
  obtain ⟨place, bytes⟩ := c
  match bytes with
  | [] | [_] | [_, _] | [_, _, _] => rfl
  | _ :: _ :: _ :: _ :: _ =>
    simp only [Bytes.length_ofU32, List.length_cons] at short
    omega

theorem text (p : Pool) : Local more low (text p) (text p) := by
  refine offset fun start _ => (indexOf p .utf8).bind fun i => ?_
  split
  · exact pure _
  · exact failAt (Nat.le_refl _) nofun

theorem member (p : Pool) (accepts : String → Bool) :
    Local more low (member p accepts) (member p accepts) := by
  refine u16.bind fun access => (text p).bind fun name => offset fun start behind =>
    (text p).bind fun descriptor => ?_
  obtain ⟨descriptor, spelled⟩ := descriptor
  dsimp only
  split
  · exact attributes.bind fun _ => pure _
  · exact failAt (Nat.le_refl _) nofun

theorem members (p : Pool) (accepts : String → Bool) :
    Local more low (members p accepts) (members p accepts) :=
  u16.bind fun n => (member p accepts).many _ n.toNat

theorem classBody (minor major : UInt16) (p : Pool) :
    Local more low (classBody minor major p) (classBody minor major p) :=
  u16.bind fun _ => (indexOf p .classRef).bind fun _ => (indexOrZero p .classRef).bind fun _ =>
    (table (indexOf p .classRef)).bind fun _ => (members p acceptsField).bind fun _ =>
      ((members p acceptsMethod).bind fun _ => (attributes.bind fun _ => pure _).after).after

theorem classFile : Local more low classFile classFile := by
  refine magic.bind fun _ => offset fun start _ => u16.bind fun minor => u16.bind fun major => ?_
  exact guarded (Nat.le_refl _) nofun (pool.bind fun p => (classBody minor major p).after)

end Local
end Reader

namespace ClassFile

variable {bytes : List UInt8}

theorem parse_of_error {f : Fault} (failed : Reader.classFile ⟨0, bytes⟩ = .error f) :
    parse bytes = .error (.malformedClass f.offset f.reason) := by
  rw [parse, read, failed]

theorem parse_of_ok {c : ClassFile} {left : Cursor}
    (found : Reader.classFile ⟨0, bytes⟩ = .ok (c, left)) :
    parse bytes = if left.bytes = [] then .ok c else
      .error (.malformedClass left.offset (.trailingBytes left.bytes.length)) := by
  obtain ⟨place, rest⟩ := left
  rw [parse, read, found]
  cases rest with
  | nil => rfl
  | cons u rest => rfl

theorem classFile_of_parse {c : ClassFile} (accepted : parse bytes = .ok c) :
    Reader.classFile ⟨0, bytes⟩ = .ok (c, ⟨bytes.length, []⟩) := by
  cases found : Reader.classFile ⟨0, bytes⟩ with
  | error f =>
    rw [parse_of_error found] at accepted
    cases accepted
  | ok y =>
    obtain ⟨c', left⟩ := y
    rw [parse_of_ok found] at accepted
    split at accepted
    · rename_i used
      cases accepted
      have steady : Reader.Local [] 0 Reader.classFile Reader.classFile := .classFile
      obtain ⟨-, stop, -⟩ := steady.of_ok (Nat.le_refl 0) found
      obtain ⟨place, rest⟩ := left
      cases used
      have ends : place = bytes.length := by simpa [Cursor.stop] using stop
      rw [ends]
    · cases accepted

theorem parse_take {c : ClassFile} (accepted : parse bytes = .ok c) {n : Nat}
    (short : n < bytes.length) : ∃ offset ≤ n,
      parse (bytes.take n) = .error (.malformedClass offset .truncated) := by
  have whole := classFile_of_parse accepted
  have parts : (⟨0, bytes⟩ : Cursor) = Cursor.followedBy ⟨0, bytes.take n⟩ (bytes.drop n) := by
    rw [Cursor.followedBy, List.take_append_drop]
  rw [parts] at whole
  cases found : Reader.classFile ⟨0, bytes.take n⟩ with
  | ok y =>
    -- More bytes than were read cannot be read to their end.
    obtain ⟨-, -, same⟩ := Reader.Local.classFile.of_ok (Nat.le_refl 0) found
    rw [same] at whole
    have behind := congrArg Cursor.bytes (Prod.mk.inj (Except.ok.inj whole)).2
    simp [Cursor.followedBy] at behind
    omega
  | error f =>
    obtain ⟨bound, -, same⟩ := Reader.Local.classFile.of_error (Nat.le_refl 0) found
    by_cases early : f.reason = .truncated
    · rw [Cursor.stop, Nat.zero_add, List.length_take] at bound
      exact ⟨f.offset, by omega, by rw [parse_of_error found, early]⟩
    · rw [same early] at whole
      cases whole

theorem parse_append {c : ClassFile} (accepted : parse bytes = .ok c) {more : List UInt8}
    (longer : more ≠ []) : parse (bytes ++ more) =
      .error (.malformedClass bytes.length (.trailingBytes more.length)) := by
  obtain ⟨-, -, same⟩ := Reader.Local.classFile.of_ok (Nat.le_refl 0) (classFile_of_parse accepted)
  exact (parse_of_ok same).trans (if_neg longer)

theorem parse_append_of_error {e : Error} (rejected : parse bytes = .error e) :
    ∃ offset reason, e = .malformedClass offset reason ∧ offset ≤ bytes.length ∧ reason.Specific ∧
      (reason ≠ .truncated → (∀ n, reason ≠ .trailingBytes n) →
        ∀ more, parse (bytes ++ more) = .error (.malformedClass offset reason)) := by
  cases found : Reader.classFile ⟨0, bytes⟩ with
  | error f =>
    rw [parse_of_error found] at rejected
    cases rejected
    have steady (more : List UInt8) : Reader.Local more 0 Reader.classFile Reader.classFile :=
      .classFile
    obtain ⟨bound, specific, -⟩ := (steady []).of_error (Nat.le_refl 0) found
    rw [Cursor.stop, Nat.zero_add] at bound
    exact ⟨f.offset, f.reason, rfl, bound, specific, fun whole _ more =>
      parse_of_error (((steady more).of_error (Nat.le_refl 0) found).2.2 whole)⟩
  | ok y =>
    obtain ⟨c, left⟩ := y
    rw [parse_of_ok found] at rejected
    split at rejected
    · cases rejected
    · cases rejected
      have steady : Reader.Local [] 0 Reader.classFile Reader.classFile := .classFile
      obtain ⟨-, stop, -⟩ := steady.of_ok (Nat.le_refl 0) found
      have bound := left.offset_le_stop
      rw [stop, Cursor.stop, Nat.zero_add] at bound
      exact ⟨_, _, rfl, bound, nofun, fun _ other => absurd rfl (other _)⟩

/-- Bytes that are accepted end too soon when they are cut short, and go on too long when more
follow. Of others it is told where and why they are rejected, and unless they end too soon or go on
too long, they are rejected there and for that whatever follows. -/
theorem parse_local (bytes : List UInt8) :
    (∀ c, parse bytes = .ok c →
      (∀ n < bytes.length, ∃ offset ≤ n,
        parse (bytes.take n) = .error (.malformedClass offset .truncated)) ∧
      ∀ more ≠ [], parse (bytes ++ more) =
        .error (.malformedClass bytes.length (.trailingBytes more.length))) ∧
    ∀ e, parse bytes = .error e → ∃ offset reason, e = .malformedClass offset reason ∧
      offset ≤ bytes.length ∧ reason.Specific ∧
      (reason ≠ .truncated → (∀ n, reason ≠ .trailingBytes n) →
        ∀ more, parse (bytes ++ more) = .error (.malformedClass offset reason)) :=
  ⟨fun _ accepted => ⟨fun _ short => parse_take accepted short, fun _ longer =>
    parse_append accepted longer⟩, fun _ rejected => parse_append_of_error rejected⟩

/-- A class that has nothing but a name. -/
def nameOnly : List UInt8 := [0xCA, 0xFE, 0xBA, 0xBE, 0, 0, 0, 49, 0, 3, 7, 0, 2, 1, 0, 1, 0x41,
  0, 0x21, 0, 1, 0, 0, 0, 0, 0, 0, 0, 0, 0, 0]

theorem parse_local_nameOnly : (∃ c, parse nameOnly = .ok c) ∧
    (∃ offset ≤ 16, parse (nameOnly.take 16) = .error (.malformedClass offset .truncated)) ∧
    parse (nameOnly ++ [1, 2]) = .error (.malformedClass 31 (.trailingBytes 2)) ∧
    parse ([0xCA, 0xFE, 0xD0, 0x0D] ++ [1, 2]) =
      .error (.malformedClass 0 (.badMagic 0xCAFED00D)) := by
  have read : (parse nameOnly).isOk = true := by decide +kernel
  have other : parse [0xCA, 0xFE, 0xD0, 0x0D] =
      .error (.malformedClass 0 (.badMagic 0xCAFED00D)) := rfl
  cases accepted : parse nameOnly with
  | error e =>
    rw [accepted] at read
    cases read
  | ok c =>
    obtain ⟨early, late⟩ := (parse_local nameOnly).1 c accepted
    obtain ⟨offset, reason, same, -, -, stays⟩ := (parse_local _).2 _ other
    cases same
    exact ⟨⟨c, rfl⟩, early 16 (by decide), late [1, 2] nofun, stays nofun nofun [1, 2]⟩

end ClassFile
end ClassForge
