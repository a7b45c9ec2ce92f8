import ClassForge.Proofs.Code.Attached
import ClassForge.Proofs.Code.Recording

namespace ClassForge

namespace Item

def line? : Item → Option UInt16
  | .line n => some n
  | _ => none

/-- The source line in effect behind the items: the one that was given last. -/
def lastLine? (items : List Item) : Option UInt16 := (items.filterMap line?).getLast?

def linesFrom : Nat → List Item → List (Nat × UInt16)
  | _, [] => []
  | n, .instruction _ :: rest => linesFrom (n + 1) rest
  | n, .place _ :: rest => linesFrom n rest
  | n, .line k :: rest => (n, k) :: linesFrom n rest

theorem linesFrom_append (n : Nat) (before after : List Item) :
    linesFrom n (before ++ after) =
      linesFrom n before ++ linesFrom (n + (emitted before).length) after := by
  induction before generalizing n with
  | nil => rfl
  | cons item rest ih =>
    cases item with
    | instruction i =>
      have count : n + 1 + (emitted rest).length = n + (emitted rest).length.succ := by omega
      exact (ih (n + 1)).trans (by rw [count]; rfl)
    | place label => exact ih n
    | line k => exact congrArg _ (ih n)

theorem map_linesFrom (n : Nat) (items : List Item) :
    (linesFrom n items).map (·.2) = items.filterMap line? := by
  induction items generalizing n with
  | nil => rfl
  | cons item rest ih =>
    cases item with
    | instruction i => exact ih (n + 1)
    | place label => exact ih n
    | line k => exact congrArg _ (ih n)

theorem bounds_of_mem_linesFrom {n : Nat} {items : List Item} {line : Nat × UInt16}
    (inside : line ∈ linesFrom n items) : n ≤ line.1 ∧ line.1 ≤ n + (emitted items).length := by
  induction items generalizing n with
  | nil => cases inside
  | cons item rest ih =>
    cases item with
    | instruction i =>
      have bounds := ih inside
      have count : (emitted (.instruction i :: rest)).length = (emitted rest).length + 1 := rfl
      omega
    | place label => exact ih inside
    | line k =>
      rcases List.mem_cons.1 inside with rfl | inside
      · exact ⟨Nat.le_refl _, Nat.le_add_right ..⟩
      · exact ih inside

theorem lastLine?_eq_none_iff {items : List Item} :
    lastLine? items = none ↔ ∀ n, Item.line n ∉ items := by
  rw [lastLine?, List.getLast?_eq_none_iff, List.filterMap_eq_nil_iff]
  constructor
  · intro silent n inside
    cases silent _ inside
  · intro absent item inside
    cases item with
    | line n => exact absurd inside (absent n)
    | _ => rfl

theorem exists_marks_of_mem {before after : List Item} {label : Label}
    (inside : Item.place label ∈ before) :
    ∃ i ≤ (emitted before).length, Marks (before ++ after) label i := by
  obtain ⟨first, rest, rfl⟩ := List.append_of_mem inside
  refine ⟨(emitted first).length, ?_, first, ?_, rfl⟩
  · rw [emitted_append, List.length_append]
    exact Nat.le_add_right ..
  · exact ⟨rest ++ after, by simp⟩

theorem exists_marks_of_mem_right {before after : List Item} {label : Label}
    (inside : Item.place label ∈ after) :
    ∃ i, (emitted before).length ≤ i ∧ Marks (before ++ after) label i := by
  obtain ⟨first, rest, rfl⟩ := List.append_of_mem inside
  refine ⟨(emitted (before ++ first)).length, ?_, before ++ first, ⟨rest, by simp⟩, rfl⟩
  rw [emitted_append, List.length_append]
  exact Nat.le_add_right ..

theorem Marks.mem_or_mem {before after : List Item} {label : Label} {i : Nat}
    (marks : Marks (before ++ after) label i) :
    (Item.place label ∈ before ∧ i ≤ (emitted before).length) ∨
      (Item.place label ∈ after ∧ (emitted before).length ≤ i) := by
  obtain ⟨front, ⟨back, whole⟩, rfl⟩ := marks
  rw [List.append_assoc, List.singleton_append] at whole
  rcases List.append_eq_append_iff.1 whole with ⟨middle, rfl, split⟩ | ⟨middle, rfl, rfl⟩
  · cases middle with
    | nil =>
      refine .inr ⟨?_, ?_⟩
      · rw [← List.nil_append after, ← split]
        exact List.mem_cons_self
      · exact Nat.le_of_eq (by rw [List.append_nil])
    | cons item middle =>
      cases split
      refine .inl ⟨List.mem_append_right _ List.mem_cons_self, ?_⟩
      rw [emitted_append, List.length_append]
      exact Nat.le_add_right ..
  · refine .inr ⟨List.mem_append_right _ List.mem_cons_self, ?_⟩
    rw [emitted_append, List.length_append]
    exact Nat.le_add_right ..

end Item

namespace LineNumber

/-- Of the entries that start no later than `pc`, the one that starts last. -/
structure Governs (table : List LineNumber) (pc : Nat) (entry : LineNumber) : Prop where
  member : entry ∈ table
  reached : entry.start.toNat ≤ pc
  nearest : ∀ other ∈ table, other.start.toNat ≤ pc → other.start.toNat ≤ entry.start.toNat

end LineNumber

namespace Layout

open Item (emitted Marks linesFrom lastLine?)
open Outcome

variable {l l' : Layout} {items : List Item}

theorem lines_addItems {length : Nat} (done : l.addItems length items = .ok l') :
    l'.lines.toList = l.lines.toList ++ linesFrom l.size items := by
  induction items generalizing l length with
  | nil =>
    rw [addItems] at done
    cases done
    exact (List.append_nil _).symm
  | cons item rest ih =>
    cases item with
    | instruction i =>
      have lines := ih done
      rw [size, Array.size_push] at lines
      exact lines
    | place label =>
      rw [addItems] at done
      split at done
      · cases done
      · exact ih (l := { l with labels := l.labels.insert label.id l.instructions.size }) done
    | line k =>
      have lines := ih (l := { l with lines := l.lines.push (l.instructions.size, k) }) done
      rw [Array.toList_push, List.append_assoc] at lines
      exact lines

theorem lines_ofItems (done : ofItems items = .ok l) : l.lines.toList = linesFrom 0 items := by
  rw [ofItems, bind_eq_ok] at done
  obtain ⟨l', added, checked⟩ := done
  rw [guard_eq_ok, guard_eq_ok] at checked
  cases checked.2.2
  exact lines_addItems added

theorem head?_addLine {i : Nat} {n : UInt16} {table : List LineNumber} (inside : i < l.size) :
    (lineTable.addLine l table (i, n)).head?.map (·.line) = some n := by
  rw [lineTable.addLine, if_neg (Nat.not_le.2 inside)]
  cases table with
  | nil => rfl
  | cons last rest =>
    dsimp only
    split <;> rfl

theorem head?_foldl_addLine {lines : List (Nat × UInt16)}
    (inside : ∀ line ∈ lines, line.1 < l.size) :
    (lines.foldl (lineTable.addLine l) []).head?.map (·.line) =
      (lines.map (·.2)).getLast? := by
  rcases List.eq_nil_or_concat' lines with rfl | ⟨front, line, rfl⟩
  · rfl
  · rw [List.foldl_concat, List.map_append, List.map_singleton, List.getLast?_concat]
    exact head?_addLine (inside line (by simp))

theorem Places.addLine_behind (places : l.Places items) (short : l.length ≤ 65535) {k i : Nat}
    {n : UInt16} {front table : List LineNumber} (behind : k < i)
    (reached : ∀ entry ∈ table, entry.start.toNat ≤ l.offset k)
    (past : ∀ entry ∈ front, l.offset k < entry.start.toNat) :
    ∃ front', lineTable.addLine l (front ++ table) (i, n) = front' ++ table ∧
      ∀ entry ∈ front', l.offset k < entry.start.toNat := by
  rw [lineTable.addLine]
  split
  · exact ⟨front, rfl, past⟩
  rename_i inside
  have inside : i < l.size := Nat.not_le.1 inside
  have more := places.offset_lt behind (Nat.le_of_lt inside)
  have start : (UInt16.ofNat (l.offset i)).toNat = l.offset i := by
    have below := places.offset_lt inside (Nat.le_refl _)
    rw [Layout.length] at short
    rw [UInt16.toNat_ofNat']
    omega
  have here : l.offset k < (UInt16.ofNat (l.offset i)).toNat := by
    rw [start]
    exact more
  dsimp only
  cases front with
  | nil =>
    refine ⟨[⟨UInt16.ofNat (l.offset i), n⟩], ?_, by simpa using here⟩
    cases table with
    | nil => rfl
    | cons last rest =>
      have apart : last.start ≠ UInt16.ofNat (l.offset i) := by
        intro same
        have early := reached last List.mem_cons_self
        rw [same] at early
        omega
      rw [List.nil_append]
      exact if_neg apart
  | cons last rest =>
    obtain ⟨-, others⟩ := List.forall_mem_cons.1 past
    rw [List.cons_append]
    dsimp only
    split
    · exact ⟨⟨_, n⟩ :: rest, rfl, List.forall_mem_cons.2 ⟨here, others⟩⟩
    · exact ⟨⟨_, n⟩ :: last :: rest, rfl, List.forall_mem_cons.2 ⟨here, past⟩⟩

theorem Places.foldl_addLine_behind (places : l.Places items) (short : l.length ≤ 65535) {k : Nat}
    {lines : List (Nat × UInt16)} {front table : List LineNumber}
    (behind : ∀ line ∈ lines, k < line.1)
    (reached : ∀ entry ∈ table, entry.start.toNat ≤ l.offset k)
    (past : ∀ entry ∈ front, l.offset k < entry.start.toNat) :
    ∃ front', lines.foldl (lineTable.addLine l) (front ++ table) = front' ++ table ∧
      ∀ entry ∈ front', l.offset k < entry.start.toNat := by
  induction lines generalizing front with
  | nil => exact ⟨front, rfl, past⟩
  | cons line rest ih =>
    obtain ⟨first, others⟩ := List.forall_mem_cons.1 behind
    obtain ⟨front', added, past'⟩ := places.addLine_behind short (n := line.2) first reached past
    rw [List.foldl_cons, added]
    exact ih others past'

/-- The entries for what comes behind an instruction start behind it. The others start no later
than the instruction, and the last of them has the line that was given last. -/
theorem lineTable_splits {before after : List Item} {instruction : Instruction}
    (done : ofItems (before ++ .instruction instruction :: after) = .ok l) :
    ∃ front table : List LineNumber, l.lineTable = (front ++ table).reverse ∧
      (∀ entry ∈ front, l.offset (emitted before).length < entry.start.toNat) ∧
      (∀ entry ∈ table, entry.start.toNat ≤ l.offset (emitted before).length) ∧
      table.Pairwise (·.start.toNat > ·.start.toNat) ∧
      table.head?.map (·.line) = lastLine? before := by
  obtain ⟨places, -, short⟩ := places_ofItems done
  have lines := lines_ofItems done
  have ordered := (inOrder_ofItems done).ordered
  have size := places.size_eq
  rw [Item.emitted_append, List.length_append] at size
  have one : 0 < (emitted (.instruction instruction :: after)).length := Nat.succ_pos _
  have here : (emitted before).length < l.size := by omega
  rw [Item.linesFrom_append, Nat.zero_add] at lines
  rw [lines, List.pairwise_append] at ordered
  have early : ∀ line ∈ linesFrom 0 before, line.1 ≤ (emitted before).length := by
    intro line inside
    have bounds := Item.bounds_of_mem_linesFrom inside
    omega
  have late : ∀ line ∈ linesFrom ((emitted before).length + 1) after,
      (emitted before).length < line.1 := by
    intro line inside
    exact (Item.bounds_of_mem_linesFrom inside).1
  have none : l.Lined 0 [] := ⟨.nil, by simp⟩
  have lined := none.foldl places short ordered.1 (fun _ _ => Nat.zero_le _) (Nat.zero_le _) early
  have reached : ∀ entry ∈ (linesFrom 0 before).foldl (lineTable.addLine l) [],
      entry.start.toNat ≤ l.offset (emitted before).length := by
    intro entry inside
    obtain ⟨j, le, -, start⟩ := lined.offsets entry inside
    rw [start]
    rcases Nat.lt_or_eq_of_le le with less | rfl
    · exact Nat.le_of_lt (places.offset_lt less (Nat.le_of_lt here))
    · exact Nat.le_refl _
  obtain ⟨front, added, past⟩ :=
    places.foldl_addLine_behind short late reached (List.forall_mem_nil _)
  refine ⟨front, _, ?_, past, reached, lined.falling, ?_⟩
  · rw [lineTable, ← Array.foldl_toList, lines, List.foldl_append]
    exact congrArg List.reverse added
  · rw [head?_foldl_addLine fun line inside => Nat.lt_of_le_of_lt (early line inside) here,
      Item.map_linesFrom, lastLine?]

theorem Places.rising_lineTable (places : l.Places items) (inOrder : l.InOrder)
    (short : l.length ≤ 65535) : l.lineTable.Pairwise (·.start.toNat < ·.start.toNat) := by
  rw [lineTable, ← Array.foldl_toList, List.pairwise_reverse]
  exact (places.lined inOrder short).falling

theorem line_of_governs {before after : List Item} {instruction : Instruction}
    {entry : LineNumber} (done : ofItems (before ++ .instruction instruction :: after) = .ok l)
    (governs : entry.Governs l.lineTable (l.offset (emitted before).length)) :
    lastLine? before = some entry.line := by
  obtain ⟨front, table, whole, past, reached, falling, last⟩ := lineTable_splits done
  have member := governs.member
  rw [whole, List.mem_reverse, List.mem_append] at member
  have inside : entry ∈ table := by
    refine member.resolve_left fun inside => ?_
    exact absurd governs.reached (Nat.not_le.2 (past entry inside))
  cases table with
  | nil => cases inside
  | cons first rest =>
    have nearest := governs.nearest first (by simp [whole]) (reached first List.mem_cons_self)
    rcases List.mem_cons.1 inside with rfl | inside
    · exact last.symm
    · exact absurd nearest (Nat.not_le.2 ((List.pairwise_cons.1 falling).1 entry inside))

theorem exists_governs_iff {before after : List Item} {instruction : Instruction}
    (done : ofItems (before ++ .instruction instruction :: after) = .ok l) :
    (∃ entry : LineNumber, entry.Governs l.lineTable (l.offset (emitted before).length)) ↔
      ∃ n, Item.line n ∈ before := by
  obtain ⟨front, table, whole, past, reached, falling, last⟩ := lineTable_splits done
  rw [← not_iff_not, not_exists, not_exists, ← Item.lastLine?_eq_none_iff, ← last]
  cases table with
  | nil =>
    refine iff_of_true ?_ rfl
    intro entry governs
    have member := governs.member
    rw [whole, List.append_nil, List.mem_reverse] at member
    exact absurd governs.reached (Nat.not_le.2 (past entry member))
  | cons first rest =>
    refine iff_of_false (fun none => none first ⟨by simp [whole], ?_, ?_⟩) nofun
    · exact reached first List.mem_cons_self
    · intro other inside early
      rw [whole, List.mem_reverse, List.mem_append, List.mem_cons] at inside
      rcases inside with inside | rfl | inside
      · exact absurd early (Nat.not_le.2 (past other inside))
      · exact Nat.le_refl _
      · exact Nat.le_of_lt ((List.pairwise_cons.1 falling).1 other inside)

/-- A scope in bytes reaches from the one label to the other. -/
structure Spans (items : List Item) (s : Scope) (v : LocalVariable) : Prop where
  start : ∃ i, Marks items s.start i ∧ v.start.toNat = Instruction.offset (emitted items) i
  stop : ∃ i, Marks items s.stop i ∧
    v.start.toNat + v.length.toNat = Instruction.offset (emitted items) i
  name : v.name = s.name
  descriptor : v.descriptor = s.descriptor
  slot : v.slot = s.slot

theorem Places.localVariable (places : l.Places items) (short : l.length ≤ 65535) {s : Scope}
    {v : LocalVariable} (done : l.localVariable s = .ok v) : Spans items s v := by
  rw [Layout.localVariable, bind_eq_ok] at done
  obtain ⟨start, found, done⟩ := done
  rw [bind_eq_ok] at done
  obtain ⟨stop, found', done⟩ := done
  rw [guard_eq_ok] at done
  obtain ⟨forward, same⟩ := done
  cases same
  obtain ⟨i, marks, rfl⟩ := places.offsetOf.1 found
  obtain ⟨j, marks', rfl⟩ := places.offsetOf.1 found'
  have whole := places.offset l.size (Nat.le_refl _)
  have below := Instruction.offset_le marks'.le
  rw [Layout.length, whole, places.size_eq] at short
  refine ⟨⟨i, marks, ?_⟩, ⟨j, marks', ?_⟩, rfl, rfl, rfl⟩
  · rw [UInt16.toNat_ofNat']
    omega
  · rw [UInt16.toNat_ofNat', UInt16.toNat_ofNat']
    omega

theorem Places.localVariables (places : l.Places items) (short : l.length ≤ 65535)
    {scopes : List Scope} {table : List LocalVariable}
    (done : scopes.mapM l.localVariable = .ok table) :
    List.Forall₂ (Spans items) scopes table :=
  (forall₂_of_mapM_eq_ok done).imp fun _ _ done => places.localVariable short done

end Layout

theorem Protection.encloses_iff {p : Protection} {before after : List Item}
    {instruction : Instruction} :
    p.Encloses (before ++ .instruction instruction :: after) (Item.emitted before).length ↔
      .place p.start ∈ before ∧ .place p.stop ∈ after := by
  have whole : before ++ .instruction instruction :: after =
      (before ++ [.instruction instruction]) ++ after := (List.append_cons ..)
  have count : (Item.emitted (before ++ [.instruction instruction])).length =
      (Item.emitted before).length + 1 := by
    rw [Item.emitted_append, List.length_append]
    rfl
  constructor
  · intro encloses
    obtain ⟨first, last, marks, marks', le, lt⟩ := encloses
    constructor
    · rw [whole] at marks
      rcases marks.mem_or_mem with ⟨inside, -⟩ | ⟨-, behind⟩
      · simpa using inside
      · omega
    · rcases marks'.mem_or_mem with ⟨-, early⟩ | ⟨inside, -⟩
      · omega
      · simpa using inside
  · intro placed
    obtain ⟨first, le, marks⟩ := Item.exists_marks_of_mem placed.1
    obtain ⟨last, lt, marks'⟩ : ∃ i,
        (Item.emitted (before ++ [.instruction instruction])).length ≤ i ∧
        Item.Marks (before ++ [.instruction instruction] ++ after) p.stop i :=
      Item.exists_marks_of_mem_right placed.2
    rw [← whole] at marks'
    rw [count] at lt
    exact ⟨first, last, marks, marks', le, lt⟩

def Code.lineTable (code : Code) : List LineNumber :=
  code.attributes.flatMap fun
    | .lineNumbers lines => lines
    | _ => []

def Code.scopeTable (code : Code) : List LocalVariable :=
  code.attributes.flatMap fun
    | .localVariables scopes => scopes
    | _ => []

theorem Code.tables_eq {code : Code} {lines : List LineNumber} {scopes : List LocalVariable}
    (attributes : code.attributes = (if lines.isEmpty then [] else [.lineNumbers lines]) ++
      if scopes.isEmpty then [] else [.localVariables scopes]) :
    code.lineTable = lines ∧ code.scopeTable = scopes := by
  rw [lineTable, scopeTable, attributes]
  cases lines <;> cases scopes <;> simp

namespace Body

open Outcome

/-- The tables of the code describe it as it was emitted. -/
structure Described (b : Body) (code : Code) : Prop where
  length : code.bytes.length = b.offset b.emitted.length
  short : code.bytes.length ≤ 65535
  instructions : ∀ i instruction, b.emitted[i]? = some instruction → ∃ distance,
    Item.Leads b.items.toList i instruction.operation distance ∧
    Operation.Holds code.bytes.toArray (b.offset i) (instruction.operation.map distance).encode
  rising : code.lineTable.Pairwise (·.start.toNat < ·.start.toNat)
  starts : ∀ entry ∈ code.lineTable, ∃ i < b.emitted.length, entry.start.toNat = b.offset i
  governed : ∀ before instruction after,
    b.items.toList = before ++ .instruction instruction :: after →
    ((∃ entry : LineNumber, entry.Governs code.lineTable (b.offset (Item.emitted before).length)) ↔
      ∃ n, Item.line n ∈ before) ∧
    ∀ entry : LineNumber, entry.Governs code.lineTable (b.offset (Item.emitted before).length) →
      Item.lastLine? before = some entry.line
  scopes : List.Forall₂ (fun s v => Layout.Spans b.items.toList s v ∧
    v.start.toNat + v.length.toNat ≤ code.bytes.length) b.scopes.toList code.scopeTable
  handlers : List.Forall₂ (fun (p : Protection) (h : Handler) =>
    (∃ first last, b.Marks p.start first ∧ b.Marks p.stop last ∧
      h.start.toNat = b.offset first ∧ h.stop.toNat = b.offset last) ∧
    ∀ before instruction after,
      b.items.toList = before ++ .instruction instruction :: after →
      ((h.start.toNat ≤ b.offset (Item.emitted before).length ∧
        b.offset (Item.emitted before).length < h.stop.toNat) ↔
        .place p.start ∈ before ∧ .place p.stop ∈ after)) b.protections.toList code.handlers

theorem tables_of_finish {b : Body} {code : Code} (done : b.finish = .ok code) :
    ∃ l, b.layout = .ok l ∧ code.lineTable = l.lineTable ∧
      b.scopes.toList.mapM l.localVariable = .ok code.scopeTable ∧
      ∃ handlers, b.protections.toList.mapM l.handler = .ok handlers ∧
        code.handlers = handlers.map (·.1) := by
  rw [finish, bind_eq_ok] at done
  obtain ⟨l, laid, done⟩ := done
  rw [bind_eq_ok] at done
  obtain ⟨handlers, handled, done⟩ := done
  rw [bind_eq_ok] at done
  obtain ⟨_, -, done⟩ := done
  rw [bind_eq_ok] at done
  obtain ⟨_, -, done⟩ := done
  rw [bind_eq_ok] at done
  obtain ⟨_, -, done⟩ := done
  rw [bind_eq_ok] at done
  obtain ⟨scopes, located, same⟩ := done
  cases same
  refine ⟨l, laid, (Code.tables_eq rfl).1, ?_, handlers, handled, rfl⟩
  rw [(Code.tables_eq rfl).2]
  exact located

/-- An instruction has an entry if a line was given before it, and then the one given last. -/
theorem governed_of_finish {b : Body} {code : Code} (done : b.finish = .ok code)
    {before after : List Item} {instruction : Instruction}
    (split : b.items.toList = before ++ .instruction instruction :: after) :
    ((∃ entry : LineNumber, entry.Governs code.lineTable (b.offset (Item.emitted before).length)) ↔
      ∃ n, Item.line n ∈ before) ∧
    ∀ entry : LineNumber, entry.Governs code.lineTable (b.offset (Item.emitted before).length) →
      Item.lastLine? before = some entry.line := by
  obtain ⟨l, laid, lines, -⟩ := tables_of_finish done
  obtain ⟨places, -⟩ := Layout.places_ofItems laid
  have inside : (Item.emitted before).length ≤ l.size := by
    rw [places.size_eq, split, Item.emitted_append, List.length_append]
    exact Nat.le_add_right ..
  have here := places.offset _ inside
  rw [layout, split] at laid
  rw [lines, Body.offset, ← here]
  exact ⟨Layout.exists_governs_iff laid, fun entry => Layout.line_of_governs laid⟩

theorem guarded_of_finish {b : Body} {code : Code} (done : b.finish = .ok code) :
    List.Forall₂ (fun (p : Protection) (h : Handler) =>
      (∃ first last, b.Marks p.start first ∧ b.Marks p.stop last ∧
        h.start.toNat = b.offset first ∧ h.stop.toNat = b.offset last) ∧
      ∀ before instruction after,
        b.items.toList = before ++ .instruction instruction :: after →
        ((h.start.toNat ≤ b.offset (Item.emitted before).length ∧
          b.offset (Item.emitted before).length < h.stop.toNat) ↔
          .place p.start ∈ before ∧ .place p.stop ∈ after)) b.protections.toList code.handlers := by
  obtain ⟨l, laid, -, -, handlers, handled, same⟩ := tables_of_finish done
  obtain ⟨places, -, short⟩ := Layout.places_ofItems laid
  rw [same, List.forall₂_map_right_iff]
  refine (places.handlers short handled).imp fun p h guards => ⟨guards.range, ?_⟩
  intro before instruction after split
  have inside : (Item.emitted before).length < (Item.emitted b.items.toList).length := by
    rw [split, Item.emitted_append, List.length_append]
    exact Nat.lt_add_of_pos_right (Nat.succ_pos _)
  have covers := guards.covers_iff places inside
  rw [split] at covers
  rw [Body.offset, emitted, split, ← Protection.encloses_iff, ← covers, not_or, Nat.not_lt,
    Nat.not_le]

theorem finish_described {b : Body} {code : Code} (done : b.finish = .ok code) :
    b.Described code := by
  obtain ⟨s, -, finished⟩ := finished_of_eq_ok done
  obtain ⟨l, laid, lines, located, -⟩ := tables_of_finish done
  obtain ⟨places, some, short⟩ := Layout.places_ofItems laid
  have inOrder := Layout.inOrder_ofItems laid
  have length := finished.length
  have whole : l.length = code.bytes.length := by
    rw [length, Layout.length, places.offset _ (Nat.le_refl _), places.size_eq]
  refine ⟨length, whole ▸ short, finished.holds, ?_, ?_, ?_, ?_, guarded_of_finish done⟩
  · rw [lines]
    exact places.rising_lineTable inOrder short
  · intro entry member
    rw [lines, Layout.lineTable, ← Array.foldl_toList, List.mem_reverse] at member
    obtain ⟨i, -, within, start⟩ := (places.lined inOrder short).offsets entry member
    rw [places.offset i (Nat.le_of_lt within)] at start
    exact ⟨i, places.size_eq ▸ within, start⟩
  · intro before instruction after split
    exact governed_of_finish done split
  · refine (places.localVariables short located).imp fun s v spans => ⟨spans, ?_⟩
    obtain ⟨i, marks, stop⟩ := spans.stop
    rw [stop, length]
    exact Instruction.offset_le marks.le

/-- Catches what it throws. The first instruction has no line, the second one has two of them, and
the last line has no instruction. -/
def traced : Body where
  pool := {}
  cache := {}
  descriptor := ⟨[.object objectClass], none⟩
  isStatic := true
  items := #[.place ⟨0⟩, .instruction ⟨.load .reference 0, 0, 1⟩, .line 10, .line 11,
    .instruction ⟨.raise, 1, 0⟩, .place ⟨1⟩, .line 11, .instruction ⟨.pop, 1, 0⟩,
    .instruction ⟨.leave none, 0, 0⟩, .place ⟨2⟩, .line 12]
  protections := #[⟨⟨0⟩, ⟨1⟩, ⟨1⟩, 0⟩]
  scopes := #[⟨⟨0⟩, ⟨2⟩, 1, 2, 0⟩]
  maxLocals := 1

theorem finish_described_traced : ∃ code, traced.finish = .ok code ∧
    code.lineTable = [⟨1, 11⟩, ⟨2, 11⟩] ∧ code.scopeTable = [⟨0, 4, 1, 2, 0⟩] ∧
    code.handlers = [⟨0, 2, 2, 0⟩] ∧ traced.Described code := by
  have tables : traced.finish.toOption.any (fun code =>
      code.lineTable = [⟨1, 11⟩, ⟨2, 11⟩] ∧ code.scopeTable = [⟨0, 4, 1, 2, 0⟩] ∧
        code.handlers = [⟨0, 2, 2, 0⟩]) = true := by decide +kernel
  obtain ⟨code, done, tables⟩ := exists_of_any tables
  obtain ⟨lines, named, handlers⟩ := of_decide_eq_true tables
  exact ⟨code, done, lines, named, handlers, finish_described done⟩

end Body

theorem Step.Left.lines {step : Step} {new : List Record} (left : step.Left new) :
    (Record.items new).filterMap Item.line? = step.line?.toList := by
  have quiet (plain : ∀ r ∈ new, r.Plain) : (Record.items new).filterMap Item.line? = [] := by
    obtain ⟨is, rfl⟩ := Record.exists_instructions_of_plain plain
    simp [Record.items, Record.item?, Item.line?]
  rcases left with ⟨labels, leaves⟩ | ⟨plain, none⟩
  · cases leaves with
    | plain unmarked plain =>
      rw [quiet plain]
      cases step with
      | line n => cases unmarked
      | _ => rfl
    | _ => rfl
  · rw [quiet plain, none]
    rfl

theorem Item.mem_lines {items : List Item} {n : UInt16} :
    n ∈ items.filterMap line? ↔ .line n ∈ items := by
  rw [List.mem_filterMap]
  constructor
  · rintro ⟨item, inside, same⟩
    cases item with
    | line k =>
      cases same
      exact inside
    | _ => cases same
  · intro inside
    exact ⟨_, inside, rfl⟩

theorem History.mem_lines {h : History} {n : UInt16} :
    n ∈ h.filterMap (·.1.line?) ↔ .line n ∈ h.map (·.1) := by
  rw [List.mem_filterMap, List.mem_map]
  refine exists_congr fun entry => and_congr_right fun _ => ?_
  obtain ⟨step, new⟩ := entry
  constructor
  · intro same
    cases step with
    | line k =>
      cases same
      rfl
    | _ => cases same
  · rintro rfl
    rfl

theorem History.lines {h : History} (left : ∀ entry ∈ h, entry.1.Left entry.2) :
    (Record.items h.records).filterMap Item.line? = h.filterMap (·.1.line?) := by
  rw [records, Record.items, List.filterMap_flatMap, List.filterMap_flatMap,
    List.filterMap_eq_flatMap_toList]
  exact List.flatMap_congr fun entry inside => (left entry inside).lines

/-- The tables tell lines and ranges by the steps that were run, where the `k`-th instruction that a
step left stands behind those of the steps before it. -/
structure Body.Recounted (b : Body) (h : History) (code : Code) : Prop where
  governed : ∀ (before : History) step new after k instruction,
    h = before ++ (step, new) :: after →
    (Item.emitted (Record.items new))[k]? = some instruction →
    ((∃ entry : LineNumber, entry.Governs code.lineTable (b.offset (before.emitted.length + k))) ↔
      ∃ n, Step.line n ∈ before.map (·.1)) ∧
    ∀ entry : LineNumber, entry.Governs code.lineTable (b.offset (before.emitted.length + k)) →
      (before.filterMap (·.1.line?)).getLast? = some entry.line
  guarded : List.Forall₂ (fun (p : Protection) (handler : Handler) =>
    ∀ (before : History) step new (after : History) k instruction,
      h = before ++ (step, new) :: after →
      (Item.emitted (Record.items new))[k]? = some instruction →
      ((handler.start.toNat ≤ b.offset (before.emitted.length + k) ∧
        b.offset (before.emitted.length + k) < handler.stop.toNat) ↔
        .item (.place p.start) ∈ before.records ∧ .item (.place p.stop) ∈ after.records))
    (Record.protections h.records) code.handlers

namespace Assembly

variable {a c : Assembly} {h : History}

theorem Performs.exists_split (ran : Performs a h c) (fresh : a.body.items = #[])
    {before after : History} {step : Step} {new : List Record}
    (whole : h = before ++ (step, new) :: after) {k : Nat} {instruction : Instruction}
    (here : (Item.emitted (Record.items new))[k]? = some instruction) :
    ∃ front back, c.body.items.toList = front ++ .instruction instruction :: back ∧
      (Item.emitted front).length = before.emitted.length + k ∧
      front.filterMap Item.line? = before.filterMap (·.1.line?) ∧
      (∀ label, .place label ∈ front ↔ .item (.place label) ∈ before.records) ∧
      ∀ label, .place label ∈ back ↔ .item (.place label) ∈ after.records := by
  have items := ran.gains.items
  rw [fresh] at items
  subst whole
  have plain := ran.plain (List.mem_append_right before (List.mem_cons_self)) here
  obtain ⟨is, js, count, split⟩ := History.items_split plain here
  have quiet (is : List Instruction) : (is.map Item.instruction).filterMap Item.line? = [] := by
    simp [Item.line?]
  refine ⟨_, _, items.trans split, ?_, ?_, ?_, ?_⟩
  · rw [Item.emitted_append, List.length_append, ← count, Item.emitted, Item.emitted,
      List.filterMap_map]
    congr 1
    exact congrArg List.length List.filterMap_some
  · rw [List.filterMap_append, quiet, List.append_nil]
    exact History.lines fun entry inside => ran.left entry (List.mem_append_left _ inside)
  · intro label
    simp [Record.mem_items]
  · intro label
    simp [Record.mem_items]

theorem Performs.recounted (ran : Performs a h c) (items : a.body.items = #[])
    (protections : a.body.protections = #[]) {code : Code} (done : c.body.finish = .ok code) :
    c.body.Recounted h code := by
  constructor
  · intro before step new after k instruction whole here
    obtain ⟨front, back, split, count, lines, -⟩ := ran.exists_split items whole here
    obtain ⟨some, last⟩ := Body.governed_of_finish done split
    rw [Item.lastLine?, lines, count] at last
    rw [count] at some
    refine ⟨some.trans (exists_congr fun n => ?_), last⟩
    rw [← Item.mem_lines, lines, History.mem_lines]
  · have guarded := Body.guarded_of_finish done
    rw [ran.gains.protections, protections] at guarded
    refine guarded.imp fun p handler ranges => ?_
    intro before step new after k instruction whole here
    obtain ⟨front, back, split, count, -, starts, stops⟩ := ran.exists_split items whole here
    rw [← count, ranges.2 _ _ _ split, starts, stops]

end Assembly

theorem Listing.exists_recounted (steps : Listing) {b : Body} (items : b.items = #[])
    (protections : b.protections = #[]) {code : Code}
    (done : (steps.run b).2.1.finish = .ok code) :
    ∃ h a, steps.Unrolls b h a ∧ a.body.Recounted h code := by
  obtain ⟨h, a, unrolls⟩ := steps.exists_unrolls b
  rw [unrolls.body] at done
  exact ⟨h, a, unrolls, unrolls.performs.recounted items protections done⟩

end ClassForge
