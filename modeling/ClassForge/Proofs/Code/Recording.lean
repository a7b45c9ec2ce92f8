import ClassForge.Proofs.Code.Listings
import ClassForge.Proofs.Code.Operations
import ClassForge.Proofs.Code.Placing

namespace ClassForge

open Discipline Outcome

namespace Record

def item? : Record → Option Item
  | item i => some i
  | protection _ => none

def protection? : Record → Option Protection
  | item _ => none
  | protection p => some p

def items (records : List Record) : List Item := records.filterMap item?

def protections (records : List Record) : List Protection := records.filterMap protection?

theorem mem_items {records : List Record} {i : Item} : i ∈ items records ↔ item i ∈ records := by
  rw [items, List.mem_filterMap]
  constructor
  · rintro ⟨r, inside, same⟩
    cases r with
    | item i =>
      cases same
      exact inside
    | protection p => cases same
  · intro inside
    exact ⟨_, inside, rfl⟩

theorem exists_instructions_of_plain {records : List Record} (plain : ∀ r ∈ records, r.Plain) :
    ∃ is : List Instruction, records = is.map fun i => item (.instruction i) := by
  induction records with
  | nil => exact ⟨[], rfl⟩
  | cons r rest ih =>
    simp only [List.mem_cons, forall_eq_or_imp] at plain
    obtain ⟨is, rfl⟩ := ih plain.2
    have first := plain.1
    cases r with
    | protection p => cases first
    | item i =>
      cases i with
      | instruction i => exact ⟨i :: is, rfl⟩
      | _ => cases first

theorem place_not_mem_of_plain {records : List Record} (plain : ∀ r ∈ records, r.Plain)
    {label : Label} : Item.place label ∉ items records :=
  fun inside => plain _ (mem_items.1 inside)

end Record

namespace Body

variable {α : Type} {b c : Body} {R : Record → Prop}

/-- What the other body has, and the records behind it. -/
structure Gains (b c : Body) (records : List Record) : Prop where
  items : c.items.toList = b.items.toList ++ Record.items records
  protections : c.protections.toList = b.protections.toList ++ Record.protections records

theorem gains_of_eq (items : c.items = b.items) (protections : c.protections = b.protections) :
    b.Gains c [] := by
  constructor
  · rw [items]
    exact (List.append_nil _).symm
  · rw [protections]
    exact (List.append_nil _).symm

theorem Gains.trans {d : Body} {first second : List Record} (left : b.Gains c first)
    (right : c.Gains d second) : b.Gains d (first ++ second) where
  items := by
    rw [right.items, left.items, Record.items, Record.items, Record.items, List.filterMap_append,
      List.append_assoc]
  protections := by
    rw [right.protections, left.protections, Record.protections, Record.protections,
      Record.protections, List.filterMap_append, List.append_assoc]

theorem gains_push_item (b : Body) (i : Item) :
    b.Gains { b with items := b.items.push i } [.item i] :=
  ⟨Array.toList_push, (List.append_nil _).symm⟩

theorem gains_push_protection (b : Body) (p : Protection) :
    b.Gains { b with protections := b.protections.push p } [.protection p] :=
  ⟨(List.append_nil _).symm, Array.toList_push⟩

theorem emit_gains (o : Operation Label) (pops pushes : Nat) (b : Body) :
    ∃ c, emit o pops pushes b = .ok () c ∧ b.Gains c [.item (.instruction ⟨o, pops, pushes⟩)] :=
  ⟨_, rfl, b.gains_push_item _⟩

theorem place_gains (label : Label) (b : Body) :
    ∃ c, place label b = .ok () c ∧ b.Gains c [.item (.place label)] :=
  ⟨_, rfl, b.gains_push_item _⟩

theorem lineNumber_gains (n : UInt16) (b : Body) :
    ∃ c, lineNumber n b = .ok () c ∧ b.Gains c [.item (.line n)] :=
  ⟨_, rfl, b.gains_push_item _⟩

/-- Of the protection, only the class can depend on the pool. Without a class, everything is
caught. -/
theorem tryCatch_gains (start stop handler : Label) (caught : Option String) (b : Body) :
    (∃ c catchType, tryCatch start stop handler caught b = .ok () c ∧
      (caught = none → catchType = 0) ∧
        b.Gains c [.protection ⟨start, stop, handler, catchType⟩]) ∨
    ∃ e c, tryCatch start stop handler caught b = .error e c ∧ b.Gains c [] := by
  cases caught with
  | none => exact .inl ⟨_, 0, rfl, fun _ => rfl, b.gains_push_protection _⟩
  | some name =>
    have opened : tryCatch start stop handler (some name) =
        onPool (Pool.classRef name) >>= fun i => modify fun b =>
          { b with protections := b.protections.push ⟨start, stop, handler, i⟩ } := rfl
    rw [opened, referring_eq]
    cases Pool.classRef name b.pool with
    | ok i p =>
      have asked : b.Gains { b with pool := p } [] := gains_of_eq rfl rfl
      exact .inl ⟨_, i, rfl, nofun, asked.trans (gains_push_protection _ _)⟩
    | error e p => exact .inr ⟨e, _, rfl, gains_of_eq rfl rfl⟩

/-- Nothing is taken away, and what comes behind is as `R` says. -/
def recording (R : Record → Prop) : Discipline Body where
  Holds _ := True
  Onward b c := ∃ records, (∀ r ∈ records, R r) ∧ b.Gains c records
  refl b := ⟨[], by simp, gains_of_eq rfl rfl⟩
  trans := by
    rintro b c d ⟨first, each, left⟩ ⟨second, each', right⟩
    refine ⟨first ++ second, ?_, left.trans right⟩
    intro r inside
    exact (List.mem_append.1 inside).elim (each r) (each' r)

theorem recording_onward_of_eq (items : c.items = b.items)
    (protections : c.protections = b.protections) : (recording R).Onward b c :=
  ⟨[], by simp, gains_of_eq items protections⟩

theorem recording_onward_single {r : Record} (kind : R r) (gains : b.Gains c [r]) :
    (recording R).Onward b c :=
  ⟨[r], by simpa using kind, gains⟩

theorem records_modify {f : Body → Body} (onward : (recording R).Onward b (f b)) :
    (recording R).Ensures (modify f : BodyM Unit) b Ensures.Anything :=
  Ensures.modify fun _ => ⟨trivial, onward, trivial⟩

theorem records_onPool (m : PoolM α) : (recording R).Ensures (onPool m) b Ensures.Anything := by
  constructor
  intro _
  unfold onPool
  dsimp only
  cases m b.pool with
  | ok a p => exact ⟨trivial, recording_onward_of_eq rfl rfl, trivial⟩
  | error e p => exact ⟨trivial, recording_onward_of_eq rfl rfl⟩

theorem records_method (descriptor : String) :
    (recording R).Ensures (method descriptor) b Ensures.Anything := by
  constructor
  intro _
  unfold method
  dsimp only
  cases (b.cache.method? descriptor).1 with
  | some d => exact ⟨trivial, recording_onward_of_eq rfl rfl, trivial⟩
  | none => exact ⟨trivial, recording_onward_of_eq rfl rfl⟩

theorem Operates.records {m : BodyM α} (operates : Operates R m) (b : Body) :
    (recording R).Ensures m b Ensures.Anything := by
  induction operates generalizing b with
  | pure a => exact Ensures.pure a fun _ => trivial
  | throw e => exact Ensures.throw e
  | onPool => exact records_onPool _
  | method descriptor => exact records_method descriptor
  | item i free kind =>
    exact records_modify (recording_onward_single kind (b.gains_push_item i))
  | touch slot kind => exact records_modify (recording_onward_of_eq rfl rfl)
  | use slot kind o pops pushes span plain =>
    refine (records_modify (recording_onward_of_eq rfl rfl)).andThen fun _ c => ?_
    exact records_modify (recording_onward_single plain (c.gains_push_item _))
  | newLabel => exact ⟨fun _ => ⟨trivial, recording_onward_of_eq rfl rfl, trivial⟩⟩
  | declareMaxStack | scope => exact records_modify (recording_onward_of_eq rfl rfl)
  | protection x kind =>
    exact records_modify (recording_onward_single kind (b.gains_push_protection x))
  | look same next ih => exact Ensures.get.andThen fun here c => ih here c
  | bind first next ih ihnext => exact (ih b).andThen fun a c => ihnext a c

end Body

def Step.isSingle : Step → Bool
  | .repeat .. | .attempt _ => false
  | _ => true

theorem Assembly.runStep_of_isSingle {step : Step} (single : step.isSingle = true) :
    runStep step = runSingle step := by
  cases step with
  | «repeat» n steps => cases single
  | attempt steps => cases single
  | _ => rfl

def Step.line? : Step → Option UInt16
  | .line n => some n
  | _ => none

/-- What a step leaves if it succeeds, where labels have the names. -/
inductive Step.Leaves (labels : List (String × Label)) : Step → List Record → Prop where
  | place {name : String} {label : Label} (named : labels.lookup name = some label) :
    Leaves labels (.place name) [.item (.place label)]
  | line (n : UInt16) : Leaves labels (.line n) [.item (.line n)]
  | tryCatch {start stop handler : String} {i j k : Label} {caught : Option String}
    {catchType : Index} (start_named : labels.lookup start = some i)
    (stop_named : labels.lookup stop = some j) (handler_named : labels.lookup handler = some k)
    (all : caught = none → catchType = 0) :
    Leaves labels (.tryCatch start stop handler caught) [.protection ⟨i, j, k, catchType⟩]
  | plain {step : Step} {records : List Record} (unmarked : step.isMark = false)
    (plain : ∀ r ∈ records, r.Plain) : Leaves labels step records

/-- What a step has left, whether it failed or not. Lines cannot fail. -/
def Step.Left (step : Step) (new : List Record) : Prop :=
  (∃ labels, step.Leaves labels new) ∨ (∀ r ∈ new, r.Plain) ∧ step.line? = none

/-- The steps that were run one after another, each with the records that it left. -/
abbrev History := List (Step × List Record)

namespace History

def records (h : History) : List Record := h.flatMap (·.2)

def emitted (h : History) : List Instruction := Item.emitted (Record.items h.records)

theorem items_append (h h' : History) :
    Record.items (h ++ h').records = Record.items h.records ++ Record.items h'.records := by
  rw [records, List.flatMap_append, Record.items, List.filterMap_append]
  rfl

theorem items_cons (step : Step) (new : List Record) (h : History) :
    Record.items (records ((step, new) :: h)) = Record.items new ++ Record.items h.records := by
  rw [records, List.flatMap_cons, Record.items, List.filterMap_append]
  rfl

theorem emitted_cons (step : Step) (new : List Record) (h : History) :
    emitted ((step, new) :: h) = Item.emitted (Record.items new) ++ h.emitted := by
  rw [emitted, items_cons, Item.emitted_append]
  rfl

theorem exists_of_emitted {h : History} {i : Nat} {instruction : Instruction}
    (here : h.emitted[i]? = some instruction) :
    ∃ (before : History) (step : Step) (new : List Record) (after : History) (k : Nat),
      h = before ++ (step, new) :: after ∧ i = before.emitted.length + k ∧
        (Item.emitted (Record.items new))[k]? = some instruction := by
  induction h generalizing i with
  | nil => cases here
  | cons first rest ih =>
    obtain ⟨step, new⟩ := first
    rw [emitted_cons, List.getElem?_append] at here
    split at here
    · exact ⟨[], step, new, rest, i, rfl, (Nat.zero_add i).symm, here⟩
    · rename_i behind
      obtain ⟨before, other, new', after, k, rfl, place, there⟩ := ih here
      refine ⟨(step, new) :: before, other, new', after, k, rfl, ?_, there⟩
      rw [emitted_cons, List.length_append]
      omega

/-- One of the steps left the item, with the given items in front of it. -/
def LeftAt (h : History) (front : List Item) (i : Item) : Prop :=
  ∃ (before : History) (step : Step) (new : List Record) (after : History)
    (first last : List Item), h = before ++ (step, new) :: after ∧
      Record.items new = first ++ i :: last ∧ front = Record.items before.records ++ first

theorem LeftAt.cons {h : History} {front : List Item} {i : Item} (left : h.LeftAt front i)
    (step : Step) (new : List Record) :
    LeftAt ((step, new) :: h) (Record.items new ++ front) i := by
  obtain ⟨before, other, new', after, first, last, rfl, inside, rfl⟩ := left
  refine ⟨(step, new) :: before, other, new', after, first, last, rfl, inside, ?_⟩
  rw [items_cons, List.append_assoc]

theorem leftAt_of_items {h : History} {front back : List Item} {i : Item}
    (whole : Record.items h.records = front ++ i :: back) : h.LeftAt front i := by
  induction h generalizing front with
  | nil => simp [records, Record.items] at whole
  | cons entry rest ih =>
    obtain ⟨step, new⟩ := entry
    rw [items_cons] at whole
    rcases List.append_eq_append_iff.1 whole with ⟨middle, rfl, behind⟩ | ⟨middle, inside, behind⟩
    · exact (ih behind).cons step new
    · cases middle with
      | nil =>
        rw [List.append_nil] at inside
        have later : LeftAt rest [] i := ih behind.symm
        have left := later.cons step new
        rwa [inside, List.append_nil] at left
      | cons j middle =>
        cases behind
        exact ⟨[], step, new, rest, front, middle, rfl, inside, rfl⟩

theorem items_split {before after : History} {step : Step} {new : List Record}
    (plain : ∀ r ∈ new, r.Plain) {k : Nat} {instruction : Instruction}
    (here : (Item.emitted (Record.items new))[k]? = some instruction) :
    ∃ is js : List Instruction, is.length = k ∧
      Record.items (records (before ++ (step, new) :: after)) =
        (Record.items before.records ++ is.map .instruction) ++
          .instruction instruction :: (js.map .instruction ++ Record.items after.records) := by
  obtain ⟨all, rfl⟩ := Record.exists_instructions_of_plain plain
  have items : Record.items (all.map fun i => .item (.instruction i)) = all.map .instruction := by
    rw [Record.items, List.filterMap_map, ← List.filterMap_eq_map]
    rfl
  have emitted : Item.emitted (all.map .instruction) = all := by
    rw [Item.emitted, List.filterMap_map]
    exact List.filterMap_some
  rw [items, emitted] at here
  obtain ⟨inside, here⟩ := List.getElem?_eq_some_iff.1 here
  refine ⟨all.take k, all.drop (k + 1), List.length_take_of_le (Nat.le_of_lt inside), ?_⟩
  have parts := (List.take_append_drop k all).symm
  rw [List.drop_eq_getElem_cons inside, here] at parts
  have rest : Record.items (records ((step, all.map fun i => .item (.instruction i)) :: after)) =
      all.map .instruction ++ Record.items after.records := by
    rw [items_cons, items]
  rw [items_append, rest]
  conv_lhs => rw [parts]
  simp

end History

namespace Assembly

variable {a b : Assembly}

/-- What a step comes to, and what it has left then. Steps that fail can have left instructions. -/
inductive Yields (a : Assembly) (step : Step) (records : List Record) (b : Assembly) :
    EStateM.Result Error Assembly Reply → Prop where
  | ok (r : Reply) (leaves : step.Leaves a.labels records)
    (gains : a.body.Gains b.body records) : Yields a step records b (.ok r b)
  | error (e : Error) (plain : ∀ r ∈ records, r.Plain) (gains : a.body.Gains b.body records) :
    Yields a step records b (.error e b)

/-- Single steps one after another. Others may go on after one that failed. Transcripts may change
in between. -/
inductive Performs : Assembly → History → Assembly → Prop where
  | nil (a : Assembly) : Performs a [] a
  | aside {a b : Assembly} {h : History} (t : Transcript)
    (rest : Performs { a with transcript := t } h b) : Performs a h b
  | cons {a b c : Assembly} {step : Step} {records : List Record} {h : History}
    (first : Yields a step records b (perform step a)) (rest : Performs b h c) :
    Performs a ((step, records) :: h) c

theorem Performs.trans {c : Assembly} {h h' : History} (left : Performs a h b)
    (right : Performs b h' c) : Performs a (h ++ h') c := by
  induction left with
  | nil => exact right
  | aside t _ ih => exact .aside t (ih right)
  | cons first _ ih => exact .cons first (ih right)

theorem Performs.gains {h : History} (ran : Performs a h b) :
    a.body.Gains b.body h.records := by
  induction ran with
  | nil a => exact Body.gains_of_eq rfl rfl
  | aside t _ ih => exact ih
  | cons first _ ih =>
    generalize perform _ _ = x at first
    cases first with
    | ok r leaves gains => exact gains.trans ih
    | error e plain gains => exact gains.trans ih

theorem labelNamed_of_some {name : String} {l : Label} (named : a.labels.lookup name = some l) :
    labelNamed name a = .ok l a := by
  have got : (get : AssemblyM Assembly) a = .ok a a := rfl
  rw [labelNamed, bind_of_ok got, named]
  rfl

theorem labelNamed_of_none {name : String} (unknown : a.labels.lookup name = none) :
    labelNamed name a = .error (.unsupported (.refused s!"no label {name}")) a := by
  have got : (get : AssemblyM Assembly) a = .ok a a := rfl
  rw [labelNamed, bind_of_ok got, unknown]
  rfl

theorem labelNamed_bind {P : EStateM.Result Error Assembly Reply → Prop} {name : String}
    {k : Label → AssemblyM Reply}
    (known : ∀ l, a.labels.lookup name = some l → P (k l a))
    (unknown : ∀ e, P (.error e a)) : P ((labelNamed name >>= k) a) := by
  cases found : a.labels.lookup name with
  | some l =>
    rw [bind_of_ok (labelNamed_of_some found)]
    exact known l found
  | none =>
    rw [bind_of_error (labelNamed_of_none found)]
    exact unknown _

theorem onBody_of_ok {α : Type} {m : BodyM α} {x : α} {c : Body} (done : m a.body = .ok x c) :
    onBody m a = .ok x { a with body := c } := by
  rw [onBody]
  dsimp only
  rw [done]

theorem onBody_of_error {α : Type} {m : BodyM α} {e : Error} {c : Body}
    (failed : m a.body = .error e c) : onBody m a = .error e { a with body := c } := by
  rw [onBody]
  dsimp only
  rw [failed]

theorem nothing_of_ok {m : BodyM Unit} {u : Unit} {c : Body} (done : m a.body = .ok u c) :
    nothing m a = .ok .nothing { a with body := c } := by
  rw [nothing, bind_of_ok (onBody_of_ok done)]
  rfl

theorem nothing_of_error {m : BodyM Unit} {e : Error} {c : Body}
    (failed : m a.body = .error e c) : nothing m a = .error e { a with body := c } :=
  bind_of_error (onBody_of_error failed)

/-- The step comes to this, whatever it has left. -/
def ComesTo (a : Assembly) (step : Step) (x : EStateM.Result Error Assembly Reply) : Prop :=
  ∃ records b, Yields a step records b x

theorem comesTo_error (a : Assembly) (step : Step) (e : Error) : ComesTo a step (.error e a) :=
  ⟨[], a, .error e (by simp) (Body.gains_of_eq rfl rfl)⟩

theorem comesTo_perform (step : Step) (a : Assembly) : ComesTo a step (perform step a) := by
  have missing := comesTo_error a step
  by_cases plain : step.isMark = false
  · have keeps := (operates_plain plain).ensures (fun operates b => operates.records b) a
    have outcome := keeps.outcome trivial
    cases h : perform step a with
    | ok r b =>
      rw [h] at outcome
      obtain ⟨-, ⟨records, each, gains⟩, -⟩ := outcome
      exact ⟨records, b, .ok r (.plain plain each) gains⟩
    | error e b =>
      rw [h] at outcome
      obtain ⟨-, records, each, gains⟩ := outcome
      exact ⟨records, b, .error e each gains⟩
  · cases step with
    | place name =>
      refine labelNamed_bind (P := ComesTo a _) (fun l named => ?_) missing
      obtain ⟨b, done, gains⟩ := Body.place_gains l a.body
      rw [nothing_of_ok done]
      exact ⟨_, _, .ok .nothing (.place named) gains⟩
    | line n =>
      change ComesTo a _ (nothing (Body.lineNumber n) a)
      obtain ⟨b, done, gains⟩ := Body.lineNumber_gains n a.body
      rw [nothing_of_ok done]
      exact ⟨_, _, .ok .nothing (.line n) gains⟩
    | tryCatch start stop handler caught =>
      refine labelNamed_bind (P := ComesTo a _) (fun i first => ?_) missing
      refine labelNamed_bind (P := ComesTo a _) (fun j last => ?_) missing
      refine labelNamed_bind (P := ComesTo a _) (fun k target => ?_) missing
      rcases Body.tryCatch_gains i j k caught a.body with
        ⟨b, catchType, done, all, gains⟩ | ⟨e, b, failed, gains⟩
      · rw [nothing_of_ok done]
        exact ⟨_, _, .ok .nothing (.tryCatch first last target all) gains⟩
      · rw [nothing_of_error failed]
        exact ⟨_, _, .error e (by simp) gains⟩
    | _ => exact absurd rfl plain

theorem Performs.left {h : History} (ran : Performs a h b) :
    ∀ entry ∈ h, entry.1.Left entry.2 := by
  induction ran with
  | nil => simp
  | aside t _ ih => exact ih
  | @cons a b c step new h first _ ih =>
    simp only [List.mem_cons, forall_eq_or_imp]
    refine ⟨?_, ih⟩
    cases ended : perform step a with
    | ok r d =>
      rw [ended] at first
      cases first with
      | ok r leaves => exact .inl ⟨_, leaves⟩
    | error e d =>
      rw [ended] at first
      cases first with
      | error e plain =>
        refine .inr ⟨plain, ?_⟩
        cases step with
        | line n => cases ended
        | _ => rfl

theorem Performs.plain {h : History} (ran : Performs a h b) {step : Step} {new : List Record}
    (inside : (step, new) ∈ h) {k : Nat} {instruction : Instruction}
    (here : (Item.emitted (Record.items new))[k]? = some instruction) : ∀ r ∈ new, r.Plain := by
  rcases ran.left _ inside with ⟨labels, leaves⟩ | ⟨plain, -⟩
  · cases leaves with
    | plain _ plain => exact plain
    | _ => cases here
  · exact plain

/-- A label that stands in front of an instruction was placed there. -/
theorem Performs.exists_place {h : History} (ran : Performs a h b) (fresh : a.body.items = #[])
    {label : Label} {j : Nat} (marks : Item.Marks b.body.items.toList label j) :
    ∃ (before : History) (name : String) (after : History),
      h = before ++ (.place name, [.item (.place label)]) :: after ∧ before.emitted.length = j := by
  have items := ran.gains.items
  rw [fresh] at items
  obtain ⟨front, ⟨back, whole⟩, rfl⟩ := marks
  rw [items, List.append_assoc, List.singleton_append] at whole
  obtain ⟨before, step, new, after, first, last, rfl, inside, rfl⟩ :=
    History.leftAt_of_items whole.symm
  have member : Item.place label ∈ Record.items new := by simp [inside]
  have placed : ∃ name, step = .place name ∧ new = [.item (.place label)] ∧ first = [] := by
    rcases ran.left (step, new) (by simp) with ⟨labels, leaves⟩ | ⟨plain, -⟩
    · cases leaves with
      | @place name other named =>
        cases first with
        | nil =>
          cases inside
          exact ⟨name, rfl, rfl, rfl⟩
        | cons i first => simp [Record.items, Record.item?] at inside
      | line n => simp [Record.items, Record.item?] at member
      | tryCatch => simp [Record.items, Record.item?] at member
      | plain _ plain => exact absurd member (Record.place_not_mem_of_plain plain)
    · exact absurd member (Record.place_not_mem_of_plain plain)
  obtain ⟨name, rfl, rfl, rfl⟩ := placed
  exact ⟨before, name, after, rfl, by rw [List.append_nil]; rfl⟩

def performing : Discipline Assembly where
  Holds _ := True
  Onward a b := ∃ h, Performs a h b
  refl a := ⟨[], .nil a⟩
  trans := by
    rintro a b c ⟨h, left⟩ ⟨h', right⟩
    exact ⟨h ++ h', left.trans right⟩

theorem stepwise_performing : Stepwise performing where
  perform step a := by
    constructor
    intro _
    obtain ⟨records, b, yields⟩ := comesTo_perform step a
    have first := Performs.cons yields (.nil b)
    generalize perform step a = x at yields
    cases yields with
    | ok r => exact ⟨trivial, ⟨_, first⟩, trivial⟩
    | error e => exact ⟨trivial, _, first⟩
  holds _ _ _ := trivial
  onward a t := ⟨[], .aside t (.nil _)⟩

theorem exists_performs_of_single {steps : List Step}
    (single : ∀ step ∈ steps, step.isSingle = true) {u : Unit}
    (ran : runSteps steps a = .ok u b) : ∃ h, Performs a h b ∧ h.map (·.1) = steps := by
  induction steps generalizing a with
  | nil =>
    cases ran
    exact ⟨[], .nil _, rfl⟩
  | cons step rest ih =>
    simp only [List.mem_cons, forall_eq_or_imp] at single
    change (runStep step >>= fun _ => runSteps rest) a = _ at ran
    obtain ⟨_, c, first, later⟩ := run_bind_eq_ok.1 ran
    rw [runStep_of_isSingle single.1, runSingle] at first
    obtain ⟨new, d, yields⟩ := comesTo_perform step a
    have yielded := yields
    generalize perform step a = x at first yields
    cases yields with
    | error e => cases first
    | ok r =>
      cases first
      obtain ⟨h, performs, same⟩ := ih single.2 later
      exact ⟨(step, new) :: h, .cons yielded (.aside _ performs), by rw [List.map_cons, same]⟩

end Assembly

/-- The body that the listing leaves, whether it fails or not, has the history. -/
structure Listing.Unrolls (steps : Listing) (b : Body) (h : History) (a : Assembly) : Prop where
  performs : Assembly.Performs { body := b } h a
  body : (steps.run b).2.1 = a.body
  steps : (∀ step ∈ steps, step.isSingle = true) → (steps.run b).1 = .ok () → h.map (·.1) = steps

theorem Listing.exists_unrolls (steps : Listing) (b : Body) : ∃ h a, steps.Unrolls b h a := by
  have outcome := (Assembly.stepwise_performing.runSteps steps { body := b }).outcome trivial
  cases ran : Assembly.runSteps steps { body := b } with
  | ok u a =>
    rw [ran] at outcome
    obtain ⟨-, ⟨h, performs⟩, -⟩ := outcome
    have body : (steps.run b).2.1 = a.body := by rw [run, ran]
    by_cases single : ∀ step ∈ steps, step.isSingle = true
    · obtain ⟨h, performs, same⟩ := Assembly.exists_performs_of_single single ran
      exact ⟨h, a, performs, body, fun _ _ => same⟩
    · exact ⟨h, a, performs, body, fun all => absurd all single⟩
  | error e a =>
    rw [ran] at outcome
    obtain ⟨-, h, performs⟩ := outcome
    refine ⟨h, a, performs, by rw [run, ran], fun _ done => ?_⟩
    rw [run, ran] at done
    cases done

end ClassForge
