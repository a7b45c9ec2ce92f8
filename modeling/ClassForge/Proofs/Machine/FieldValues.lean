import ClassForge.Proofs.Machine.Blindness
import ClassForge.Proofs.Machine.Objects
import ClassForge.Proofs.Machine.StackRoom

namespace ClassForge

/-- A value that is put into a field of an object. -/
structure Put where
  on : Address
  field : String
  value : Value

namespace Put

def into (x : Address) (fields : Std.TreeMap String Value) (p : Put) : Std.TreeMap String Value :=
  if p.on = x then fields.insert p.field p.value else fields

def value? (p : Put) (x : Address) (name : String) : Option Value :=
  if p.on = x ∧ p.field = name then some p.value else none

theorem getElem?_into (x : Address) (fields : Std.TreeMap String Value) (p : Put) (name : String) :
    (p.into x fields)[name]? = (p.value? x name).or fields[name]? := by
  rw [into, value?]
  by_cases own : p.on = x
  · rw [if_pos own, Std.TreeMap.getElem?_insert]
    by_cases same : p.field = name
    · rw [if_pos (Std.LawfulEqCmp.compare_eq_iff_eq.2 same), if_pos ⟨own, same⟩, Option.some_or]
    · rw [if_neg fun equal => same (Std.LawfulEqCmp.compare_eq_iff_eq.1 equal),
        if_neg fun both => same both.2, Option.none_or]
  · rw [if_neg own, if_neg fun both => own both.1, Option.none_or]

theorem getElem?_foldl_into (x : Address) (puts : List Put) (fields : Std.TreeMap String Value)
    (name : String) : (puts.foldl (into x) fields)[name]? =
      (puts.filterMap (·.value? x name)).getLast?.or fields[name]? := by
  induction puts generalizing fields with
  | nil => rfl
  | cons p rest ih =>
    rw [List.foldl_cons, ih, getElem?_into, ← Option.or_assoc, List.filterMap_cons]
    cases p.value? x name with
    | none => rw [Option.or_none]
    | some v => rw [List.getLast?_cons, Option.or_some]

end Put

namespace Heap

/-- These values are put into fields, one after the other, and nothing else. -/
def Puts (h : Heap) (ps : List Put) (h' : Heap) : Prop := ∀ x k fields,
  h.get x = .plain k fields → h'.get x = .plain k (ps.foldl (Put.into x) fields)

variable {h h' h'' : Heap} {ps more : List Put}

theorem KeepsPlain.puts (keeps : KeepsPlain h h') : h.Puts [] h' := keeps

theorem Puts.trans (first : h.Puts ps h') (second : h'.Puts more h'') :
    h.Puts (ps ++ more) h'' := by
  intro x k fields held
  rw [List.foldl_append]
  exact second x k _ (first x k fields held)

theorem puts_modify {x : Address} {k : LoadedClass} {fields : Std.TreeMap String Value}
    (held : h.get x = .plain k fields) (name : String) (v : Value) :
    h.Puts [⟨x, name, v⟩] (h.modify x fun _ => .plain k (fields.insert name v)) := by
  intro y l others there
  rw [List.foldl_cons, List.foldl_nil, Put.into]
  by_cases own : x = y
  · subst own
    rw [held] at there
    cases there
    rw [get_modify (lt_size_of_plain held), if_pos rfl]
  · rw [get_modify_of_ne (Ne.symm own), there, if_neg own]

end Heap

namespace Machine

open Outcome

variable {m m' : Machine} {o v : Value} {name : String}

theorem getField_eq_ok (done : getField o name m = .ok v m') : ∃ x k fields,
    o = .reference x ∧ m.heap.get x = .plain k fields ∧ fields[name]? = some v := by
  cases o with
  | reference x =>
    rw [getField, bind_of_ok (target_reference m x), bind_of_ok (object_eq m x)] at done
    cases plain : m.heap.get x with
    | plain k fields =>
      rw [plain] at done
      cases found : fields[name]? with
      | some w =>
        simp only [found] at done
        cases done
        exact ⟨x, k, fields, rfl, plain, found⟩
      | none =>
        simp only [found] at done
        cases done
    | _ =>
      rw [plain] at done
      cases done
  | _ => cases done

theorem putField_cases (m : Machine) (o : Value) (name : String) (v : Value) :
    (∃ x k fields, o = .reference x ∧ m.heap.get x = .plain k fields ∧
      putField o name v m = .ok () (m.changing x fun _ => .plain k (fields.insert name v))) ∨
    ∃ e, putField o name v m = .error e m := by
  cases o with
  | reference x =>
    rw [putField, bind_of_ok (target_reference m x), bind_of_ok (object_eq m x)]
    cases plain : m.heap.get x with
    | plain k fields =>
      dsimp only
      by_cases declared : fields.contains name = true
      · rw [if_pos declared]
        exact .inl ⟨x, k, fields, rfl, plain, rfl⟩
      · rw [if_neg declared]
        exact .inr ⟨_, rfl⟩
    | _ => exact .inr ⟨_, rfl⟩
  | _ => exact .inr ⟨_, rfl⟩

end Machine

theorem Operation.exists_of_putsField {τ : Type} {o : Operation τ} (puts : o.putsField = true) :
    ∃ i, o = .field .put i := by
  cases o with
  | field access i =>
    cases access with
    | put => exact ⟨i, rfl⟩
    | _ => cases puts
  | _ => cases puts

namespace Run

open Outcome

/-- What the instruction at hand puts into a field, if it comes to its end. The class that its
reference to the field names makes no difference. -/
def put? (r : Run) : Option Put :=
  match step r, Operation.decode r.activation.bytes r.activation.pc, r.activation.stack with
  | .ok .., .ok (.field .put i, _), v :: .reference x :: _ =>
    (r.activation.owner.pool.memberAt? i).map fun f => ⟨x, f.name, v⟩
  | _, _, _ => none

variable {r r' : Run} {i : Index} {f : MemberRef} {v : Value} {u : Unit}

structure At (r : Run) (o : Index → Operation (Option Int16)) (f : MemberRef)
    (stack : List Value) : Prop where
  read : ∃ i next, Operation.decode r.activation.bytes r.activation.pc = .ok (o i, next) ∧
    r.activation.owner.pool.memberAt? i = some f
  stack : r.activation.stack = stack

theorem put?_of_at {x : Address} {rest : List Value} {flow : Flow}
    (place : r.At (.field .put) f (v :: .reference x :: rest)) (stepped : step r = .ok flow r') :
    r.put? = some ⟨x, f.name, v⟩ := by
  obtain ⟨i, next, read, named⟩ := place.read
  rw [put?, stepped, read, place.stack]
  dsimp only
  rw [named, Option.map_some]

theorem member_eq_ok (done : member i r = .ok f r') :
    r' = r ∧ r.activation.owner.pool.memberAt? i = some f := by
  obtain ⟨p, r₁, got, read⟩ := bind_ok done
  cases got
  cases named : r.activation.owner.pool.memberAt? i with
  | some g =>
    rw [named] at read
    cases read
    exact ⟨rfl, rfl⟩
  | none =>
    rw [named] at read
    cases read

theorem stack_of_pop (done : pop r = .ok v r') :
    r.activation.stack = v :: r'.activation.stack ∧ r'.machine = r.machine := by
  obtain ⟨popped, machine⟩ := pop_ok done
  obtain ⟨rest, holds, -, after⟩ := Activation.pop_eq_ok popped
  rw [after]
  exact ⟨holds, machine⟩

theorem pop_of_popReference (done : popReference r = .ok v r') : pop r = .ok v r' := by
  obtain ⟨w, r₁, popped, done⟩ := bind_ok done
  cases w with
  | reference x | null =>
    cases done
    exact popped
  | _ => cases done

theorem field_get_eq_ok (done : field .get i r = .ok u r') : ∃ f v x rest k fields,
    r.activation.owner.pool.memberAt? i = some f ∧
      r.activation.stack = .reference x :: rest ∧ r.machine.heap.get x = .plain k fields ∧
      fields[f.name]? = some v ∧ r'.activation.stack = v :: rest := by
  obtain ⟨f, r₁, read, got⟩ := bind_ok done
  obtain ⟨rfl, named⟩ := member_eq_ok read
  obtain ⟨o, r₂, target, got⟩ := bind_ok got
  obtain ⟨v, r₃, ran, pushed⟩ := bind_ok got
  obtain ⟨stack, machine⟩ := stack_of_pop (pop_of_popReference target)
  obtain ⟨ran, same⟩ := onMachine_eq_ok ran
  obtain ⟨x, k, fields, rfl, plain, found⟩ := Machine.getField_eq_ok ran
  rw [machine] at plain
  obtain ⟨-, after⟩ := Activation.push_eq_ok (onActivation_eq_ok pushed)
  rw [after, same]
  exact ⟨f, v, x, _, k, fields, named, stack, plain, found, rfl⟩

def putOperands (i : Index) : RunM (MemberRef × Value × Value) := do
  let f ← member i
  let v ← pop
  let o ← popReference
  return (f, v, o)

theorem field_put_eq (i : Index) : field .put i =
    putOperands i >>= fun x => onMachine (Machine.putField x.2.2 x.1.name x.2.1) := by
  simp only [field, putOperands, bind_assoc, pure_bind]

theorem operates_putOperands (i : Index) : Operates {} (putOperands i) := by
  apply (operates_member i).bind
  intro f
  apply Operates.pop.bind
  intro v
  apply operates_popReference.bind
  intro o
  exact .pure _

theorem putOperands_eq_ok {o : Value} (done : putOperands i r = .ok (f, v, o) r') :
    r.activation.owner.pool.memberAt? i = some f ∧
      (∃ rest, r.activation.stack = v :: o :: rest) ∧ r'.machine = r.machine := by
  obtain ⟨f, r₁, read, taken⟩ := bind_ok done
  obtain ⟨rfl, named⟩ := member_eq_ok read
  obtain ⟨v, r₂, popped, taken⟩ := bind_ok taken
  obtain ⟨o, r₃, target, taken⟩ := bind_ok taken
  cases taken
  obtain ⟨stack, machine⟩ := stack_of_pop popped
  obtain ⟨under, machine'⟩ := stack_of_pop (pop_of_popReference target)
  rw [under] at stack
  exact ⟨named, ⟨_, stack⟩, machine'.trans machine⟩

theorem field_put_cases (i : Index) (r : Run) :
    (∃ f v x rest r', field .put i r = .ok () r' ∧ r.activation.owner.pool.memberAt? i = some f ∧
      r.activation.stack = v :: .reference x :: rest ∧
      r.machine.heap.Puts [⟨x, f.name, v⟩] r'.machine.heap) ∨
    ∃ e r', field .put i r = .error e r' ∧ r.machine.heap.KeepsPlain r'.machine.heap := by
  have kept := (operates_putOperands i).sparesPlain rfl r
  rw [field_put_eq]
  cases taken : putOperands i r with
  | error e r' =>
    rw [taken] at kept
    exact .inr ⟨e, r', bind_of_error taken, kept⟩
  | ok operands r₁ =>
    rw [taken] at kept
    obtain ⟨f, v, o⟩ := operands
    obtain ⟨named, ⟨rest, stack⟩, machine⟩ := putOperands_eq_ok taken
    rw [bind_of_ok taken]
    rcases Machine.putField_cases r₁.machine o f.name v with
      ⟨x, k, fields, rfl, plain, done⟩ | ⟨e, failed⟩
    · refine .inl ⟨f, v, x, rest, _, by rw [onMachine, done], named, stack, ?_⟩
      rw [machine] at plain ⊢
      exact Heap.puts_modify plain f.name v
    · exact .inr ⟨e, r₁, by rw [onMachine, failed], kept⟩

theorem sparesPlain_jump (start next : Nat) (d : Option Int16) (taken : Bool) :
    SparesPlain (jump start next d taken) := by
  refine sparesPlain_of_machine fun r => ?_
  cases d with
  | none => rfl
  | some d =>
    cases taken with
    | false => rfl
    | true =>
      have opened : jump start next (some d) true r =
          (if (start : Int) + d.toInt < 0 ∨ r.activation.bytes.size ≤ (start : Int) + d.toInt then
            violation (.leavesCode start)
          else setPc ((start : Int) + d.toInt).toNat : RunM Unit) r := rfl
      rw [opened]
      split <;> rfl

theorem sparesPlain_setPc (pc : Nat) : SparesPlain (setPc pc) := fun _ => .refl _

theorem sparesPlain_going {act : RunM Unit} (spares : SparesPlain act) :
    SparesPlain (going act) := spares.bind fun _ _ => .refl _

theorem sparesPlain_perform (start next : Nat) {o : Operation (Option Int16)}
    (spares : o.putsField = false) : SparesPlain (perform start next o) := by
  cases target : o.target? with
  | none =>
    obtain ⟨work, same, operates, -⟩ := straight_perform start next target
    rw [same]
    exact (sparesPlain_setPc next).bind fun _ => operates.sparesPlain spares
  | some t =>
    cases o with
    | branch c d =>
      have tests : Operates {} (test c) := operates_test c
      refine (sparesPlain_setPc _).bind fun _ => sparesPlain_going ?_
      exact (tests.sparesPlain rfl).bind fun _ => sparesPlain_jump _ _ _ _
    | goto d =>
      exact (sparesPlain_setPc _).bind fun _ => sparesPlain_going (sparesPlain_jump _ _ _ _)
    | _ => cases target

theorem put?_eq_none {o : Operation (Option Int16)} {next : Nat}
    (read : Operation.decode r.activation.bytes r.activation.pc = .ok (o, next))
    (spares : o.putsField = false) : r.put? = none := by
  rw [put?, read]
  split
  · rename_i same _
    cases same
    cases spares
  · rfl

/-- What the instruction at hand puts into a field is all that becomes of fields, also if it
fails. -/
theorem step_puts (r : Run) : r.machine.heap.Puts r.put?.toList (behind (step r)).machine.heap := by
  cases read : Operation.decode r.activation.bytes r.activation.pc with
  | error fault =>
    have failed := step_of_fault read
    have nothing : r.put? = none := by rw [put?, failed]
    rw [nothing, failed]
    exact Heap.KeepsPlain.puts (.refl _)
  | ok found =>
    obtain ⟨o, next⟩ := found
    cases putting : o.putsField with
    | false =>
      rw [put?_eq_none read putting, step_of_decode read]
      exact Heap.KeepsPlain.puts (sparesPlain_perform _ _ putting r)
    | true =>
      obtain ⟨i, rfl⟩ := Operation.exists_of_putsField putting
      rcases field_put_cases i ⟨{ r.activation with pc := next }, r.machine⟩ with
        ⟨f, v, x, rest, r', done, named, stack, puts⟩ | ⟨e, r', failed, kept⟩
      · have stepped : step r = .ok .next r' := (step_of_decode read).trans (bind_of_ok done)
        have named : r.activation.owner.pool.memberAt? i = some f := named
        have here : r.put? = some ⟨x, f.name, v⟩ :=
          put?_of_at ⟨⟨i, next, read, named⟩, stack⟩ stepped
        rw [here, stepped]
        exact puts
      · have gone : going (field .put i) ⟨{ r.activation with pc := next }, r.machine⟩ =
            .error e r' := bind_of_error failed
        have stepped : step r = .error e r' := (step_of_decode read).trans gone
        have nothing : r.put? = none := by rw [put?, stepped]
        rw [nothing, stepped]
        exact Heap.KeepsPlain.puts kept

theorem step_get {x : Address} {rest : List Value} {flow : Flow} {k : LoadedClass}
    {fields} (place : r.At (.field .get) f (.reference x :: rest))
    (held : r.machine.heap.get x = .plain k fields) (stepped : step r = .ok flow r') :
    flow = .next ∧ ∃ v, fields[f.name]? = some v ∧ r'.activation.stack = v :: rest := by
  obtain ⟨i, next, read, named⟩ := place.read
  rw [step_of_decode read] at stepped
  obtain ⟨rfl, done⟩ := going_ok stepped
  obtain ⟨f', v, y, rest', l, others, named', stack', held', found, pushed⟩ :=
    field_get_eq_ok done
  have named' : r.activation.owner.pool.memberAt? i = some f' := named'
  have stack' : r.activation.stack = .reference y :: rest' := stack'
  have held' : r.machine.heap.get y = .plain l others := held'
  cases named.symm.trans named'
  cases place.stack.symm.trans stack'
  cases held.symm.trans held'
  exact ⟨rfl, v, found, pushed⟩

end Run

namespace Activation

def onward (next : Activation → Machine → List Run) :
    EStateM.Result MachineError Machine Activation → List Run
  | .ok a m => next a m
  | .error .. => []

/-- A run wherever it begins an instruction, those of the methods among them that are called. -/
def trace : Nat → Activation → Machine → List Run
  | 0, _, _ => []
  | fuel + 1, a, m => ⟨a, m⟩ ::
    match Run.step ⟨a, m⟩ with
    | .error .. | .ok (.leave _) _ => []
    | .ok .next r => trace fuel r.activation r.machine
    | .ok (.raise v) r => onward (trace fuel) (r.activation.catching a.pc v r.machine)
    | .ok (.call callee) r => trace fuel callee r.machine ++
      match callee.exec fuel r.machine with
      | .ok v m =>
        match Run.answered v ⟨r.activation, m⟩ with
        | .ok _ r => trace fuel r.activation r.machine
        | .error .. => []
      | .error (.thrown v) m => onward (trace fuel) (r.activation.catching a.pc v m)
      | .error .. => []

end Activation

/-- The way of a heap through runs: what each of them puts into fields, and nothing between. -/
inductive Heap.Threads : Heap → List Run → Heap → Prop where
  | nil {h h' : Heap} (keeps : h.KeepsPlain h') : Threads h [] h'
  | cons {h h₁ h' : Heap} {r : Run} {rest : List Run} (begins : h.KeepsPlain r.machine.heap)
    (puts : r.machine.heap.Puts r.put?.toList h₁) (threads : Threads h₁ rest h') :
    Threads h (r :: rest) h'

namespace Heap.Threads

variable {h h₁ h' : Heap} {rs more : List Run} {r : Run}

theorem before (keeps : h.KeepsPlain h₁) (threads : Threads h₁ rs h') : Threads h rs h' := by
  cases threads with
  | nil same => exact .nil (keeps.trans same)
  | cons begins puts threads => exact .cons (keeps.trans begins) puts threads

theorem append (first : Threads h rs h₁) (second : Threads h₁ more h') :
    Threads h (rs ++ more) h' := by
  induction first with
  | nil keeps => exact second.before keeps
  | cons begins puts _ ih => exact .cons begins puts (ih second)

theorem split (threads : Threads h (rs ++ more) h') :
    ∃ h₁, Threads h rs h₁ ∧ Threads h₁ more h' := by
  induction rs generalizing h with
  | nil => exact ⟨h, .nil (.refl h), threads⟩
  | cons r rest ih =>
    cases threads with
    | cons begins puts threads =>
      obtain ⟨h₁, first, second⟩ := ih threads
      exact ⟨h₁, .cons begins puts first, second⟩

theorem puts (threads : Threads h rs h') : h.Puts (rs.filterMap Run.put?) h' := by
  induction threads with
  | nil keeps => exact KeepsPlain.puts keeps
  | @cons h h₁ h' r rest begins puts _ ih =>
    have all := ((KeepsPlain.puts begins).trans puts).trans ih
    rw [List.filterMap_cons]
    cases here : r.put? with
    | none =>
      rw [here] at all
      exact all
    | some p =>
      rw [here] at all
      exact all

theorem between {s : Run} {pre mid post : List Run}
    (threads : Threads h (pre ++ r :: mid ++ s :: post) h') :
    r.machine.heap.Puts ((r :: mid).filterMap Run.put?) s.machine.heap := by
  obtain ⟨_, first, second⟩ := threads.split
  obtain ⟨_, -, first⟩ := first.split
  cases first with
  | cons _ puts rest =>
    cases second with
    | cons begins _ _ =>
      have within := (cons (.refl _) puts rest).puts.trans (KeepsPlain.puts begins)
      rw [List.append_nil] at within
      exact within

end Heap.Threads

namespace Activation

open Heap (Threads)
open Machine (behind)

theorem threads_onward {fuel : Nat} (runs : ∀ (a : Activation) (m : Machine),
    Threads m.heap (a.trace fuel m) (behind (a.exec fuel m)).heap) (a : Activation) (start : Nat)
    (v : Value) (m : Machine) : Threads m.heap (onward (trace fuel) (a.catching start v m))
      (behind ((do (← a.catching start v).exec fuel) m)).heap := by
  have kept := (operates_catching a start v).keepsPlain m
  change Threads _ _ (behind (EStateM.bind _ _ m)).heap
  unfold EStateM.bind
  cases caught : a.catching start v m with
  | ok b m' =>
    rw [caught] at kept
    exact (runs b m').before kept
  | error e m' =>
    rw [caught] at kept
    exact .nil kept

theorem threads (fuel : Nat) (a : Activation) (m : Machine) :
    Threads m.heap (a.trace fuel m) (behind (a.exec fuel m)).heap := by
  induction fuel generalizing a m with
  | zero => exact .nil (.refl _)
  | succ fuel ih =>
    have puts := Run.step_puts ⟨a, m⟩
    rw [exec_succ_eq, trace]
    refine .cons (.refl _) puts ?_
    cases stepped : Run.step ⟨a, m⟩ with
    | error e r => exact .nil (.refl _)
    | ok f r =>
      cases f with
      | next => exact ih _ _
      | leave v => exact .nil (.refl _)
      | raise v => exact threads_onward ih _ _ _ _
      | call callee =>
        have called := ih callee r.machine
        refine called.append ?_
        dsimp only
        cases callee.exec fuel r.machine with
        | ok v m' =>
          dsimp only
          have answers : Run.Operates {} (Run.answered v) := Run.operates_answered v
          have kept := answers.sparesPlain rfl ⟨r.activation, m'⟩
          cases answered : Run.answered v ⟨r.activation, m'⟩ with
          | ok _ r' =>
            rw [answered] at kept
            exact (ih _ _).before kept
          | error e r' =>
            rw [answered] at kept
            exact .nil kept
        | error e m' =>
          cases e with
          | thrown v => exact threads_onward ih _ _ _ _
          | _ => exact .nil (.refl _)

end Activation

def Run.lastPut? (x : Address) (name : String) (rs : List Run) : Option Value :=
  (rs.filterMap fun r => r.put?.bind (·.value? x name)).getLast?

theorem Heap.Puts.field {h h' : Heap} {rs : List Run} (puts : h.Puts (rs.filterMap Run.put?) h')
    {x : Address} {k : LoadedClass} {fields : Std.TreeMap String Value}
    (held : h.get x = .plain k fields) : ∃ fields', h'.get x = .plain k fields' ∧
      ∀ name, fields'[name]? = (Run.lastPut? x name rs).or fields[name]? := by
  refine ⟨_, puts x k fields held, fun name => ?_⟩
  rw [Put.getElem?_foldl_into, List.filterMap_filterMap, Run.lastPut?]

namespace Machine

open Activation Run Outcome

/-- Before a program gets to an instruction, a field of an object that there was at an earlier one
has the value that was put last into a field of this name, whichever class the reference named, and
else the value that it had. The last of all puts is what the field has after the program, whatever
becomes of that. Handlers answer as they like, but put nothing into fields themselves. -/
theorem field_of_trace (fuel : Nat) (a : Activation) (m : Machine) :
    (∀ x k fields, m.heap.get x = .plain k fields →
      ∃ fields', (behind (a.exec fuel m)).heap.get x = .plain k fields' ∧
        ∀ name, fields'[name]? = (lastPut? x name (a.trace fuel m)).or fields[name]?) ∧
    ∀ pre r mid s post, a.trace fuel m = pre ++ r :: mid ++ s :: post →
      ∀ x k fields, r.machine.heap.get x = .plain k fields →
        (∀ f v rest flow r', r.At (.field .put) f (v :: .reference x :: rest) →
          step r = .ok flow r' → r.put? = some ⟨x, f.name, v⟩) ∧
        (∀ name v, (lastPut? x name (r :: mid)).or fields[name]? = some v →
          getField (.reference x) name s.machine = .ok v s.machine) ∧
        ∀ f rest flow s', s.At (.field .get) f (.reference x :: rest) → step s = .ok flow s' →
          flow = .next ∧ ∃ v, s'.activation.stack = v :: rest ∧
            (lastPut? x f.name (r :: mid)).or fields[f.name]? = some v := by
  have threads := a.threads fuel m
  refine ⟨fun x k fields held => threads.puts.field held, ?_⟩
  intro pre r mid s post runs x k fields held
  rw [runs] at threads
  obtain ⟨fields', there, values⟩ := threads.between.field held
  refine ⟨fun f v rest flow r' place stepped => put?_of_at place stepped,
    fun name v value => ?_, ?_⟩
  · rw [← values] at value
    exact getField_of_plain there value
  · intro f rest flow s' place stepped
    obtain ⟨rfl, v, found, pushed⟩ := step_get place there stepped
    exact ⟨rfl, v, pushed, (values f.name).symm.trans found⟩

/-- The file of a class that declares a field `x` of type int, a constructor that calls the one of
the class above, and more methods. -/
def declaringField (name above : String) (more : List Entry) (methods : List (List UInt8)) :
    List UInt8 :=
  let text (s : String) : Entry := .utf8 (Text.ModifiedUtf8.encode s)
  let entries := [text name, .classRef 1, text above, .classRef 3, text "x", text "I",
    text constructorName, text "()V", text "Code", .nameAndType 7 8, .member .method 4 10] ++ more
  let constructor : List UInt8 :=
    [0, 1, 0, 7, 0, 8, 0, 1, 0, 9, 0, 0, 0, 17, 0, 1, 0, 1, 0, 0, 0, 5, 0x2a, 0xb7, 0, 11, 0xb1,
      0, 0, 0, 0]
  [0xca, 0xfe, 0xba, 0xbe, 0, 0, 0, 49] ++ Bytes.ofU16 (UInt16.ofNat (entries.length + 1)) ++
    entries.flatMap Entry.bytes ++
    [0, 0x21, 0, 2, 0, 4, 0, 0, 0, 1, 0, 0, 0, 5, 0, 6, 0, 0] ++
    Bytes.ofU16 (UInt16.ofNat (methods.length + 1)) ++ constructor ++ methods.flatten ++ [0, 0]

def upperClass : List UInt8 := declaringField "A" objectClass [] []

/-- A class below with a field of its own. Its method puts 1 into the field of the class above, then
2 into its own, and returns what the field above has. -/
def lowerClass : List UInt8 :=
  declaringField "B" "A" [.nameAndType 5 6, .member .field 4 12, .member .field 2 12,
    .utf8 (Text.ModifiedUtf8.encode "f"), .utf8 (Text.ModifiedUtf8.encode "()I")]
    [[0, 1, 0, 15, 0, 16, 0, 1, 0, 9, 0, 0, 0, 27, 0, 2, 0, 1, 0, 0, 0, 15,
      0x2a, 0x04, 0xb5, 0, 13, 0x2a, 0x05, 0xb5, 0, 14, 0x2a, 0xb4, 0, 13, 0xac, 0, 0, 0, 0]]

def shared : MachineM Activation := do
  let _ ← define upperClass
  let _ ← define lowerClass
  let v ← newInstance 9 "B" "()V" []
  match ← Dispatch.virtual "f" "()I" [v] with
  | .entered a => return a
  | .answered _ => throw .outOfFuel

/-- The runs at the first put and at the get, with those between, where the object has been put the
value into last. -/
def putLast (v : Value) : List Run → Bool
  | [_, _, r, p, q, u, w, _, _] =>
    (match r.machine.heap.get ⟨0⟩ with
      | .plain .. => true
      | _ => false) && lastPut? ⟨0⟩ "x" [r, p, q, u, w] == some v
  | _ => false

theorem exists_of_putLast {v : Value} {rs : List Run} (last : putLast v rs = true) :
    ∃ pre r mid s post k fields, rs = pre ++ r :: mid ++ s :: post ∧
      r.machine.heap.get ⟨0⟩ = .plain k fields ∧ lastPut? ⟨0⟩ "x" (r :: mid) = some v := by
  unfold putLast at last
  split at last
  · rename_i first second r p q u w s e
    rw [Bool.and_eq_true] at last
    obtain ⟨plain, value⟩ := last
    split at plain
    · rename_i k fields held
      exact ⟨[first, second], r, [p, q, u, w], s, [e], k, fields, rfl, held, eq_of_beq value⟩
    · cases plain
  · cases last

theorem field_of_trace_shared : ∃ a m pre r mid s post k fields, shared {} = .ok a m ∧
    a.trace 9 m = pre ++ r :: mid ++ s :: post ∧ r.machine.heap.get ⟨0⟩ = .plain k fields ∧
    getField (.reference ⟨0⟩) "x" s.machine = .ok (.int 2) s.machine := by
  have shape : (match shared {} with
    | .ok a m => putLast (.int 2) (a.trace 9 m)
    | .error .. => false) = true := by decide +kernel
  split at shape
  · rename_i a m entered
    obtain ⟨pre, r, mid, s, post, k, fields, runs, held, last⟩ := exists_of_putLast shape
    have value : (lastPut? ⟨0⟩ "x" (r :: mid)).or fields["x"]? = some (.int 2) := by
      rw [last, Option.some_or]
    obtain ⟨-, got, -⟩ := (field_of_trace 9 a m).2 pre r mid s post runs ⟨0⟩ k fields held
    exact ⟨a, m, pre, r, mid, s, post, k, fields, entered, runs, held, got "x" _ value⟩
  · cases shape

/-- The field of the class above has the value that was put into the one below. -/
theorem not_fields_apart : ∃ m₁ m₂ v m₃ m₄, define upperClass {} = .ok "A" m₁ ∧
    define lowerClass m₁ = .ok "B" m₂ ∧ newInstance 9 "B" "()V" [] m₂ = .ok v m₃ ∧
    invokeVirtual 9 v "f" "()I" [] m₃ = .ok (some (.int 2)) m₄ := by
  have ran : (((do
      let upper ← define upperClass
      let lower ← define lowerClass
      let v ← newInstance 9 "B" "()V" []
      return (upper, lower, ← invokeVirtual 9 v "f" "()I" []) :
      MachineM (String × String × Option Value)).run' {}).any fun x =>
        x == ("A", "B", some (.int 2))) = true := by decide +kernel
  obtain ⟨x, m, done, same⟩ := exists_of_any_run ran
  obtain ⟨upper, m₁, defined, done⟩ := run_bind_eq_ok.1 done
  obtain ⟨lower, m₂, defined', done⟩ := run_bind_eq_ok.1 done
  obtain ⟨v, m₃, made, done⟩ := run_bind_eq_ok.1 done
  obtain ⟨value, m₄, called, done⟩ := run_bind_eq_ok.1 done
  cases done
  cases eq_of_beq same
  exact ⟨m₁, m₂, v, m₃, _, defined, defined', made, called⟩

end Machine
end ClassForge
