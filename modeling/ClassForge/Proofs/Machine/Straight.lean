import ClassForge.Proofs.Code.Framing
import ClassForge.Proofs.Machine.Execution

namespace ClassForge

def Value.totalSlots (vs : List Value) : Nat := vs.foldr (fun v n => v.slots + n) 0

@[simp] theorem Value.totalSlots_nil : totalSlots [] = 0 := rfl

@[simp] theorem Value.totalSlots_cons (v : Value) (vs : List Value) :
    totalSlots (v :: vs) = v.slots + totalSlots vs := rfl

theorem Value.totalSlots_append (vs ws : List Value) :
    totalSlots (vs ++ ws) = totalSlots vs + totalSlots ws := by
  induction vs with
  | nil => simp
  | cons v vs ih => simp [ih, Nat.add_assoc]

theorem Value.totalSlots_reverse (vs : List Value) : totalSlots vs.reverse = totalSlots vs := by
  induction vs with
  | nil => rfl
  | cons v vs ih => simp [totalSlots_append, ih, Nat.add_comm]

namespace Activation

def holding (a : Activation) (pc : Nat) (stack : List Value) : Activation :=
  { a with pc := pc, stack := stack, depth := Value.totalSlots stack }

section

variable (a : Activation) (pc : Nat) (stack : List Value)

@[simp] theorem holding_stack : (a.holding pc stack).stack = stack := rfl

@[simp] theorem holding_depth : (a.holding pc stack).depth = Value.totalSlots stack := rfl

@[simp] theorem holding_locals : (a.holding pc stack).locals = a.locals := rfl

end

theorem ofCode_eq_ok {owner : LoadedClass} {name : String} {code : Code} {args : List Value}
    {a : Activation} (entered : ofCode owner name code args = .ok a) :
    a.owner = owner ∧ a.bytes = code.bytes.toArray ∧ a.maxStack = code.maxStack ∧
      a.holding 0 [] = a ∧ (slotsOf args).length ≤ code.maxLocals.toNat ∧
      a.locals = (slotsOf args ++
        List.replicate (code.maxLocals.toNat - (slotsOf args).length) none).toArray := by
  rw [ofCode] at entered
  split at entered
  · cases entered
  · rename_i fits
    cases entered
    exact ⟨rfl, rfl, rfl, rfl, Nat.not_lt.1 fits, rfl⟩

variable {a b c : Activation} {m m' m'' : Machine}

/-- With enough fuel the method ends as said. -/
def Settles (a : Activation) (m : Machine)
    (result : EStateM.Result MachineError Machine (Option Value)) : Prop :=
  ∃ enough, ∀ fuel, enough ≤ fuel → a.exec fuel m = result

def GoesOn (a : Activation) (m : Machine) (b : Activation) (m' : Machine) : Prop :=
  ∃ turns enough, ∀ fuel, enough ≤ fuel → a.exec (fuel + turns) m = b.exec fuel m'

theorem GoesOn.refl (a : Activation) (m : Machine) : a.GoesOn m a m := ⟨0, 0, fun _ _ => rfl⟩

theorem GoesOn.trans (first : a.GoesOn m b m') (second : b.GoesOn m' c m'') : a.GoesOn m c m'' := by
  obtain ⟨turns, enough, first⟩ := first
  obtain ⟨turns', enough', second⟩ := second
  refine ⟨turns' + turns, max enough enough', fun fuel le => ?_⟩
  rw [← Nat.add_assoc, first _ (by omega), second _ (by omega)]

theorem GoesOn.settles {result : EStateM.Result MachineError Machine (Option Value)}
    (first : a.GoesOn m b m') (last : b.Settles m' result) : a.Settles m result := by
  obtain ⟨turns, enough, first⟩ := first
  obtain ⟨enough', last⟩ := last
  refine ⟨max enough enough' + turns, fun fuel le => ?_⟩
  have split : fuel = (fuel - turns) + turns := by omega
  rw [split, first _ (by omega), last _ (by omega)]

theorem goesOn_of_step (stepped : Run.step ⟨a, m⟩ = .ok .next ⟨b, m'⟩) : a.GoesOn m b m' := by
  refine ⟨1, 0, fun fuel _ => ?_⟩
  rw [exec]
  simp only [stepped]

theorem settles_of_step {e : MachineError} (failed : Run.step ⟨a, m⟩ = .error e ⟨b, m'⟩) :
    a.Settles m (.error e m') := by
  refine ⟨1, fun fuel le => ?_⟩
  obtain ⟨fuel, rfl⟩ : ∃ n, fuel = n + 1 := ⟨fuel - 1, by omega⟩
  rw [exec]
  simp only [failed]

theorem Settles.unique {result result' : EStateM.Result MachineError Machine (Option Value)}
    (first : a.Settles m result) (second : a.Settles m result') : result = result' := by
  obtain ⟨enough, first⟩ := first
  obtain ⟨enough', second⟩ := second
  rw [← first (max enough enough') (by omega), second _ (by omega)]

/-- What an instruction does with operands and machine, if the method goes on behind it. What it
calls gives nothing. -/
inductive Does (a : Activation) (o : Operation (Option Int16)) (stack : List Value) (m : Machine)
    (stack' : List Value) (m' : Machine) : Prop where
  | next (performed : ∀ start pc next, Run.perform start next o ⟨a.holding pc stack, m⟩ =
      .ok .next ⟨a.holding next stack', m'⟩)
  | call {callee : Activation} {m₁ : Machine}
    (performed : ∀ start pc next, Run.perform start next o ⟨a.holding pc stack, m⟩ =
      .ok (.call callee) ⟨a.holding next stack', m₁⟩) (settles : callee.Settles m₁ (.ok none m'))

inductive Stops (a : Activation) (o : Operation (Option Int16)) (stack : List Value) (m : Machine) :
    EStateM.Result MachineError Machine (Option Value) → Prop where
  | leave {v : Option Value} {m' : Machine} (performed : ∀ start pc next, ∃ b,
      Run.perform start next o ⟨a.holding pc stack, m⟩ = .ok (.leave v) ⟨b, m'⟩) :
    Stops a o stack m (.ok v m')
  | fail {e : MachineError} {m' : Machine} (performed : ∀ start pc next, ∃ b,
      Run.perform start next o ⟨a.holding pc stack, m⟩ = .error e ⟨b, m'⟩) :
    Stops a o stack m (.error e m')

theorem Does.goesOn {o : Operation (Option Int16)} {stack stack' : List Value} {pc next : Nat}
    (does : a.Does o stack m stack' m') (read : Operation.decode a.bytes pc = .ok (o, next)) :
    (a.holding pc stack).GoesOn m (a.holding next stack') m' := by
  have step : Run.step ⟨a.holding pc stack, m⟩ =
      Run.perform pc next o ⟨a.holding pc stack, m⟩ := Run.step_of_decode read
  cases does with
  | next performed => exact goesOn_of_step (by rw [step, performed])
  | call performed settles =>
    obtain ⟨enough, settles⟩ := settles
    refine ⟨1, enough, fun fuel le => ?_⟩
    rw [exec]
    simp only [step, performed, settles fuel le]
    rfl

theorem Stops.settles {o : Operation (Option Int16)} {stack : List Value} {pc next : Nat}
    {result : EStateM.Result MachineError Machine (Option Value)}
    (stops : a.Stops o stack m result) (read : Operation.decode a.bytes pc = .ok (o, next)) :
    (a.holding pc stack).Settles m result := by
  have step : Run.step ⟨a.holding pc stack, m⟩ =
      Run.perform pc next o ⟨a.holding pc stack, m⟩ := Run.step_of_decode read
  refine ⟨1, fun fuel le => ?_⟩
  obtain ⟨fuel, rfl⟩ : ∃ n, fuel = n + 1 := ⟨fuel - 1, by omega⟩
  rw [exec]
  cases stops with
  | leave performed =>
    obtain ⟨b, performed⟩ := performed pc pc next
    simp only [step, performed]
  | fail performed =>
    obtain ⟨b, performed⟩ := performed pc pc next
    simp only [step, performed]

/-- Instructions one behind the other. Each may rely on room for the operands that it leaves. -/
inductive Plays (a : Activation) :
    List Instruction → List Value → Machine → List Value → Machine → Prop where
  | nil {stack : List Value} {m : Machine} : Plays a [] stack m stack m
  | cons {i : Instruction} {rest : List Instruction} {stack stack₁ stack' : List Value}
    {m m₁ m' : Machine} (straight : i.operation.target? = none)
    (falls : i.operation.fallsThrough = true)
    (moves : Value.totalSlots stack₁ = i.behind (Value.totalSlots stack))
    (does : Value.totalSlots stack₁ ≤ a.maxStack.toNat →
      a.Does (i.operation.map fun _ => none) stack m stack₁ m₁)
    (others : Plays a rest stack₁ m₁ stack' m') : Plays a (i :: rest) stack m stack' m'

theorem Plays.append {is js : List Instruction} {stack stack' stack'' : List Value}
    (first : a.Plays is stack m stack' m') (second : a.Plays js stack' m' stack'' m'') :
    a.Plays (is ++ js) stack m stack'' m'' := by
  induction first with
  | nil => exact second
  | cons straight falls moves does _ ih => exact .cons straight falls moves does (ih second)

/-- Instructions one of which ends the method. Those behind it do not matter. -/
def Ends (a : Activation) (is : List Instruction) (stack : List Value) (m : Machine)
    (result : EStateM.Result MachineError Machine (Option Value)) : Prop :=
  ∃ before last rest stack' m', is = before ++ last :: rest ∧ a.Plays before stack m stack' m' ∧
    last.operation.target? = none ∧ a.Stops (last.operation.map fun _ => none) stack' m' result

theorem Plays.ends {is js : List Instruction} {stack stack' : List Value}
    {result : EStateM.Result MachineError Machine (Option Value)}
    (first : a.Plays is stack m stack' m') (ends : a.Ends js stack' m' result) :
    a.Ends (is ++ js) stack m result := by
  obtain ⟨before, last, rest, stack'', m'', rfl, plays, straight, stops⟩ := ends
  exact ⟨is ++ before, last, rest, stack'', m'', by rw [List.append_assoc], first.append plays,
    straight, stops⟩

theorem Stops.ends {i : Instruction} {stack : List Value}
    {result : EStateM.Result MachineError Machine (Option Value)}
    (stops : a.Stops (i.operation.map fun _ => none) stack m result)
    (straight : i.operation.target? = none) (rest : List Instruction) :
    a.Ends (i :: rest) stack m result :=
  ⟨[], i, rest, stack, m, rfl, .nil, straight, stops⟩

structure Runs (a : Activation) (is : List Instruction) : Prop where
  goesOn : ∀ {js stack m m'}, js <+: is → a.Plays js [] m stack m' →
    ∃ pc, a.GoesOn m (a.holding pc stack) m'
  enough : ∀ {js i stack m m'}, js ++ [i] <+: is → a.Plays js [] m stack m' →
    i.pops ≤ Value.totalSlots stack
  settles : ∀ {m result}, a.Ends is [] m result → a.Settles m result

end Activation

namespace Body

open Activation (GoesOn Settles)

variable {b : Body} {code : Code} {s : DepthSearch} {a : Activation} {m m' : Machine}
  {stack stack' : List Value} {i : Nat}

theorem Finished.goesOn (finished : b.Finished code s) (bytes : a.bytes = code.bytes.toArray)
    (maxStack : a.maxStack = code.maxStack) {is : List Instruction}
    (plays : a.Plays is stack m stack' m') (met : s.At i (Value.totalSlots stack))
    (here : is <+: b.emitted.drop i) :
    s.At (i + is.length) (Value.totalSlots stack') ∧
      (a.holding (b.offset i) stack).GoesOn m
        (a.holding (b.offset (i + is.length)) stack') m' := by
  induction plays generalizing i with
  | nil => exact ⟨met, .refl _ _⟩
  | @cons instruction rest stack stack₁ stack' m m₁ m' straight falls moves does _ ih =>
    obtain ⟨l, handlers, places, analysed, -, -⟩ := finished.handlers
    obtain ⟨more, same⟩ := here
    have first : b.emitted[i]? = some instruction := by
      rw [← Nat.add_zero i, ← List.getElem?_drop, ← same]
      rfl
    have there : l.instructions[i]? = some instruction := (places.getElem? i).trans first
    have next : s.At (i + 1) (Value.totalSlots stack₁) := by
      rw [moves]
      exact analysed.next met there (.fall falls)
    have room : Value.totalSlots stack₁ ≤ a.maxStack.toNat := by
      rw [maxStack]
      exact Nat.le_trans (analysed.below _ _ next) finished.enough
    have onward := (does room).goesOn (bytes ▸ finished.decode_straight first straight)
    have behind : rest <+: b.emitted.drop (i + 1) := by
      refine ⟨more, ?_⟩
      rw [← List.tail_drop, ← same]
      rfl
    obtain ⟨last, goesOn⟩ := ih next behind
    rw [List.length_cons, ← Nat.add_assoc, Nat.add_right_comm]
    exact ⟨last, onward.trans goesOn⟩

theorem Finished.runs (finished : b.Finished code s) {owner : LoadedClass} {name : String}
    {args : List Value} (entered : Activation.ofCode owner name code args = .ok a) :
    a.Runs b.emitted := by
  obtain ⟨-, bytes, maxStack, start, -, -⟩ := Activation.ofCode_eq_ok entered
  obtain ⟨l, handlers, places, analysed, -, -⟩ := finished.handlers
  have opening {is : List Instruction} {stack' : List Value} {m m' : Machine}
      (here : is <+: b.emitted) (plays : a.Plays is [] m stack' m') :
      s.At (0 + is.length) (Value.totalSlots stack') ∧
        a.GoesOn m (a.holding (b.offset (0 + is.length)) stack') m' := by
    have goesOn := finished.goesOn bytes maxStack plays (i := 0) analysed.first here
    rwa [Body.offset, Instruction.offset_zero, start] at goesOn
  refine ⟨fun here plays => ⟨_, (opening here plays).2⟩, fun {is i _ _ _} here plays => ?_,
    fun ends => ?_⟩
  · obtain ⟨rest, emitted⟩ := here
    have before : is <+: b.emitted := ⟨i :: rest, by rw [← emitted, List.append_assoc]; rfl⟩
    have next : b.emitted[0 + is.length]? = some i := by simp [← emitted]
    exact analysed.pops_le (opening before plays).1 ((places.getElem? _).trans next)
  · obtain ⟨is, last, rest, stack', m', emitted, plays, straight, stops⟩ := ends
    have here : b.emitted[0 + is.length]? = some last := by simp [emitted]
    exact (opening ⟨last :: rest, emitted.symm⟩ plays).2.settles
      (stops.settles (bytes ▸ finished.decode_straight here straight))

end Body
end ClassForge
