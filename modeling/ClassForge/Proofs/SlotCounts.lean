import ClassForge.ClassBuilder.Basic
import ClassForge.Proofs.Code.Assembling
import ClassForge.Proofs.Descriptor.Decoding
import ClassForge.Proofs.Machine.Faults
import ClassForge.Proofs.Machine.Loading
import ClassForge.Proofs.Machine.Objects

namespace ClassForge

open Outcome (FailsAs)

namespace FieldType

theorem totalSlots_take_le (ts : List FieldType) (i : Nat) :
    totalSlots (ts.take i) ≤ totalSlots ts := by
  induction ts generalizing i with
  | nil => exact Nat.le_of_eq (congrArg totalSlots List.take_nil)
  | cons t rest ih =>
    cases i with
    | zero => exact Nat.zero_le _
    | succ i => exact Nat.add_le_add_left (ih i) t.slots

end FieldType

def MethodDescriptor.slotsWith (d : MethodDescriptor) (isStatic : Bool) : Nat :=
  Body.receiverSlots isStatic + d.paramSlots

namespace Pool

/-- The step may fail, but not for a count of slots. -/
abbrev Uncounted {α : Type} (m : PoolM α) : Prop := FailsAs (· ≠ .slotOverflow) m

theorem uncounted_intern (e : Entry) : Uncounted (intern e) := by
  constructor
  intro p e' q failed
  rw [intern] at failed
  split at failed
  · cases failed
  · dsimp only at failed
    split at failed
    · cases failed
      intro same
      cases same
    · cases failed

theorem uncounted_utf8 (text : String) : Uncounted (utf8 text) := by
  rw [utf8]
  split
  · exact .throw nofun
  · exact uncounted_intern _

theorem uncounted_classRef (name : String) : Uncounted (classRef name) :=
  (uncounted_utf8 _).bind fun i _ _ _ => uncounted_intern (.classRef i)

theorem uncounted_nameAndType (name descriptor : String) :
    Uncounted (nameAndType name descriptor) := by
  apply (uncounted_utf8 name).bind
  intro n _ _ _
  apply (uncounted_utf8 descriptor).bind
  intro d _ _ _
  exact uncounted_intern _

theorem uncounted_member (kind : MemberKind) (owner name descriptor : String) :
    Uncounted (member kind owner name descriptor) := by
  apply (uncounted_classRef owner).bind
  intro c _ _ _
  apply (uncounted_nameAndType name descriptor).bind
  intro nt _ _ _
  exact uncounted_intern _

end Pool

namespace Body

variable {text : String} {d : MethodDescriptor} {isStatic : Bool}

theorem slotsFrom_params (small : d.slotsWith isStatic ≤ 65535) :
    slotsFrom isStatic d.params = .ok (UInt16.ofNat (d.slotsWith isStatic)) :=
  (slotsFrom_eq isStatic d.params).trans (slotCount_of_le small)

theorem start_eq (decoded : MethodDescriptor.decode? text = some d)
    (small : d.slotsWith isStatic ≤ 65535) (pool : Pool) (cache : DescriptorCache) :
    (start pool cache text isStatic).1 = .ok {
      pool, cache := (cache.method? text).2, descriptor := d, isStatic
      maxLocals := UInt16.ofNat (d.slotsWith isStatic) } := by
  have found : (cache.method? text).1 = some d := (cache.method?_fst text).trans decoded
  unfold start
  simp only [found, slotsFrom_params small]

theorem paramSlot?_eq {b : Body} {i : Nat} (small : b.descriptor.slotsWith b.isStatic ≤ 65535)
    (inside : i < b.descriptor.params.length) : ∃ slot, b.paramSlot? i = .ok slot ∧
      slot.toNat = receiverSlots b.isStatic + FieldType.totalSlots (b.descriptor.params.take i) := by
  have before := FieldType.totalSlots_take_le b.descriptor.params i
  rw [MethodDescriptor.slotsWith, MethodDescriptor.paramSlots] at small
  have fits : receiverSlots b.isStatic + FieldType.totalSlots (b.descriptor.params.take i) ≤ 65535 := by
    omega
  refine ⟨_, ?_, toNat_slots fits⟩
  rw [paramSlot?, if_neg (Nat.not_le.2 inside), slotsFrom_eq, slotCount_of_le fits]

theorem method_eq (decoded : MethodDescriptor.decode? text = some d) (b : Body) :
    method text b = .ok d { b with cache := (b.cache.method? text).2 } := by
  have found : (b.cache.method? text).1 = some d := (b.cache.method?_fst text).trans decoded
  unfold method
  simp only [found]

theorem callSlots_eq (small : d.slotsWith isStatic ≤ 65535) (b : Body) :
    callSlots isStatic d b = .ok (d.slotsWith isStatic) b := by
  simp only [callSlots, slotsFrom_params small]
  exact congrArg (fun n => EStateM.Result.ok n b) (toNat_slots small)

theorem invoke_eq (decoded : MethodDescriptor.decode? text = some d) {kind : InvokeKind}
    (small : d.slotsWith (kind = .static) ≤ 65535) (owner name : String) (b : Body) :
    invoke kind owner name text b =
      match Pool.member .method owner name text b.pool with
      | .ok i p => .ok () { b with
        cache := (b.cache.method? text).2, pool := p
        items := b.items.push
          (.instruction ⟨.invoke kind i, d.slotsWith (kind = .static), d.returnSlots⟩) }
      | .error e p => .error e { b with cache := (b.cache.method? text).2, pool := p } := by
  rw [invoke, Outcome.bind_of_ok (method_eq decoded b), Outcome.bind_of_ok (callSlots_eq small _),
    referring_eq]
  dsimp only
  cases Pool.member .method owner name text b.pool with
  | ok i p => rfl
  | error e p => rfl

theorem invokeInterface_eq (decoded : MethodDescriptor.decode? text = some d)
    (small : d.slotsWith false ≤ 65535) (owner name : String) (b : Body) :
    invokeInterface owner name text b =
      match Pool.member .interfaceMethod owner name text b.pool with
      | .ok i p =>
        if 255 < d.slotsWith false then .error (.encoding (.manyArguments name text))
          { b with cache := (b.cache.method? text).2, pool := p }
        else .ok () { b with
          cache := (b.cache.method? text).2, pool := p
          items := b.items.push (.instruction ⟨.invokeInterface i (UInt8.ofNat (d.slotsWith false)),
            d.slotsWith false, d.returnSlots⟩) }
      | .error e p => .error e { b with cache := (b.cache.method? text).2, pool := p } := by
  rw [invokeInterface, Outcome.bind_of_ok (method_eq decoded b),
    Outcome.bind_of_ok (callSlots_eq small _), referring_eq]
  dsimp only
  cases Pool.member .interfaceMethod owner name text b.pool with
  | error e p => rfl
  | ok i p =>
    dsimp only
    by_cases many : 255 < d.slotsWith false
    · rw [if_pos many, if_pos many]
      rfl
    · rw [if_neg many, if_neg many]
      rfl

end Body

namespace ClassBuilder

theorem decodeDescriptor_of_decode? {text : String} {d : MethodDescriptor}
    (decoded : MethodDescriptor.decode? text = some d) (c : ClassBuilder) :
    decodeDescriptor text c = .ok d { c with cache := (c.cache.method? text).2 } := by
  have found : (c.cache.method? text).1 = some d := (c.cache.method?_fst text).trans decoded
  unfold decodeDescriptor
  simp only [found]

theorem checkSignature_eq {h : MethodHead} {d : MethodDescriptor}
    (decoded : MethodDescriptor.decode? h.descriptor = some d) (small : d.paramSlots ≤ 65535)
    (c : ClassBuilder) : checkSignature h c =
      let c' := { c with cache := (c.cache.method? h.descriptor).2 }
      if h.name = constructorName ∧ d.returns.isSome then
        .error (.encoding (.constructorReturns c.name h.descriptor)) c'
      else if 255 < d.slotsWith h.isStatic then
        .error (.encoding (.parameterSlots h.name h.descriptor (d.slotsWith h.isStatic))) c'
      else .ok () c' := by
  rw [checkSignature, Outcome.bind_of_ok (decodeDescriptor_of_decode? decoded c)]
  dsimp only
  by_cases gives : h.name = constructorName ∧ d.returns.isSome
  · rw [if_pos gives, if_pos gives]
    rfl
  · rw [if_neg gives, if_neg gives, d.paramSlots?_eq, slotCount_of_le small]
    dsimp only
    rw [toNat_slots small]
    by_cases many : 255 < d.slotsWith h.isStatic
    · have limit : maxParameterSlots < Body.receiverSlots h.isStatic + d.paramSlots := many
      rw [if_pos many, if_pos limit]
      rfl
    · have limit : ¬maxParameterSlots < Body.receiverSlots h.isStatic + d.paramSlots := many
      rw [if_neg many, if_neg limit]
      rfl

theorem checkSignature_of_lt (h : MethodHead) {d : MethodDescriptor}
    (decoded : MethodDescriptor.decode? h.descriptor = some d) (returns : d.returns = none)
    (large : 65535 < d.paramSlots) (c : ClassBuilder) :
    ∃ c', checkSignature h c = .error .slotOverflow c' := by
  rw [checkSignature, Outcome.bind_of_ok (decodeDescriptor_of_decode? decoded c), returns,
    d.paramSlots?_eq, slotCount_of_lt large, if_neg (by simp)]
  exact ⟨_, rfl⟩

theorem checkSignature_of_wide {h : MethodHead} {d : MethodDescriptor}
    (decoded : MethodDescriptor.decode? h.descriptor = some d) (small : d.paramSlots ≤ 65535)
    (wide : 255 < d.slotsWith h.isStatic) (c : ClassBuilder) :
    ∃ fault c', checkSignature h c = .error (.encoding fault) c' := by
  rw [checkSignature_eq decoded small]
  dsimp only
  split
  · exact ⟨_, _, rfl⟩
  · exact ⟨_, _, rfl⟩

theorem checkSignature_error {h : MethodHead} {d : MethodDescriptor}
    (decoded : MethodDescriptor.decode? h.descriptor = some d) (small : d.paramSlots ≤ 65535)
    {c c' : ClassBuilder} {e : Error} (refused : checkSignature h c = .error e c') :
    e ≠ .slotOverflow := by
  rw [checkSignature_eq decoded small] at refused
  dsimp only at refused
  split at refused
  · cases refused
    exact nofun
  · split at refused
    · cases refused
      exact nofun
    · cases refused

end ClassBuilder

namespace Machine

theorem loadMethod_eq {p : Pool} {x : Member} {name text : String} {d : MethodDescriptor}
    {code : Code} (named : x.name? p = some name) (typed : x.descriptor? p = some text)
    (decoded : MethodDescriptor.decode? text = some d) (coded : x.code? = some code)
    (small : d.slotsWith (isSet x.access Access.staticFlag) ≤ 65535) (owner : String) (m : Machine) :
    loadMethod owner p x m =
      let m' := m.remembering text
      let needed := d.slotsWith (isSet x.access Access.staticFlag)
      if code.maxLocals.toNat < needed then
        .error (.verify (.fewLocals owner name text code.maxLocals.toNat needed)) m'
      else .ok ⟨name, text, x.access, some code⟩ m' := by
  have name_read : readable .methodName (x.name? p) m = .ok name m := by rw [named]; rfl
  have type_read : readable .methodType (x.descriptor? p) m = .ok text m := by rw [typed]; rfl
  have counted := Body.slotsFrom_params small
  have compared : code.maxLocals < UInt16.ofNat (d.slotsWith (isSet x.access Access.staticFlag)) ↔
      code.maxLocals.toNat < d.slotsWith (isSet x.access Access.staticFlag) := by
    rw [UInt16.lt_iff_toNat_lt, toNat_slots small]
  have shown := toNat_slots small
  rw [MethodDescriptor.slotsWith] at counted compared shown ⊢
  rw [loadMethod, Outcome.bind_of_ok name_read, Outcome.bind_of_ok type_read,
    Outcome.bind_of_ok (decodeDescriptor_eq decoded m), coded]
  dsimp only [Method.isStatic]
  rw [counted]
  dsimp only
  by_cases short : code.maxLocals.toNat <
      Body.receiverSlots (isSet x.access Access.staticFlag) + d.paramSlots
  · rw [if_pos short, if_pos (compared.2 short), shown]
    rfl
  · rw [if_neg short, if_neg (mt compared.1 short)]
    rfl

end Machine

/-- A method with code whose receiver and parameters take more slots than can be counted. -/
def Member.Overfull (p : Pool) (x : Member) : Prop :=
  x.code?.isSome = true ∧ ∃ text d, x.descriptor? p = some text ∧
    MethodDescriptor.decode? text = some d ∧
    65535 < d.slotsWith (isSet x.access Access.staticFlag)

namespace Machine

variable {α : Type} {P : Prop}

/-- The step overflows for the given reason only. -/
abbrev OverflowsIf (P : Prop) (act : MachineM α) : Prop :=
  FailsAs (fun e => e.overflows = true → P) act

theorem overflowsIf_of_orderly {act : MachineM α} (orderly : Orderly act) : OverflowsIf P act := by
  constructor
  intro m e m' failed lost
  rw [(MachineError.orderly_iff.1 (orderly m e m' failed)).2] at lost
  cases lost

theorem overflowsIf_get : OverflowsIf P (get : MachineM Machine) := by
  constructor
  intro m e m' failed
  cases failed

theorem decode?_of_decodeDescriptor {text : String} {d : MethodDescriptor} {m m' : Machine}
    (done : decodeDescriptor text m = .ok d m') : MethodDescriptor.decode? text = some d := by
  have found := m.cache.method?_fst text
  unfold decodeDescriptor at done
  dsimp only at done
  split at done
  · rename_i decoded
    cases done
    exact found.symm.trans decoded
  · cases done

theorem overflowsIf_loadMethod (owner : String) (p : Pool) (x : Member) :
    OverflowsIf (x.Overfull p) (loadMethod owner p x) := by
  apply (overflowsIf_of_orderly (operates_readable _ _).orderly).bind
  intro name _ _ _
  apply (overflowsIf_of_orderly (operates_readable _ _).orderly).bind
  intro descriptor m m' typed
  apply (overflowsIf_of_orderly (operates_decodeDescriptor _).orderly).bind
  intro d m₁ m₂ decoded
  cases coded : x.code? with
  | none => exact .pure _
  | some code =>
    dsimp only [Method.isStatic]
    split
    · rename_i refused
      apply FailsAs.throw
      intro _
      refine ⟨by rw [coded]; rfl, descriptor, d, (readable_eq_ok typed).1,
        decode?_of_decodeDescriptor decoded, ?_⟩
      by_contra small
      cases (Body.slotsFrom_params (Nat.not_lt.1 small)).symm.trans refused
    · split
      · exact .throw nofun
      · exact .pure _

theorem overflowsIf_declare (c : ClassFile) (name : String) :
    OverflowsIf (∃ x ∈ c.methods, x.Overfull c.pool) (declare c name) := by
  have fields : OverflowsIf (∃ x ∈ c.methods, x.Overfull c.pool)
      (c.fields.foldlM (loadField c.pool) {}) :=
    FailsAs.foldlM (fun before x => overflowsIf_of_orderly (operates_loadField c.pool before x).orderly) {}
  apply fields.bind
  intro loaded _ _ _
  have methods : OverflowsIf (∃ x ∈ c.methods, x.Overfull c.pool)
      (c.methods.mapM (loadMethod name c.pool)) := by
    apply FailsAs.mapM
    intro x inside
    exact (overflowsIf_loadMethod name c.pool x).mono fun e overfull lost =>
      ⟨x, inside, overfull lost⟩
  apply methods.bind
  intro all _ _ _
  exact .pure _

theorem overflowsIf_define (bytes : List UInt8) : OverflowsIf
    (∃ c, ClassFile.parse bytes = .ok c ∧ ∃ x ∈ c.methods, x.Overfull c.pool) (define bytes) := by
  apply (overflowsIf_of_orderly (operates_parse bytes).orderly).bind
  intro c _ _ parsed
  have read := parse_eq_ok parsed
  apply (overflowsIf_of_orderly (operates_readable _ _).orderly).bind
  intro name _ _ _
  apply overflowsIf_get.bind
  intro here _ _ _
  split
  · exact .throw nofun
  · split
    · exact .throw nofun
    · apply (overflowsIf_of_orderly (operates_resolve _).orderly).bind
      intro superclass _ _ _
      have declared : OverflowsIf (∃ c, ClassFile.parse bytes = .ok c ∧
          ∃ x ∈ c.methods, x.Overfull c.pool) (declare c name) :=
        (overflowsIf_declare c name).mono fun e overfull lost => ⟨c, read, overfull lost⟩
      apply declared.bind
      intro parts _ _ _
      apply (overflowsIf_of_orderly (operates_note _).orderly).bind
      intro _ _ _ _
      apply (overflowsIf_of_orderly (Operates.modifyGet (fun _ _ => rfl) fun _ => .refl _).orderly).bind
      intro _ _ _ _
      exact .pure _

end Machine

/-- Wherever the descriptor is used, slots are counted exactly and without overflow. -/
structure MethodDescriptor.Counted (text : String) (d : MethodDescriptor) (isStatic : Bool) : Prop
    where
  sum : ∃ n, d.paramSlots? = .ok n ∧ n.toNat = d.paramSlots ∧
    slotCount (Body.receiverSlots isStatic + n.toNat) = .ok (UInt16.ofNat (d.slotsWith isStatic)) ∧
    (UInt16.ofNat (d.slotsWith isStatic)).toNat = d.slotsWith isStatic
  start (pool : Pool) (cache : DescriptorCache) : ∃ b,
    (Body.start pool cache text isStatic).1 = .ok b ∧ b.descriptor = d ∧ b.isStatic = isStatic ∧
    b.maxLocals.toNat = d.slotsWith isStatic
  param {b : Body} {i : Nat} (of : b.descriptor = d) (same : b.isStatic = isStatic)
    (inside : i < d.params.length) : ∃ slot, b.paramSlot? i = .ok slot ∧
      slot.toNat = Body.receiverSlots isStatic + FieldType.totalSlots (d.params.take i)
  invoke {kind : InvokeKind} (same : decide (kind = .static) = isStatic) (owner name : String)
    (b : Body) : match Body.invoke kind owner name text b with
      | .ok _ b' => ∃ i, b'.items =
        b.items.push (.instruction ⟨.invoke kind i, d.slotsWith isStatic, d.returnSlots⟩)
      | .error e _ => e ≠ .slotOverflow
  invokeInterface (same : isStatic = false) (owner name : String) (b : Body) :
    match Body.invokeInterface owner name text b with
    | .ok _ b' => ∃ i n, n.toNat = d.slotsWith isStatic ∧ b'.items =
      b.items.push (.instruction ⟨.invokeInterface i n, d.slotsWith isStatic, d.returnSlots⟩)
    | .error e _ => e ≠ .slotOverflow
  load {p : Pool} {x : Member} {name : String} {code : Code} (named : x.name? p = some name)
    (typed : x.descriptor? p = some text) (coded : x.code? = some code)
    (same : isSet x.access Access.staticFlag = isStatic) (owner : String) (m : Machine) : ∃ m',
      Machine.loadMethod owner p x m = if code.maxLocals.toNat < d.slotsWith isStatic then
        .error (.verify (.fewLocals owner name text code.maxLocals.toNat (d.slotsWith isStatic))) m'
      else .ok ⟨name, text, x.access, some code⟩ m'

namespace MethodDescriptor

variable {text : String} {d : MethodDescriptor} {isStatic : Bool}

theorem counted_of_le (decoded : decode? text = some d) (small : d.slotsWith isStatic ≤ 65535) :
    d.Counted text isStatic where
  sum := by
    have params : d.paramSlots ≤ 65535 := Nat.le_trans (Nat.le_add_left _ _) small
    have total : d.paramSlots? = .ok (UInt16.ofNat d.paramSlots) :=
      d.paramSlots?_eq.trans (slotCount_of_le params)
    refine ⟨_, total, toNat_slots params, ?_, toNat_slots small⟩
    rw [toNat_slots params]
    exact slotCount_of_le small
  start pool cache := ⟨_, Body.start_eq decoded small pool cache, rfl, rfl, toNat_slots small⟩
  param of same inside := by
    subst of same
    exact Body.paramSlot?_eq small inside
  invoke same owner name b := by
    subst same
    rw [Body.invoke_eq decoded small]
    have uncounted := Pool.uncounted_member .method owner name text
    cases made : Pool.member .method owner name text b.pool with
    | ok i p => exact ⟨i, rfl⟩
    | error e p => exact uncounted.error _ _ _ made
  invokeInterface same owner name b := by
    subst same
    rw [Body.invokeInterface_eq decoded small]
    have uncounted := Pool.uncounted_member .interfaceMethod owner name text
    cases made : Pool.member .interfaceMethod owner name text b.pool with
    | error e p => exact uncounted.error _ _ _ made
    | ok i p =>
      dsimp only
      by_cases many : 255 < d.slotsWith false
      · rw [if_pos many]
        exact nofun
      · rw [if_neg many]
        exact ⟨i, _, UInt8.toNat_ofNat_of_lt (Nat.lt_succ_of_le (Nat.not_lt.1 many)), rfl⟩
  load named typed coded same owner m := by
    subst same
    exact ⟨_, Machine.loadMethod_eq named typed decoded coded small owner m⟩

end MethodDescriptor

/-- A descriptor whose slots sixteen bits count is counted exactly wherever it is used, and a
signature of more than 255 slots is refused with an error. Whatever bytes there are define a class
or are refused with an error, unless they have a method with code that has more slots. -/
theorem slots_counted {text : String} {d : MethodDescriptor}
    (decoded : MethodDescriptor.decode? text = some d) :
    (∀ isStatic, d.slotsWith isStatic ≤ 65535 → d.Counted text isStatic) ∧
    (d.paramSlots ≤ 65535 → ∀ (h : MethodHead) c, h.descriptor = text →
      (255 < d.slotsWith h.isStatic → ∃ fault c',
        ClassBuilder.checkSignature h c = .error (.encoding fault) c') ∧
      ∀ e c', ClassBuilder.checkSignature h c = .error e c' → e ≠ .slotOverflow) ∧
    ∀ bytes m e m', Machine.define bytes m = .error e m' → e.overflows = true →
      ∃ c, ClassFile.parse bytes = .ok c ∧ ∃ x ∈ c.methods, x.Overfull c.pool := by
  refine ⟨fun isStatic small => d.counted_of_le decoded small, fun small h c same => ?_, ?_⟩
  · subst same
    exact ⟨fun wide => ClassBuilder.checkSignature_of_wide decoded small wide c,
      fun e c' refused => ClassBuilder.checkSignature_error decoded small refused⟩
  · intro bytes m e m' failed lost
    exact (Machine.overflowsIf_define bytes).error m e m' failed lost

namespace MethodDescriptor

def longs (n : Nat) : MethodDescriptor := ⟨List.replicate n .long, none⟩

theorem paramSlots_longs (n : Nat) : (longs n).paramSlots = 2 * n := by
  induction n with
  | zero => rfl
  | succ n ih =>
    have first : (longs (n + 1)).paramSlots = 2 + (longs n).paramSlots := rfl
    rw [first, ih, Nat.mul_succ, Nat.add_comm]

theorem decode?_longs (n : Nat) : decode? (longs n).descriptor = some (longs n) := by
  apply decode?_descriptor
  · intro t inside
    rw [List.eq_of_mem_replicate inside]
    decide
  · intro t given
    cases given

end MethodDescriptor

open MethodDescriptor in
theorem slots_counted_longs : decode? (longs 128).descriptor = some (longs 128) ∧
    (∃ b, (Body.start {} {} (longs 128).descriptor false).1 = .ok b ∧ b.maxLocals.toNat = 257) ∧
    ∀ c, ∃ fault c', ClassBuilder.checkSignature
      { name := "f", descriptor := (longs 128).descriptor } c = .error (.encoding fault) c' := by
  have slots : (longs 128).slotsWith false = 257 := by
    rw [slotsWith, paramSlots_longs]
    rfl
  obtain ⟨counts, checks, -⟩ := slots_counted (decode?_longs 128)
  obtain ⟨b, started, -, -, locals⟩ := (counts false (by omega)).start {} {}
  refine ⟨decode?_longs 128, ⟨b, started, locals.trans slots⟩, fun c => ?_⟩
  have small : (longs 128).paramSlots ≤ 65535 := by
    rw [paramSlots_longs]
    decide
  exact (checks small { name := "f", descriptor := (longs 128).descriptor } c rfl).1
    (Nat.lt_of_lt_of_eq (by decide) slots.symm)

theorem MethodDescriptor.checkSignature_longs {n : Nat} (large : 32767 < n) (c : ClassBuilder) :
    ∃ c', ClassBuilder.checkSignature { name := "f", descriptor := (longs n).descriptor } c =
      .error .slotOverflow c' := by
  have slots : 65535 < (longs n).paramSlots := by
    rw [paramSlots_longs]
    omega
  exact ClassBuilder.checkSignature_of_lt { name := "f", descriptor := (longs n).descriptor }
    (decode?_longs n) rfl slots c

open MethodDescriptor in
/-- The check counts the parameters before it compares them with what is allowed. -/
theorem overflow_of_longs : decode? (longs 32768).descriptor = some (longs 32768) ∧
    255 < (longs 32768).slotsWith false ∧ ∀ c, ∃ c', ClassBuilder.checkSignature
      { name := "f", descriptor := (longs 32768).descriptor } c = .error .slotOverflow c' := by
  have wide : 255 < (longs 32768).slotsWith false := by
    rw [slotsWith, paramSlots_longs]
    decide
  have large : 32767 < 32768 := by decide
  exact ⟨decode?_longs 32768, wide, checkSignature_longs large⟩

end ClassForge
