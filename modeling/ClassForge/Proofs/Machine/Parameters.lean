import ClassForge.Proofs.Code.LocalSlots
import ClassForge.Proofs.Machine.Calls

namespace ClassForge

namespace FieldType

theorem totalSlots_take_succ {ts : List FieldType} {i : Nat} {t : FieldType}
    (found : ts[i]? = some t) : totalSlots (ts.take (i + 1)) = totalSlots (ts.take i) + t.slots := by
  rw [List.take_add_one, found, totalSlots_append]
  rfl

theorem exists_of_lt_totalSlots {ts : List FieldType} {n : Nat} (inside : n < totalSlots ts) :
    ∃ i t, ts[i]? = some t ∧ totalSlots (ts.take i) ≤ n ∧ n < totalSlots (ts.take i) + t.slots := by
  induction ts generalizing n with
  | nil => cases inside
  | cons first rest ih =>
    change n < first.slots + totalSlots rest at inside
    by_cases here : n < first.slots
    · exact ⟨0, first, rfl, Nat.zero_le n, by simpa [totalSlots] using here⟩
    · obtain ⟨i, t, found, start, stop⟩ := ih (show n - first.slots < totalSlots rest by omega)
      have place : totalSlots ((first :: rest).take (i + 1)) =
          first.slots + totalSlots (rest.take i) := rfl
      refine ⟨i + 1, t, found, ?_, ?_⟩ <;> rw [place] <;> omega

end FieldType

namespace MethodDescriptor

/-- The types of the arguments, the receiver first if there is one. -/
def argumentTypes (d : MethodDescriptor) (isStatic : Bool) : List FieldType :=
  if isStatic then d.params else .object objectClass :: d.params

variable (d : MethodDescriptor) (isStatic : Bool)

theorem getElem?_argumentTypes (i : Nat) :
    (d.argumentTypes isStatic)[Body.receiverSlots isStatic + i]? = d.params[i]? := by
  cases isStatic with
  | true => simp only [argumentTypes, Body.receiverSlots, if_true, Nat.zero_add]
  | false =>
    change (FieldType.object objectClass :: d.params)[1 + i]? = d.params[i]?
    rw [Nat.add_comm, List.getElem?_cons_succ]

theorem totalSlots_take_argumentTypes (i : Nat) :
    FieldType.totalSlots ((d.argumentTypes isStatic).take (Body.receiverSlots isStatic + i)) =
      Body.receiverSlots isStatic + FieldType.totalSlots (d.params.take i) := by
  cases isStatic with
  | true => simp only [argumentTypes, Body.receiverSlots, if_true, Nat.zero_add]
  | false =>
    change FieldType.totalSlots ((.object objectClass :: d.params).take (1 + i)) =
      1 + FieldType.totalSlots (d.params.take i)
    rw [Nat.add_comm 1 i]
    rfl

theorem totalSlots_argumentTypes :
    FieldType.totalSlots (d.argumentTypes isStatic) = d.slotsWith isStatic := by
  cases isStatic with
  | true => exact (Nat.zero_add _).symm
  | false => rfl

end MethodDescriptor

namespace Body

/-- The slots of the parameters follow one another, from behind the receiver to the end of the
locals that there are. -/
structure Packed (b : Body) : Prop where
  placed : ∀ i t, b.descriptor.params[i]? = some t → ∃ slot, b.paramSlot? i = .ok slot
  first : ∀ slot, b.paramSlot? 0 = .ok slot → slot.toNat = receiverSlots b.isStatic
  next : ∀ i t slot behind, b.descriptor.params[i]? = some t → b.paramSlot? i = .ok slot →
    b.paramSlot? (i + 1) = .ok behind → behind.toNat = slot.toNat + t.slots
  apart : ∀ i j t u slot other, i ≠ j → b.descriptor.params[i]? = some t →
    b.descriptor.params[j]? = some u → b.paramSlot? i = .ok slot → b.paramSlot? j = .ok other →
    (Span.mk slot.toNat t.slots).Apart ⟨other.toNat, u.slots⟩
  filled : ∀ n, n < b.maxLocals.toNat ↔ ∃ s, b.Declares s ∧ s.start ≤ n ∧ n < s.stop

variable {b : Body}

theorem toNat_paramSlot? (small : b.descriptor.slotsWith b.isStatic ≤ 65535) {i : Nat}
    {slot : UInt16} (placed : b.paramSlot? i = .ok slot) : i < b.descriptor.params.length ∧
      slot.toNat = receiverSlots b.isStatic + FieldType.totalSlots (b.descriptor.params.take i) := by
  by_cases inside : i < b.descriptor.params.length
  · obtain ⟨slot', placed', place⟩ := paramSlot?_eq small inside
    rw [placed] at placed'
    cases placed'
    exact ⟨inside, place⟩
  · rw [paramSlot?, if_pos (Nat.not_lt.1 inside)] at placed
    cases placed

theorem stop_le_paramSlot? (small : b.descriptor.slotsWith b.isStatic ≤ 65535) {i j : Nat}
    {t : FieldType} {slot other : UInt16} (before : i < j)
    (typed : b.descriptor.params[i]? = some t) (placed : b.paramSlot? i = .ok slot)
    (later : b.paramSlot? j = .ok other) : slot.toNat + t.slots ≤ other.toNat := by
  have through := FieldType.totalSlots_take_le (b.descriptor.params.take j) (i + 1)
  rw [List.take_take, Nat.min_eq_left before, FieldType.totalSlots_take_succ typed] at through
  rw [(toNat_paramSlot? small placed).2, (toNat_paramSlot? small later).2]
  omega

theorem packed (small : b.descriptor.slotsWith b.isStatic ≤ 65535)
    (locals : b.maxLocals.toNat = b.descriptor.slotsWith b.isStatic) : b.Packed where
  placed i t typed := by
    obtain ⟨slot, placed, -⟩ := paramSlot?_eq small (List.getElem?_eq_some_iff.1 typed).1
    exact ⟨slot, placed⟩
  first slot placed := (toNat_paramSlot? small placed).2
  next i t slot behind typed placed later := by
    rw [(toNat_paramSlot? small placed).2, (toNat_paramSlot? small later).2,
      FieldType.totalSlots_take_succ typed, Nat.add_assoc]
  apart i j t u slot other distinct typed typed' placed placed' := by
    rcases Nat.lt_or_gt_of_ne distinct with before | after
    · exact .inl (stop_le_paramSlot? small before typed placed placed')
    · exact .inr (stop_le_paramSlot? small after typed' placed' placed)
  filled n := by
    constructor
    · intro inside
      rw [locals, MethodDescriptor.slotsWith] at inside
      by_cases receiver : n < receiverSlots b.isStatic
      · have bound : b.isStatic = false := by
          cases static : b.isStatic with
          | false => rfl
          | true =>
            rw [static] at receiver
            cases receiver
        rw [bound] at receiver
        exact ⟨_, .receiver bound, Nat.zero_le n, receiver⟩
      · have below : n - receiverSlots b.isStatic <
            FieldType.totalSlots b.descriptor.params := by
          rw [MethodDescriptor.paramSlots] at inside
          omega
        obtain ⟨i, t, typed, start, stop⟩ := FieldType.exists_of_lt_totalSlots below
        obtain ⟨slot, placed, place⟩ := paramSlot?_eq small (List.getElem?_eq_some_iff.1 typed).1
        refine ⟨_, .parameter typed placed, ?_, ?_⟩
        · change slot.toNat ≤ n
          omega
        · change n < slot.toNat + t.slots
          omega
    · rintro ⟨s, declares, -, stop⟩
      rw [locals]
      exact Nat.lt_of_lt_of_le stop (declares.stop_le small)

end Body

def Method.Roomy (x : Method) : Prop :=
  ∀ code d, x.code = some code → MethodDescriptor.decode? x.descriptor = some d →
    d.slotsWith x.isStatic ≤ code.maxLocals.toNat

namespace Machine

variable {m m' : Machine}

theorem loadMethod_roomy {owner : String} {p : Pool} {x : Member} {loaded : Method}
    (done : loadMethod owner p x m = .ok loaded m') : loaded.Roomy := by
  obtain ⟨-, d, m₁, m₂, decoded, room⟩ := loadMethod_checks done
  intro code d' coded decoded'
  rw [decode?_of_decodeDescriptor decoded] at decoded'
  cases decoded'
  obtain ⟨n, counted, enough⟩ := room code coded
  rw [Body.slotsFrom_eq] at counted
  obtain ⟨small, rfl⟩ := slotCount_eq_ok.1 counted
  rw [UInt16.le_iff_toNat_le, toNat_slots small] at enough
  exact enough

theorem define_roomy {bytes : List UInt8} {name : String} {k : LoadedClass}
    (defined : define bytes m = .ok name m') (found : m'.classes[name]? = some k) :
    ∀ method ∈ k.own.methods, method.Roomy := by
  obtain ⟨d, own, superclass, statics, m₁, m₂, -, -, -, found', declared⟩ :=
    define_declares defined
  rw [found, Option.some.injEq] at found'
  subst found'
  obtain ⟨methods, reversed, loaded⟩ := declare_loads declared
  change ∀ method ∈ own.methods, method.Roomy
  simp only [reversed, List.mem_reverse]
  refine forall_of_forall₂ loaded fun x method one => ?_
  obtain ⟨m₃, m₄, one⟩ := one
  exact loadMethod_roomy one

end Machine

namespace Activation

variable {d : MethodDescriptor} {isStatic : Bool} {args : List Value}

/-- Arguments that suit a descriptor are taken wherever the locals have room for its slots. -/
theorem ofCode_of_suit (suit : Value.Suit (d.argumentTypes isStatic) args) {code : Code}
    (room : d.slotsWith isStatic ≤ code.maxLocals.toNat) (owner : LoadedClass) (name : String) :
    ∃ a, ofCode owner name code args = .ok a ∧ a.locals = (slotsOf args ++
      List.replicate (code.maxLocals.toNat - d.slotsWith isStatic) none).toArray := by
  have slots : (slotsOf args).length = d.slotsWith isStatic := by
    rw [length_slotsOf, Value.totalSlots_of_suit suit, MethodDescriptor.totalSlots_argumentTypes]
  rw [← slots] at room ⊢
  refine ⟨_, if_neg (Nat.not_lt.2 room), rfl⟩

theorem argument_at (suit : Value.Suit (d.argumentTypes isStatic) args) {a : Activation}
    {more : List (Option Value)} (locals : a.locals = (slotsOf args ++ more).toArray) {i : Nat}
    {t : FieldType} (typed : d.params[i]? = some t) {slot : UInt16}
    (place : slot.toNat = Body.receiverSlots isStatic + FieldType.totalSlots (d.params.take i)) :
    ∃ v, args[Body.receiverSlots isStatic + i]? = some v ∧ v.kind = .ofType t ∧
      a.locals[slot.toNat]? = some (some v) ∧
      (v.slots = 2 → a.locals[slot.toNat + 1]? = some none) := by
  rw [← d.getElem?_argumentTypes isStatic i] at typed
  obtain ⟨v, given, kind⟩ := getElem?_of_forall₂ suit typed
  have before : Value.totalSlots (args.take (Body.receiverSlots isStatic + i)) = slot.toNat := by
    rw [place, ← MethodDescriptor.totalSlots_take_argumentTypes]
    exact Value.totalSlots_of_suit (List.forall₂_take _ suit)
  obtain ⟨here, second⟩ := slotsOf_at given more
  rw [before] at here second
  rw [locals, List.getElem?_toArray, List.getElem?_toArray]
  exact ⟨v, given, kind, here, second⟩

end Activation

namespace Body

variable {b : Body}

theorem loadParam_eq {i : Nat} {slot : UInt16} {t : FieldType} (placed : b.paramSlot? i = .ok slot)
    (typed : b.descriptor.params[i]? = some t) : loadParam i b = .ok () { b with
      maxLocals := max b.maxLocals (touch.pastSlot slot (.ofType t))
      items := b.items.push (.instruction ⟨.load (.ofType t) slot, 0, t.slots⟩) } := by
  have type : b.descriptor.params.getD i .int = t := by
    rw [List.getD_eq_getElem?_getD, typed, Option.getD_some]
  have read : paramSlot i b = .ok slot b := by
    have got : (get : BodyM Body) b = .ok b b := rfl
    rw [paramSlot, Outcome.bind_of_ok got, placed]
    rfl
  have got : (get : BodyM Body) b = .ok b b := rfl
  rw [loadParam, Outcome.bind_of_ok read, Outcome.bind_of_ok got, type, ← ValueKind.slots_ofType]
  rfl

theorem leave_eq {t : FieldType} (returns : b.descriptor.returns = some t) : leave b = .ok ()
    { b with items := b.items.push (.instruction ⟨.leave (some (.ofType t)), t.slots, 0⟩) } := by
  have got : (get : BodyM Body) b = .ok b b := rfl
  rw [leave, Outcome.bind_of_ok got, returns]
  rfl

def returning (kind : ValueKind) (slot : UInt16) : List Instruction :=
  [⟨.load kind slot, 0, kind.slots⟩, ⟨.leave (some kind), kind.slots, 0⟩]

theorem finish_returning {kind : ValueKind} {slot : UInt16}
    (items : b.items.toList = (returning kind slot).map .instruction)
    (protections : b.protections = #[]) (scopes : b.scopes = #[])
    (declared : b.declaredStack = none) : ∃ code, b.finish = .ok code := by
  have size : Operation.slotSize slot ≤ 4 := by
    rw [Operation.slotSize]
    split
    · decide
    · split <;> decide
  have short : ¬65535 < 0 + Operation.slotSize slot + 1 := by omega
  let l : Layout := {
    instructions := (returning kind slot).toArray
    offsets := #[0, 0 + Operation.slotSize slot, 0 + Operation.slotSize slot + 1] }
  have laid : b.layout = .ok l := by
    rw [layout, items]
    exact if_neg short
  have depth : l.maxStack [] = .ok kind.slots := by
    cases kind <;> rfl
  have bytes : l.encode = .ok ((Operation.load kind slot : Operation Int16).encode ++
      (Operation.leave (some kind) : Operation Int16).encode) := rfl
  simp only [finish, Outcome.bind_eq_ok, protections, scopes, declared]
  exact ⟨_, l, laid, [], rfl, kind.slots, depth, _, rfl, _, bytes, [], rfl, rfl⟩

theorem loadParam_leave_eq {i : Nat} {slot : UInt16} {t t' : FieldType}
    (placed : b.paramSlot? i = .ok slot) (typed : b.descriptor.params[i]? = some t)
    (returns : b.descriptor.returns = some t') (same : ValueKind.ofType t' = .ofType t) :
    ∃ b', (do loadParam i; leave : BodyM Unit) b = .ok () b' ∧
      b'.items.toList = b.items.toList ++ (returning (.ofType t) slot).map .instruction ∧
      b'.protections = b.protections ∧ b'.scopes = b.scopes ∧
      b'.declaredStack = b.declaredStack ∧ b.maxLocals.toNat ≤ b'.maxLocals.toNat := by
  have slots : t'.slots = (ValueKind.ofType t).slots := by rw [← same, ValueKind.slots_ofType]
  refine ⟨_, (Outcome.bind_of_ok (loadParam_eq placed typed)).trans (leave_eq returns), ?_, rfl,
    rfl, rfl, ?_⟩
  · simp [returning, same, slots, ValueKind.slots_ofType]
  · rw [toNat_max]
    exact Nat.le_max_left _ _

end Body

namespace Activation

variable {d : MethodDescriptor} {args : List Value}

/-- The arguments lie in the slots that the body has for them, and a second slot is empty. -/
structure Receives (a : Activation) (b : Body) (args : List Value) : Prop where
  receiver : b.isStatic = false → ∃ this, args.head? = some this ∧ a.locals[0]? = some (some this)
  parameter : ∀ i slot, b.paramSlot? i = .ok slot → ∃ v,
    args[Body.receiverSlots b.isStatic + i]? = some v ∧ a.locals[slot.toNat]? = some (some v) ∧
    (v.slots = 2 → a.locals[slot.toNat + 1]? = some none)

theorem receives_of_locals {b : Body} (small : b.descriptor.slotsWith b.isStatic ≤ 65535)
    (suit : Value.Suit (b.descriptor.argumentTypes b.isStatic) args) {a : Activation}
    {more : List (Option Value)} (locals : a.locals = (slotsOf args ++ more).toArray) :
    a.Receives b args where
  receiver bound := by
    rw [bound] at suit
    cases suit with
    | @cons _ this _ rest kind suit =>
      refine ⟨this, rfl, ?_⟩
      rw [locals, List.getElem?_toArray]
      exact getElem?_slotsOf (i := 0) rfl more
  parameter i slot placed := by
    obtain ⟨inside, place⟩ := Body.toNat_paramSlot? small placed
    obtain ⟨v, given, -, found⟩ :=
      argument_at suit locals (List.getElem?_eq_getElem inside) place
    exact ⟨v, given, found⟩

end Activation

theorem Activation.ends_returning {a : Activation} {kind : ValueKind} {slot : UInt16} {v : Value}
    (held : a.locals[slot.toNat]? = some (some v)) (slots : v.slots = kind.slots) {m : Machine} :
    a.Ends (Body.returning kind slot) [] m (.ok (some v) m) := by
  have stops : a.Stops ((Operation.leave (some kind) : Operation Label).map fun _ => none) [v] m
      (.ok (some v) m) := stops_leaveValue
  exact (plays_load held slots).ends
    (Stops.ends (i := ⟨.leave (some kind), kind.slots, 0⟩) stops rfl [])

namespace Body

variable {b : Body} {args : List Value}

theorem returns_argument (items : b.items.toList = []) (protections : b.protections = #[])
    (scopes : b.scopes = #[]) (declared : b.declaredStack = none)
    (small : b.descriptor.slotsWith b.isStatic ≤ 65535)
    (locals : b.maxLocals.toNat = b.descriptor.slotsWith b.isStatic)
    (suit : Value.Suit (b.descriptor.argumentTypes b.isStatic) args) {i : Nat} {t t' : FieldType}
    (typed : b.descriptor.params[i]? = some t) (returns : b.descriptor.returns = some t')
    (same : ValueKind.ofType t' = .ofType t) : ∃ b' code v,
      (do loadParam i; leave : BodyM Unit) b = .ok () b' ∧ b'.finish = .ok code ∧
      args[receiverSlots b.isStatic + i]? = some v ∧
      ∀ owner method, method.code = some code → ∀ m, ∃ a m',
        Dispatch.enter owner method args m = .ok (.entered a) m' ∧
          a.Settles m' (.ok (some v) m') := by
  obtain ⟨slot, placed, place⟩ := paramSlot?_eq small (List.getElem?_eq_some_iff.1 typed).1
  obtain ⟨b', assembled, items', protections', scopes', declared', wider⟩ :=
    loadParam_leave_eq placed typed returns same
  rw [items, List.nil_append] at items'
  obtain ⟨code, done⟩ := finish_returning items' (protections'.trans protections)
    (scopes'.trans scopes) (declared'.trans declared)
  obtain ⟨s, -, finished⟩ := finished_of_eq_ok done
  have emitted : b'.emitted = returning (.ofType t) slot := by
    rw [Body.emitted, items']
    rfl
  have room : b.descriptor.slotsWith b.isStatic ≤ code.maxLocals.toNat := by
    rw [maxLocals_of_finish done, ← locals]
    exact wider
  -- The argument is named before the call, on which it does not depend.
  obtain ⟨v, given, -⟩ := getElem?_of_forall₂ suit
    ((b.descriptor.getElem?_argumentTypes b.isStatic i).trans typed)
  refine ⟨b', code, v, assembled, done, given, fun owner method coded m => ?_⟩
  obtain ⟨a, entered, found⟩ := Activation.ofCode_of_suit suit room owner method.name
  obtain ⟨v', given', kind, held, -⟩ := Activation.argument_at suit found typed place
  rw [given, Option.some.injEq] at given'
  subst given'
  have slots : v.slots = (ValueKind.ofType t).slots := by
    rw [Value.slots_of_kind kind, ValueKind.slots_ofType]
  exact ⟨a, _, Dispatch.enter_eq coded entered m,
    (emitted ▸ finished.runs entered).settles (Activation.ends_returning held slots)⟩

end Body

/-- Assembled code and calls agree on where parameters are. A body counts the slots of a descriptor
one behind the other up to its first free local, and every method with code of a class that was
defined takes arguments of these types and finds each in the slot that the body counted. So code
that loads a parameter and returns it gives the argument. -/
theorem parameters_agree {text : String} {d : MethodDescriptor} {isStatic : Bool}
    {args : List Value} (decoded : MethodDescriptor.decode? text = some d)
    (small : d.slotsWith isStatic ≤ 65535) (suit : Value.Suit (d.argumentTypes isStatic) args)
    (pool : Pool) (cache : DescriptorCache) :
    ∃ b, (Body.start pool cache text isStatic).1 = .ok b ∧ b.descriptor = d ∧
      b.isStatic = isStatic ∧ b.maxLocals.toNat = d.slotsWith isStatic ∧ b.Packed ∧
      (∀ bytes name m m' k, Machine.define bytes m = .ok name m' → m'.classes[name]? = some k →
        ∀ method ∈ k.own.methods, ∀ code, method.descriptor = text →
          method.isStatic = isStatic → method.code = some code → ∃ a, a.Receives b args ∧
            ∀ m, Dispatch.enter k method args m =
              .ok (.entered a) (m.noting (.calling k.name method.name text))) ∧
      ∀ i t t', d.params[i]? = some t → d.returns = some t' →
        ValueKind.ofType t' = .ofType t → ∃ b' code v,
          (do Body.loadParam i; Body.leave : BodyM Unit) b = .ok () b' ∧ b'.finish = .ok code ∧
          args[Body.receiverSlots isStatic + i]? = some v ∧
          ∀ owner method, method.code = some code → ∀ m, ∃ a m',
            Dispatch.enter owner method args m = .ok (.entered a) m' ∧
              a.Settles m' (.ok (some v) m') := by
  refine ⟨_, Body.start_eq decoded small pool cache, rfl, rfl, toNat_slots small,
    Body.packed small (toNat_slots small), ?_, ?_⟩
  · intro bytes name m m' k defined found method inside code described static coded
    subst described static
    have room := Machine.define_roomy defined found method inside code d coded decoded
    obtain ⟨a, entered, locals⟩ := Activation.ofCode_of_suit suit room k method.name
    exact ⟨a, Activation.receives_of_locals small suit locals, Dispatch.enter_eq coded entered⟩
  · intro i t t' typed returns same
    exact Body.returns_argument rfl rfl rfl rfl small (toNat_slots small) suit typed returns same

/-- The last of three parameters, behind two of two slots each. -/
theorem parameters_agree_mixed : ∃ b slot b' code,
    (Body.start {} {} "(JDI)I" false).1 = .ok b ∧ b.paramSlot? 2 = .ok slot ∧ slot = 5 ∧
      b.maxLocals = 6 ∧
      (do Body.loadParam 2; Body.leave : BodyM Unit) b = .ok () b' ∧ b'.finish = .ok code ∧
      ∃ a m', Dispatch.enter .root ⟨"f", "(JDI)I", 0, some code⟩
          [.reference ⟨0⟩, .long 3, .double 4, .int 7] {} = .ok (.entered a) m' ∧
        a.Settles m' (.ok (some (.int 7)) m') := by
  have decoded : MethodDescriptor.decode? "(JDI)I" = some ⟨[.long, .double, .int], some .int⟩ := by
    decide +kernel
  have suit : Value.Suit
      (MethodDescriptor.argumentTypes ⟨[.long, .double, .int], some .int⟩ false)
      [.reference ⟨0⟩, .long 3, .double 4, .int 7] :=
    .cons rfl (.cons rfl (.cons rfl (.cons rfl .nil)))
  obtain ⟨b, started, described, static, locals, -, -, returns⟩ :=
    parameters_agree decoded (by decide) suit {} {}
  obtain ⟨b', code, v, assembled, finished, given, settles⟩ := returns 2 .int .int rfl rfl rfl
  cases given
  have placed : b.paramSlot? 2 = .ok 5 := by
    rw [Body.paramSlot?, described, static]
    rfl
  refine ⟨b, 5, b', code, started, placed, rfl, ?_, assembled, finished, settles _ _ rfl _⟩
  exact UInt16.toNat_inj.1 locals

end ClassForge
