import ClassForge.Proofs.Machine.Operands
import Mathlib.Algebra.Ring.Int.Defs
import Mathlib.Data.Int.DivMod

namespace ClassForge

namespace Floating.Format

theorem toInt_within (f : Format) (bits : Nat) {lo hi lo' hi' : Int} (below : lo' ≤ lo)
    (negative : lo ≤ 0) (positive : 0 ≤ hi) (above : hi ≤ hi') :
    f.toInt lo hi bits = max lo (min hi (f.toInt lo' hi' bits)) := by
  unfold toInt
  cases f.decode bits with
  | nan =>
    dsimp only
    omega
  | infinite neg =>
    dsimp only
    cases neg <;> simp only [Bool.false_eq_true, if_true, if_false] <;> omega
  | finite neg m q =>
    dsimp only
    generalize (if neg then _ else _ : Int) = whole
    omega

end Floating.Format

inductive Unboxing where
  | int
  | long
  | byte
  | short

namespace Unboxing

def name : Unboxing → String
  | int => "intValue"
  | long => "longValue"
  | byte => "byteValue"
  | short => "shortValue"

def descriptor : Unboxing → String
  | int => "()I"
  | long => "()J"
  | byte => "()B"
  | short => "()S"

def bits : Unboxing → Nat
  | int => 32
  | long => 64
  | byte => 8
  | short => 16

def value (n : Int) : Unboxing → Value
  | int => .int (Int32.ofInt n)
  | long => .long (Int64.ofInt n)
  | byte => .int (Int8.ofInt n).toInt32
  | short => .int (Int16.ofInt n).toInt32

/-- The instructions that convert a number: one to an int or a long, if it is not one already, and
one that narrows the int. -/
def conversions (kind : NumberKind) : Unboxing → List Conversion
  | int => (Conversion.between? kind .int).toList
  | long => (Conversion.between? kind .long).toList
  | byte => (Conversion.between? kind .int).toList ++ [.intToByte]
  | short => (Conversion.between? kind .int).toList ++ [.intToShort]

/-- The number that the first conversion leaves of the integer part. -/
def kept (kind : NumberKind) (target : Unboxing) (n : Int) : Int :=
  match kind, target with
  | .int, _ | .long, _ | .float, long | .double, long => n
  | .float, _ | .double, _ => max Int32.minValue.toInt (min Int32.maxValue.toInt n)

theorem bmod_eq_bmod_iff {a b : Int} {n : Nat} : a.bmod n = b.bmod n ↔ (n : Int) ∣ a - b := by
  rw [Int.bmod_eq_bmod_iff_bmod_sub_eq_zero, Int.dvd_iff_bmod_eq_zero]

theorem value_eq_value {target : Unboxing} {a b : Int} :
    target.value a = target.value b ↔ (2 ^ target.bits : Int) ∣ a - b := by
  cases target with
  | int =>
    rw [value, value, Value.int.injEq, ← Int32.toInt_inj, Int32.toInt_ofInt, Int32.toInt_ofInt]
    exact bmod_eq_bmod_iff
  | long =>
    rw [value, value, Value.long.injEq, ← Int64.toInt_inj, Int64.toInt_ofInt, Int64.toInt_ofInt]
    exact bmod_eq_bmod_iff
  | byte =>
    rw [value, value, Value.int.injEq, ← Int32.toInt_inj, Int8.toInt_toInt32, Int8.toInt_toInt32,
      Int8.toInt_ofInt, Int8.toInt_ofInt]
    exact bmod_eq_bmod_iff
  | short =>
    rw [value, value, Value.int.injEq, ← Int32.toInt_inj, Int16.toInt_toInt32,
      Int16.toInt_toInt32, Int16.toInt_ofInt, Int16.toInt_ofInt]
    exact bmod_eq_bmod_iff

end Unboxing

def Value.number? : Value → Option NumberKind
  | int _ => some .int
  | long _ => some .long
  | float _ => some .float
  | double _ => some .double
  | reference _ | null => none

def Conversion.result? : Conversion → Value → Option Value
  | intToLong, .int n => some (.long n.toInt64)
  | longToInt, .long n => some (.int n.toInt32)
  | floatToInt, .float b => some (.int (Floating.single.toInt32 b.toNat))
  | floatToLong, .float b => some (.long (Floating.single.toInt64 b.toNat))
  | doubleToInt, .double b => some (.int (Floating.double.toInt32 b.toNat))
  | doubleToLong, .double b => some (.long (Floating.double.toInt64 b.toNat))
  | intToByte, .int n => some (.int n.toInt8.toInt32)
  | intToShort, .int n => some (.int n.toInt16.toInt32)
  | _, _ => none

namespace Run

open Outcome

variable {a : Activation} {m : Machine} {stack : List Value} {pc : Nat} {v w : Value}

theorem popLong_holding {n : Int64} :
    popLong ⟨a.holding pc (.long n :: stack), m⟩ = .ok n ⟨a.holding pc stack, m⟩ := by
  rw [popLong, bind_of_ok pop_holding]
  rfl

theorem popFloat_holding {b : UInt32} :
    popFloat ⟨a.holding pc (.float b :: stack), m⟩ = .ok b.toNat ⟨a.holding pc stack, m⟩ := by
  rw [popFloat, bind_of_ok pop_holding]
  rfl

theorem popDouble_holding {b : UInt64} :
    popDouble ⟨a.holding pc (.double b :: stack), m⟩ = .ok b.toNat ⟨a.holding pc stack, m⟩ := by
  rw [popDouble, bind_of_ok pop_holding]
  rfl

theorem convert_holding {c : Conversion} (converts : c.result? v = some w)
    (room : Value.totalSlots (w :: stack) ≤ a.maxStack.toNat) :
    convert c ⟨a.holding pc (v :: stack), m⟩ = .ok () ⟨a.holding pc (w :: stack), m⟩ := by
  unfold Conversion.result? at converts
  split at converts <;> cases converts
  · exact (bind_of_ok popInt_holding).trans (push_holding room)
  · exact (bind_of_ok popLong_holding).trans (push_holding room)
  · exact (bind_of_ok popFloat_holding).trans (push_holding room)
  · exact (bind_of_ok popFloat_holding).trans (push_holding room)
  · exact (bind_of_ok popDouble_holding).trans (push_holding room)
  · exact (bind_of_ok popDouble_holding).trans (push_holding room)
  · exact (bind_of_ok popInt_holding).trans (push_holding room)
  · exact (bind_of_ok popInt_holding).trans (push_holding room)

end Run

namespace Activation

inductive Reads (a : Activation) : Nat → List (Operation (Option Int16)) → Nat → Prop where
  | nil {pc : Nat} : Reads a pc [] pc
  | cons {pc next last : Nat} {o : Operation (Option Int16)}
    {rest : List (Operation (Option Int16))}
    (first : Operation.decode a.bytes pc = .ok (o, next)) (others : Reads a next rest last) :
    Reads a pc (o :: rest) last

theorem Reads.append {a : Activation} {pc last : Nat} {os ps : List (Operation (Option Int16))}
    (reads : a.Reads pc (os ++ ps) last) :
    ∃ middle, a.Reads pc os middle ∧ a.Reads middle ps last := by
  induction os generalizing pc with
  | nil => exact ⟨pc, .nil, reads⟩
  | cons o os ih =>
    cases reads with
    | cons first others =>
      obtain ⟨middle, front, back⟩ := ih others
      exact ⟨middle, .cons first front, back⟩

variable {a : Activation} {m : Machine} {stack : List Value} {pc next : Nat} {v w : Value}

theorem goesOn_convert {c : Conversion}
    (read : Operation.decode a.bytes pc = .ok (.convert c, next)) (converts : c.result? v = some w)
    (room : Value.totalSlots (w :: stack) ≤ a.maxStack.toNat) :
    (a.holding pc (v :: stack)).GoesOn m (a.holding next (w :: stack)) m := by
  have does : a.Does (.convert c) (v :: stack) m (w :: stack) m :=
    .next fun _ _ _ => Run.going_of_ok (Run.convert_holding converts room)
  exact does.goesOn read

theorem goesOn_optional {c : Option Conversion}
    (reads : a.Reads pc (c.toList.map .convert) next)
    (converts : c.elim (some v) (·.result? v) = some w)
    (room : Value.totalSlots (w :: stack) ≤ a.maxStack.toNat) :
    (a.holding pc (v :: stack)).GoesOn m (a.holding next (w :: stack)) m := by
  cases c with
  | none =>
    cases converts
    cases reads
    exact .refl _ _
  | some c =>
    cases reads with
    | cons first others =>
      cases others
      exact goesOn_convert first converts room

end Activation

namespace Unboxing

open Native (toLong)

theorem toInt_toInt32 (f : Floating.Format) (b : Nat) : f.toInt32 b =
    Int32.ofInt (max Int32.minValue.toInt (min Int32.maxValue.toInt (f.toInt64 b).toInt)) := by
  have narrow : f.toInt Int32.minValue.toInt Int32.maxValue.toInt b = max Int32.minValue.toInt
      (min Int32.maxValue.toInt (f.toInt Int64.minValue.toInt Int64.maxValue.toInt b)) :=
    f.toInt_within b (by decide) (by decide) (by decide) (by decide)
  have inside : f.toInt Int64.minValue.toInt Int64.maxValue.toInt b = max Int64.minValue.toInt
      (min Int64.maxValue.toInt (f.toInt Int64.minValue.toInt Int64.maxValue.toInt b)) :=
    f.toInt_within b (by decide) (by decide) (by decide) (by decide)
  have least : Int64.minValue.toInt = -2 ^ 63 := by decide
  have greatest : Int64.maxValue.toInt = 2 ^ 63 - 1 := by decide
  have whole : (f.toInt64 b).toInt = f.toInt Int64.minValue.toInt Int64.maxValue.toInt b :=
    Int64.toInt_ofInt_of_le (by omega) (by omega)
  rw [Floating.Format.toInt32, narrow, whole]

theorem converts_to_int {kind : NumberKind} {v : Value} (number : v.number? = some kind) :
    (Conversion.between? kind .int).elim (some v) (·.result? v) =
      some (int.value (int.kept kind (toLong v).toInt)) := by
  cases v with
  | int n | long n =>
    cases number
    simp [Conversion.between?, Option.elim, Conversion.result?, toLong, value, kept]
  | float b =>
    cases number
    simp only [Conversion.between?, Option.elim, Conversion.result?, toInt_toInt32]
    rfl
  | double b =>
    cases number
    simp only [Conversion.between?, Option.elim, Conversion.result?, toInt_toInt32]
    rfl
  | reference r | null => cases number

theorem converts_to_long {kind : NumberKind} {v : Value} (number : v.number? = some kind) :
    (Conversion.between? kind .long).elim (some v) (·.result? v) =
      some (long.value (toLong v).toInt) := by
  cases v with
  | int n | long n | float b | double b =>
    cases number
    simp [Conversion.between?, Option.elim, Conversion.result?, toLong, value]
  | reference r | null => cases number

variable {a : Activation} {m : Machine} {stack : List Value} {pc next : Nat} {v : Value}
  {kind : NumberKind} {target : Unboxing}

theorem room_of_int {n : Int32} (room : Value.totalSlots (v :: stack) ≤ a.maxStack.toNat) :
    Value.totalSlots (.int n :: stack) ≤ a.maxStack.toNat := by
  have positive : 1 ≤ v.slots := by cases v <;> exact Nat.le_of_ble_eq_true rfl
  rw [Value.totalSlots_cons] at room ⊢
  rw [Value.slots_int]
  omega

theorem goesOn_conversions (number : v.number? = some kind)
    (reads : a.Reads pc ((target.conversions kind).map .convert) next)
    (room : Value.totalSlots (v :: stack) ≤ a.maxStack.toNat)
    (room' : Value.totalSlots (target.value (target.kept kind (toLong v).toInt) :: stack) ≤
      a.maxStack.toNat) :
    (a.holding pc (v :: stack)).GoesOn m
      (a.holding next (target.value (target.kept kind (toLong v).toInt) :: stack)) m := by
  have converts := converts_to_int number
  cases target with
  | int => exact Activation.goesOn_optional reads converts room'
  | long =>
    have kept : long.kept kind (toLong v).toInt = (toLong v).toInt := by cases kind <;> rfl
    rw [kept] at room' ⊢
    exact Activation.goesOn_optional reads (converts_to_long number) room'
  | byte | short =>
    rw [conversions, List.map_append] at reads
    obtain ⟨middle, first, narrows⟩ := reads.append
    have whole : (a.holding pc (v :: stack)).GoesOn m (a.holding middle
        (int.value (int.kept kind (toLong v).toInt) :: stack)) m :=
      Activation.goesOn_optional first converts (room_of_int room)
    cases narrows with
    | cons read others =>
      cases others
      exact whole.trans (Activation.goesOn_convert read
        (congrArg (fun n => some (Value.int n)) (by cases kind <;> simp [kept])) room')

theorem unboxed?_eq {wrapped : FieldType} (number : wrapped.wrapsNumber = true) (v : Value) :
    Native.unboxed? wrapped v target.name target.descriptor =
      some (target.value (toLong v).toInt) := by
  cases wrapped <;> cases number <;> cases target <;>
    simp [Native.unboxed?, name, descriptor, value]

theorem invokeVirtual_box (target : Unboxing) {wrapper : String} {wrapped : FieldType}
    (wraps : FieldType.ofWrapper? wrapper = some wrapped) (number : wrapped.wrapsNumber = true)
    {x : Address} (box : m.heap.get x = .box wrapper v) (fuel : Nat) :
    Machine.invokeVirtual fuel (.reference x) target.name target.descriptor [] m =
      .ok (some (target.value (toLong v).toInt)) m := by
  have unboxed : Native.boxMethod? x wrapper v target.name target.descriptor =
      some (Native.answer (target.value (toLong v).toInt)) := by
    rw [Native.boxMethod?, wraps]
    simp only [Option.bind_eq_bind, Option.bind_some, unboxed?_eq number, Option.map_some]
    cases target <;> rfl
  have got : Machine.object x m = .ok (.box wrapper v) m := by
    rw [← box]
    rfl
  have answered : Dispatch.virtual target.name target.descriptor [.reference x] m =
      .ok (.answered (some (target.value (toLong v).toInt))) m := by
    have receiver : Dispatch.receiver [.reference x] m = .ok x m := rfl
    rw [Dispatch.virtual, Outcome.bind_of_ok receiver, Outcome.bind_of_ok got]
    change Dispatch.native _ _ _ (Native.boxMethod? x wrapper v _ _) m = _
    rw [unboxed]
    rfl
  rw [Machine.invokeVirtual, Outcome.bind_of_ok answered]
  rfl

end Unboxing

/-- A box gives a number as an int, a long, a byte or a short just as the conversions do, unless it
holds a floating-point number that they keep within the ints and that has other low bits then. -/
theorem unboxing_converts {wrapper : String} {wrapped : FieldType}
    (wraps : FieldType.ofWrapper? wrapper = some wrapped) (numeric : wrapped.wrapsNumber = true)
    {v : Value} {kind : NumberKind} (number : v.number? = some kind) (target : Unboxing) :
    let whole := (Native.toLong v).toInt
    let kept := max Int32.minValue.toInt (min Int32.maxValue.toInt whole)
    ∃ given left : Value,
      (∀ fuel m x, m.heap.get x = .box wrapper v →
        Machine.invokeVirtual fuel (.reference x) target.name target.descriptor [] m =
          .ok (some given) m) ∧
      (∀ (a : Activation) m pc next stack,
        a.Reads pc ((target.conversions kind).map .convert) next →
        Value.totalSlots (v :: stack) ≤ a.maxStack.toNat →
        Value.totalSlots (left :: stack) ≤ a.maxStack.toNat →
        (a.holding pc (v :: stack)).GoesOn m (a.holding next (left :: stack)) m) ∧
      (given = left ↔ kind = .int ∨ kind = .long ∨ target = .long ∨
        (2 ^ target.bits : Int) ∣ whole - kept) := by
  intro whole kept
  refine ⟨target.value whole, target.value (target.kept kind whole),
    fun fuel m x box => target.invokeVirtual_box wraps numeric box fuel,
    fun a m pc next stack reads room room' =>
      Unboxing.goesOn_conversions number reads room room', ?_⟩
  rw [Unboxing.value_eq_value]
  cases kind <;> cases target <;> simp [Unboxing.kept, whole, kept]

def Machine.boxing (wrapper : String) (v : Value) : Machine := { heap := ⟨#[.box wrapper v]⟩ }

def Activation.converting (bytes : Array UInt8) : Activation :=
  { owner := .root, bytes, handlers := [], maxStack := 2, locals := #[] }

/-- A fraction above the bytes. -/
theorem unboxing_converts_fraction :
    Machine.invokeVirtual 0 (.reference ⟨0⟩) "byteValue" "()B" []
        (.boxing "java/lang/Double" (.double 0x4072cb3333333333)) =
      .ok (some (.int 44)) (.boxing "java/lang/Double" (.double 0x4072cb3333333333)) ∧
    ((Activation.converting #[0x8e, 0x91]).holding 0 [.double 0x4072cb3333333333]).GoesOn {}
      ((Activation.converting #[0x8e, 0x91]).holding 2 [.int 44]) {} := by
  have wraps : FieldType.ofWrapper? "java/lang/Double" = some .double :=
    FieldType.ofWrapper?_eq_some rfl
  obtain ⟨given, left, unboxes, converts, same⟩ :=
    unboxing_converts wraps rfl (v := .double 0x4072cb3333333333) rfl .byte
  have box : (Machine.boxing "java/lang/Double" (.double 0x4072cb3333333333)).heap.get ⟨0⟩ =
      .box "java/lang/Double" (.double 0x4072cb3333333333) := rfl
  have agree : given = left := same.2 (.inr (.inr (.inr (by decide +kernel))))
  have computed : Machine.invokeVirtual 0 (.reference ⟨0⟩) "byteValue" "()B" []
      (.boxing "java/lang/Double" (.double 0x4072cb3333333333)) =
        .ok (some (.int 44)) (.boxing "java/lang/Double" (.double 0x4072cb3333333333)) := by
    have low :
        Unboxing.byte.value (Native.toLong (.double 0x4072cb3333333333)).toInt = .int 44 := by
      decide +kernel
    rw [← low]
    exact Unboxing.byte.invokeVirtual_box wraps rfl box 0
  have given' := (unboxes 0 _ ⟨0⟩ box).symm.trans computed
  cases given'
  cases agree
  have first : Operation.decode #[0x8e, 0x91] 0 = .ok (.convert .doubleToInt, 1) := by
    decide +kernel
  have second : Operation.decode #[0x8e, 0x91] 1 = .ok (.convert .intToByte, 2) := by
    decide +kernel
  have reads : (Activation.converting #[0x8e, 0x91]).Reads 0 [.convert .doubleToInt,
      .convert .intToByte] 2 := .cons first (.cons second .nil)
  exact ⟨computed, converts _ {} 0 2 [] reads (by decide) (by decide)⟩

/-- A float just above the ints. -/
theorem not_unboxing_converts_above :
    Machine.invokeVirtual 0 (.reference ⟨0⟩) "intValue" "()I" []
        (.boxing "java/lang/Float" (.float 0x4f000000)) =
      .ok (some (.int (-2147483648))) (.boxing "java/lang/Float" (.float 0x4f000000)) ∧
    ((Activation.converting #[0x8b, 0xac]).holding 0 [.float 0x4f000000]).Settles {}
      (.ok (some (.int 2147483647)) {}) := by
  refine ⟨rfl, ?_⟩
  have converts : Conversion.floatToInt.result? (.float 0x4f000000) = some (.int 2147483647) := by
    decide +kernel
  have leaves : (Activation.converting #[0x8b, 0xac]).Stops (.leave (some .int)) [.int 2147483647]
      {} (.ok (some (.int 2147483647)) {}) := Activation.stops_leaveValue
  have goesOn : ((Activation.converting #[0x8b, 0xac]).holding 0 [.float 0x4f000000]).GoesOn {}
      ((Activation.converting #[0x8b, 0xac]).holding 1 [.int 2147483647]) {} :=
    Activation.goesOn_convert (by decide +kernel) converts (by decide)
  have read : Operation.decode #[0x8b, 0xac] 1 = .ok (.leave (some .int), 2) := by decide +kernel
  exact goesOn.settles (leaves.settles read)

end ClassForge
