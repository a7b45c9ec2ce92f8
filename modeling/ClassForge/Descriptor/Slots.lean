import ClassForge.Descriptor.Basic
import ClassForge.Error

namespace ClassForge

def slotCount (n : Nat) : Except Error UInt16 :=
  if n < 65536 then .ok (UInt16.ofNat n) else .error .slotOverflow

theorem slotCount_eq_ok {n : Nat} {m : UInt16} :
    slotCount n = .ok m ↔ n ≤ 65535 ∧ m = UInt16.ofNat n := by
  unfold slotCount
  split
  · rename_i small
    rw [Except.ok.injEq, and_iff_right (Nat.le_of_lt_succ small), eq_comm]
  · simp only [reduceCtorEq, false_iff]
    omega

theorem slotCount_of_le {n : Nat} (small : n ≤ 65535) : slotCount n = .ok (UInt16.ofNat n) :=
  slotCount_eq_ok.2 ⟨small, rfl⟩

theorem slotCount_of_lt {n : Nat} (large : 65535 < n) : slotCount n = .error .slotOverflow :=
  if_neg (Nat.not_lt.2 large)

theorem toNat_slots {n : Nat} (small : n ≤ 65535) : (UInt16.ofNat n).toNat = n :=
  UInt16.toNat_ofNat_of_lt (Nat.lt_succ_of_le small)

def FieldType.countFrom (counted : UInt16) (ts : List FieldType) : Except Error UInt16 :=
  ts.foldlM (fun n t => slotCount (n.toNat + t.slots)) counted

/-- Some addition on the way overflows only if the sum does. -/
theorem FieldType.countFrom_eq (counted : UInt16) (ts : List FieldType) :
    countFrom counted ts = slotCount (counted.toNat + totalSlots ts) := by
  induction ts generalizing counted with
  | nil =>
    have small := Nat.le_of_lt_succ counted.toNat_lt
    exact ((slotCount_of_le small).trans (congrArg _ UInt16.ofNat_toNat)).symm
  | cons t rest ih =>
    have whole : counted.toNat + totalSlots (t :: rest) =
        counted.toNat + t.slots + totalSlots rest := (Nat.add_assoc _ _ _).symm
    rw [countFrom, List.foldlM_cons, whole]
    by_cases small : counted.toNat + t.slots ≤ 65535
    · rw [slotCount_of_le small]
      refine (ih _).trans ?_
      rw [toNat_slots small]
    · rw [slotCount_of_lt (by omega), slotCount_of_lt (by omega)]
      rfl

/-- What `paramSlots` is in sixteen bits. -/
def MethodDescriptor.paramSlots? (d : MethodDescriptor) : Except Error UInt16 :=
  FieldType.countFrom 0 d.params

theorem MethodDescriptor.paramSlots?_eq (d : MethodDescriptor) :
    d.paramSlots? = slotCount d.paramSlots :=
  (FieldType.countFrom_eq 0 d.params).trans (congrArg slotCount (Nat.zero_add _))

end ClassForge
