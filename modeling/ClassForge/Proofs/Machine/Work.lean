import ClassForge.Proofs.Machine.Keeping

namespace ClassForge.Run

variable {writes : Effects}

theorem operates_popArray : Operates writes popArray := by
  apply Operates.pop.bind
  intro v
  cases v with
  | reference a =>
    apply operates_heap.bind
    intro h
    split
    · exact .pure _
    · exact operates_violation rfl
  | null => exact .throw rfl
  | _ => exact operates_violation rfl

theorem operates_position (size : Nat) (i : Int32) :
    Operates writes (lift (position size i)) := by
  apply operates_lift
  intro e refused
  rw [position] at refused
  split at refused
  · cases refused
    rfl
  · split at refused
    · cases refused
      rfl
    · cases refused

theorem operates_arrayLoad : Operates writes arrayLoad := by
  apply operates_popInt.bind
  intro i
  apply operates_popArray.bind
  intro array
  apply (operates_position _ i).bind
  intro n
  exact .push _

theorem operates_checkElement (component : FieldType) (v : Value) :
    Operates writes (checkElement component v) := by
  apply operates_heap.bind
  intro h
  dsimp only
  split
  · exact .pure _
  · exact .throw rfl

theorem operates_arrayStore (kind : ElementKind) : Operates writes (arrayStore kind) := by
  apply Operates.pop.bind
  intro v
  apply operates_popInt.bind
  intro i
  apply operates_popArray.bind
  intro array
  have stored : Operates writes (do
      let i ← lift (position array.2.2.size i)
      onMachine (Machine.change array.1 (setElement i (narrowed kind v)))) := by
    apply (operates_position _ i).bind
    intro n
    exact .onMachine (Machine.operates_change _ fun _ _ => rfl)
  dsimp only
  split
  · apply (operates_checkElement _ v).bind
    intro _
    exact stored
  · exact stored

theorem operates_arrayLength : Operates writes arrayLength := by
  apply operates_popArray.bind
  intro array
  exact operates_pushInt _

theorem operates_newArray (component : FieldType) : Operates writes (newArray component) := by
  apply operates_popInt.bind
  intro n
  split
  · exact .throw rfl
  · apply (Operates.onMachine (Machine.operates_alloc _)).bind
    intro v
    exact .push v

theorem operates_componentNamed (name : String) : Operates writes (componentNamed name) := by
  rw [componentNamed]
  split
  · split
    · exact .pure _
    · exact .throw rfl
  · exact .pure _

theorem intResult_error {o : Arithmetic} {a b : Int32} {e : MachineError}
    (refused : intResult o a b = .error e) : e = .divisionByZero := by
  cases o with
  | add | sub | mul => cases refused
  | div | rem =>
    simp only [intResult] at refused
    split at refused
    · cases refused
      rfl
    · cases refused

theorem longResult_error {o : Arithmetic} {a b : Int64} {e : MachineError}
    (refused : longResult o a b = .error e) : e = .divisionByZero := by
  cases o with
  | add | sub | mul => cases refused
  | div | rem =>
    simp only [longResult] at refused
    split at refused
    · cases refused
      rfl
    · cases refused

theorem operates_arithmetic (kind : NumberKind) (o : Arithmetic) :
    Operates writes (arithmetic kind o) := by
  cases kind with
  | int =>
    apply operates_popInt.bind
    intro b
    apply operates_popInt.bind
    intro a
    apply Operates.bind
    · apply operates_lift
      intro e refused
      rw [intResult_error refused]
      rfl
    · intro v
      exact operates_pushInt v
  | long =>
    apply operates_popLong.bind
    intro b
    apply operates_popLong.bind
    intro a
    apply Operates.bind
    · apply operates_lift
      intro e refused
      rw [longResult_error refused]
      rfl
    · intro v
      exact operates_pushLong v
  | float =>
    apply operates_popFloat.bind
    intro b
    apply operates_popFloat.bind
    intro a
    exact operates_pushFloat _
  | double =>
    apply operates_popDouble.bind
    intro b
    apply operates_popDouble.bind
    intro a
    exact operates_pushDouble _

theorem operates_negate (kind : NumberKind) : Operates writes (negate kind) := by
  cases kind with
  | int => exact operates_popInt.bind fun a => operates_pushInt _
  | long => exact operates_popLong.bind fun a => operates_pushLong _
  | float => exact operates_popFloat.bind fun a => operates_pushFloat _
  | double => exact operates_popDouble.bind fun a => operates_pushDouble _

theorem operates_shift (long : Bool) (s : Shift) : Operates writes (shift long s) := by
  apply operates_popInt.bind
  intro distance
  cases long with
  | true => exact operates_popLong.bind fun a => operates_pushLong _
  | false => exact operates_popInt.bind fun a => operates_pushInt _

theorem operates_bitwise (long : Bool) (o : Bitwise) : Operates writes (bitwise long o) := by
  cases long with
  | true =>
    apply operates_popLong.bind
    intro b
    apply operates_popLong.bind
    intro a
    exact operates_pushLong _
  | false =>
    apply operates_popInt.bind
    intro b
    apply operates_popInt.bind
    intro a
    exact operates_pushInt _

theorem operates_convert (c : Conversion) : Operates writes (convert c) := by
  cases c with
  | intToLong => exact operates_popInt.bind fun a => operates_pushLong _
  | intToFloat => exact operates_popInt.bind fun a => operates_pushFloat _
  | intToDouble => exact operates_popInt.bind fun a => operates_pushDouble _
  | longToInt => exact operates_popLong.bind fun a => operates_pushInt _
  | longToFloat => exact operates_popLong.bind fun a => operates_pushFloat _
  | longToDouble => exact operates_popLong.bind fun a => operates_pushDouble _
  | floatToInt => exact operates_popFloat.bind fun a => operates_pushInt _
  | floatToLong => exact operates_popFloat.bind fun a => operates_pushLong _
  | floatToDouble => exact operates_popFloat.bind fun a => operates_pushDouble _
  | doubleToInt => exact operates_popDouble.bind fun a => operates_pushInt _
  | doubleToLong => exact operates_popDouble.bind fun a => operates_pushLong _
  | doubleToFloat => exact operates_popDouble.bind fun a => operates_pushFloat _
  | intToByte | intToChar | intToShort =>
    exact operates_popInt.bind fun a => operates_pushInt _

theorem operates_compare (o : Ordered) : Operates writes (compare o) := by
  cases o with
  | long =>
    apply operates_popLong.bind
    intro b
    apply operates_popLong.bind
    intro a
    exact operates_pushInt _
  | float nanIsGreater =>
    apply operates_popFloat.bind
    intro b
    apply operates_popFloat.bind
    intro a
    exact operates_pushInt _
  | double nanIsGreater =>
    apply operates_popDouble.bind
    intro b
    apply operates_popDouble.bind
    intro a
    exact operates_pushInt _

theorem operates_pop2 : Operates writes pop2 := by
  apply Operates.pop.bind
  intro v
  split
  · exact Operates.pop.bind fun _ => .pure _
  · exact .pure _

theorem operates_dup : Operates writes dup := by
  apply Operates.pop.bind
  intro v
  apply (Operates.push v).bind
  intro _
  exact .push v

theorem operates_dupX1 : Operates writes dupX1 := by
  apply Operates.pop.bind
  intro top
  apply Operates.pop.bind
  intro below
  apply (Operates.push top).bind
  intro _
  apply (Operates.push below).bind
  intro _
  exact .push top

theorem operates_dup2 : Operates writes dup2 := by
  apply Operates.pop.bind
  intro top
  split
  · apply (Operates.push top).bind
    intro _
    exact .push top
  · apply Operates.pop.bind
    intro below
    apply (Operates.push below).bind
    intro _
    apply (Operates.push top).bind
    intro _
    apply (Operates.push below).bind
    intro _
    exact .push top

theorem operates_swap : Operates writes swap := by
  apply Operates.pop.bind
  intro top
  apply Operates.pop.bind
  intro below
  apply (Operates.push top).bind
  intro _
  exact .push below

theorem operates_test (c : Condition) : Operates writes (test c) := by
  cases c with
  | zero c => exact operates_popInt.bind fun _ => .pure _
  | ints c =>
    apply operates_popInt.bind
    intro b
    exact operates_popInt.bind fun _ => .pure _
  | same expected =>
    apply operates_popReference.bind
    intro b
    exact operates_popReference.bind fun _ => .pure _
  | null expected => exact operates_popReference.bind fun _ => .pure _

theorem onMachine_bind {α β : Type} (act : MachineM α) (k : α → MachineM β) :
    onMachine (act >>= k) = onMachine act >>= fun a => onMachine (k a) := by
  funext r
  simp only [onMachine, Bind.bind, EStateM.bind]
  cases act r.machine <;> rfl

theorem operates_putField (allowed : writes.fields = true) (v : Value) (name : String)
    (new : Value) : Operates writes (onMachine (Machine.putField v name new)) := by
  rw [Machine.putField, onMachine_bind]
  apply (Operates.onMachine (Machine.operates_target v)).bind
  intro a
  rw [onMachine_bind]
  apply (Operates.onMachine (Machine.operates_object a)).bind
  intro o
  split
  · split
    · exact .change allowed _ _
    · exact .onMachine (.throw rfl)
  · exact .onMachine (.throw rfl)

theorem operates_field {access : FieldAccess}
    (allowed : access = .put → writes.fields = true) (i : Index) :
    Operates writes (field access i) := by
  apply (operates_member i).bind
  intro f
  cases access with
  | getStatic =>
    apply Operates.bind
    · apply Operates.onMachine
      apply (Machine.operates_resolve _).bind
      intro c
      exact Machine.operates_getStatic _ _
    · intro v
      exact .push v
  | putStatic =>
    apply Operates.pop.bind
    intro v
    apply Operates.onMachine
    apply (Machine.operates_resolve _).bind
    intro c
    exact Machine.operates_putStatic _ _ _
  | get =>
    apply operates_popReference.bind
    intro o
    apply (Operates.onMachine (Machine.operates_getField _ _)).bind
    intro v
    exact .push v
  | put =>
    apply Operates.pop.bind
    intro v
    apply operates_popReference.bind
    intro o
    exact operates_putField (allowed rfl) _ _ _

theorem operates_answered (value : Option Value) : Operates writes (answered value) := by
  cases value with
  | none => exact .pure _
  | some v => exact (Operates.push v).bind fun _ => .pure _

theorem operates_invoke (i : Index) (receiver : Nat)
    {dispatch : MemberRef → List Value → MachineM Dispatch}
    (operates : ∀ m args, Machine.Operates (·.orderly) (dispatch m args)) :
    Operates writes (invoke i receiver dispatch) := by
  apply (operates_member i).bind
  intro m
  apply (Operates.onMachine (Machine.operates_decodeDescriptor _)).bind
  intro d
  apply (operates_popMany _).bind
  intro args
  apply (Operates.onMachine (operates m args)).bind
  intro dispatched
  cases dispatched with
  | answered v => exact operates_answered v
  | entered callee => exact .pure _

theorem operates_invokeKind (kind : InvokeKind) (i : Index) :
    Operates writes (invokeKind kind i) := by
  cases kind with
  | virtual => exact operates_invoke i 1 fun m args => Dispatch.operates_virtual _ _ _
  | special => exact operates_invoke i 1 fun m args => Dispatch.operates_special _ _ _ _
  | static => exact operates_invoke i 0 fun m args => Dispatch.operates_static _ _ _ _

theorem operates_new (i : Index) : Operates writes (new i) := by
  apply (operates_className i).bind
  intro name
  have made (o : Object) : Operates writes (do push (← onMachine (Machine.alloc o))) :=
    (Operates.onMachine (Machine.operates_alloc o)).bind fun v => .push v
  dsimp only
  split
  · exact made _
  · apply Operates.bind
    · apply Operates.onMachine
      apply (Machine.operates_resolve name).bind
      intro c
      exact .pure _
    · intro o
      exact made o

theorem operates_checkCast (i : Index) : Operates writes (checkCast i) := by
  apply (operates_className i).bind
  intro name
  apply operates_popReference.bind
  intro v
  apply operates_heap.bind
  intro h
  split
  · exact .push v
  · exact .throw rfl

theorem operates_instanceOf (i : Index) : Operates writes (instanceOf i) := by
  apply (operates_className i).bind
  intro name
  apply operates_popReference.bind
  intro v
  apply operates_heap.bind
  intro h
  exact operates_pushInt _

theorem operates_raise : Operates writes raise := by
  apply operates_popReference.bind
  intro v
  cases v with
  | null => exact .throw rfl
  | _ => exact .pure _

theorem operates_going {act : RunM Unit} (operates : Operates writes act) :
    Operates writes (going act) := operates.bind fun _ => .pure _

end ClassForge.Run
