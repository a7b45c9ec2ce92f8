import ClassForge.Proofs.Machine.Calls

namespace ClassForge

def Response.isReference : Response → Bool
  | value v => v.kind = .reference
  | literal (.string _) => true
  | literal _ => false
  | _ => true

namespace Machine

open Outcome

mutual

/-- Whatever is answered can be made. -/
theorem exists_build (r : Response) (m : Machine) : ∃ v m', build r m = .ok v m' ∧ m.Expands m' ∧
    (r.isReference = true → v.kind = .reference) := by
  match r with
  | .value v => exact ⟨v, m, rfl, .refl m, fun reference => of_decide_eq_true reference⟩
  | .literal (.string s) =>
    exact ⟨.reference ⟨m.heap.size⟩, _, rfl, m.expands_adding _, fun _ => rfl⟩
  | .literal (.int _) | .literal (.long _) | .literal (.float _) | .literal (.double _) =>
    exact ⟨_, m, rfl, .refl m, fun reference => by cases reference⟩
  | .builder _ | .plain _ | .handler _ _ =>
    exact ⟨.reference ⟨m.heap.size⟩, _, rfl, m.expands_adding _, fun _ => rfl⟩
  | .box wrapper content =>
    obtain ⟨v, m', made, expands, -⟩ := exists_build content m
    refine ⟨.reference ⟨m'.heap.size⟩, m'.adding (.box wrapper v), ?_,
      expands.trans (m'.expands_adding _), fun _ => rfl⟩
    rw [build, bind_of_ok made, alloc_eq]
  | .array component elements =>
    obtain ⟨vs, m', made, expands⟩ := exists_buildAll elements m
    refine ⟨.reference ⟨m'.heap.size⟩, m'.adding (.array component vs.toArray), ?_,
      expands.trans (m'.expands_adding _), fun _ => rfl⟩
    rw [build, bind_of_ok made, alloc_eq]

theorem exists_buildAll (rs : List Response) (m : Machine) :
    ∃ vs m', buildAll rs m = .ok vs m' ∧ m.Expands m' := by
  match rs with
  | [] => exact ⟨[], m, rfl, .refl m⟩
  | r :: rest =>
    obtain ⟨v, m₁, first, expands, -⟩ := exists_build r m
    obtain ⟨vs, m₂, others, expands'⟩ := exists_buildAll rest m₁
    refine ⟨v :: vs, m₂, ?_, expands.trans expands'⟩
    rw [buildAll, bind_of_ok first, bind_of_ok others]
    rfl

end

def telling (m : Machine) (h : ProxyHandler) (call : HandlerCall) : Machine :=
  { m with
    journal := m.journal.push (.handlerInvoked h.interface call.method)
    calls := m.calls.push call }

variable {m : Machine} {at_ said given : Address} {h : ProxyHandler} {name text : String}
  {proxy : Value} {component : FieldType} {elements : Array Value}

theorem virtual_handler (stands : m.heap.get at_ = .handler h)
    (named : m.heap.get said = .string text) (passed : m.heap.get given = .array component elements) :
    Dispatch.virtual name HandlerContract.descriptor
      [.reference at_, proxy, .reference said, .reference given] m =
      (do return .answered (some (← build (h.answer m.calls.size proxy text elements.toList))) :
        MachineM Dispatch) (m.telling h ⟨m.heap, proxy, text, elements.toList⟩) := by
  have method : m.heap.string? (.reference said) = some text := by
    simp [Heap.string?, Heap.object?, Value.address?, named]
  have arguments : m.heap.object? (.reference given) = some (.array component elements) := by
    simp [Heap.object?, Value.address?, passed]
  have first : Dispatch.receiver [.reference at_, proxy, .reference said, .reference given] m =
      .ok at_ m := rfl
  have got : (get : MachineM Machine) m = .ok m m := rfl
  rw [Dispatch.virtual, bind_of_ok first, bind_of_ok (object_eq m at_), stands]
  dsimp only
  rw [Dispatch.callHandler]
  dsimp only
  rw [if_neg (by simp), bind_of_ok got, method, arguments]
  rfl

def concluding {α : Type} (m : Machine) : Except MachineError α → EStateM.Result MachineError Machine α
  | .ok v => .ok v m
  | .error e => .error e m

end Machine

namespace Heap

/-- What comes of taking a value of a primitive type from an answer, through a method of a class.
Nothing is said of objects of that class other than boxes of values of their type. -/
def unboxed? (h : Heap) (answer : Value) (owner name descriptor : String) :
    Option (Except MachineError (Option Value)) :=
  let refused : Except MachineError (Option Value) :=
    .error (.classCast (h.className answer) owner)
  match h.object? answer with
  | none => some (.error .nullPointer)
  | some (.string _) | some (.array ..) => some refused
  | some (.box wrapper v) =>
    if ¬h.isInstance answer owner then some refused
    else
      match FieldType.ofWrapper? wrapper with
      | some wrapped =>
        if v.kind = .ofType wrapped then some (.ok (Native.unboxed? wrapped v name descriptor))
        else none
      | none => none
  | some _ => if ¬h.isInstance answer owner then some refused else none

/-- What a method that returns the type makes of an answer, as far as something is said of it. -/
def returned? (h : Heap) (answer : Value) :
    Option FieldType → Option (Except MachineError (Option Value))
  | none => some (.ok none)
  | some t =>
    match Body.unboxing? t with
    | some (owner, name) => h.unboxed? answer owner name s!"(){t.descriptor}"
    | none =>
      let name := t.className?.getD ""
      if t = .object objectClass ∨ answer = .null ∨ h.isInstance answer name then
        some (.ok (some answer))
      else some (.error (.classCast (h.className answer) name))

end Heap

namespace FieldType

variable {t wrapped : FieldType} {wrapper owner name : String} {v : Value}

theorem wrapper?_of_ofWrapper? (wraps : ofWrapper? wrapper = some wrapped) :
    wrapped.wrapper? = some wrapper := by
  have found := List.find?_some wraps
  simpa using found

theorem exists_unboxed (through : Body.unboxing? t = some (owner, name))
    (wraps : ofWrapper? wrapper = some wrapped) (kind : v.kind = .ofType wrapped)
    (fits : (Object.box wrapper v).isInstance owner = true) :
    ∃ x, Native.unboxed? wrapped v name s!"(){t.descriptor}" = some x ∧ x.kind = .ofType t := by
  have same := wrapper?_of_ofWrapper? wraps
  cases t <;> cases through <;> cases wrapped <;> cases same <;>
    first | exact ⟨_, rfl, rfl⟩ | exact ⟨v, rfl, kind⟩ | cases fits

theorem isInstance_string (through : Body.unboxing? t = some (owner, name)) (text : String) :
    (Object.string text).isInstance owner = false := by
  cases t <;> cases through <;> rfl

theorem isInstance_array (through : Body.unboxing? t = some (owner, name)) (component : FieldType)
    (elements : Array Value) : (Object.array component elements).isInstance owner = false := by
  have bracket : (Object.array component elements).className.toList.head? = some '[' := by
    rw [Object.className, descriptor, String.toList_ofList, letters, List.head?_cons]
  have letter : owner.toList.head? ≠ some '[' := by cases t <;> cases through <;> decide
  have other : (Object.array component elements).className ≠ owner :=
    fun same => letter (same ▸ bracket)
  have objects : owner ≠ "[Ljava/lang/Object;" := by cases t <;> cases through <;> decide
  simp [Object.isInstance, other, objects]

theorem internalName_unboxing (through : Body.unboxing? t = some (owner, name)) :
    Pool.internalName owner = owner := by
  cases t <;> cases through <;> decide

theorem internalName_className (undotted : '.' ∉ t.letters) :
    Pool.internalName (t.className?.getD "") = t.className?.getD "" := by
  have plain (text : String) (undotted : '.' ∉ text.toList) : Pool.internalName text = text := by
    have each : text.toList.map (fun c => if c = '.' then '/' else c) = text.toList.map id := by
      refine List.map_congr_left fun c inside => if_neg ?_
      rintro rfl
      exact undotted inside
    rw [Pool.internalName, each, List.map_id, String.ofList_toList]
  cases t with
  | object name =>
    refine plain name fun inside => undotted ?_
    simp [letters, inside]
  | array component =>
    refine plain (array component).descriptor ?_
    rwa [descriptor, String.toList_ofList]
  | _ => decide

end FieldType

namespace Activation

open Outcome

variable {a : Activation} {m m' : Machine} {stack : List Value} {w : Value}
  {d : MethodDescriptor} {isStatic : Bool} {is : List Instruction}

theorem ends_leave (means : Listing.Means d isStatic a.owner.pool [.leave] is) {t : FieldType}
    (returns : d.returns = some t) : a.Ends is (w :: stack) m (.ok (some w) m) := by
  obtain ⟨_, _, leaves, rfl, rfl⟩ := means
  cases leaves with
  | leave =>
  refine Stops.ends ?_ rfl []
  rw [returns]
  exact stops_leaveValue

theorem virtual_null {name descriptor : String} {args : List Value} (m : Machine) :
    Dispatch.virtual name descriptor (.null :: args) m = .error .nullPointer m := rfl

theorem virtual_box {at_ : Address} {wrapper name : String} {wrapped t : FieldType} {v x : Value}
    (box : m.heap.get at_ = .box wrapper v) (wraps : FieldType.ofWrapper? wrapper = some wrapped)
    {owner : String} (through : Body.unboxing? t = some (owner, name))
    (unboxed : Native.unboxed? wrapped v name s!"(){t.descriptor}" = some x) :
    Dispatch.virtual name s!"(){t.descriptor}" [.reference at_] m = .ok (.answered (some x)) m := by
  have other : name ≠ "toString" := by cases t <;> cases through <;> decide
  have found : Native.virtual? at_ (.box wrapper v) name s!"(){t.descriptor}" [] =
      some (Native.answer x) := by
    simp [Native.virtual?, Native.boxMethod?, wraps, other, unboxed]
  have first : Dispatch.receiver [.reference at_] m = .ok at_ m := rfl
  rw [Dispatch.virtual, bind_of_ok first, bind_of_ok (Machine.object_eq m at_), box]
  dsimp only
  rw [List.tail_cons, found]
  rfl

theorem ends_unboxed {t : FieldType} (returns : d.returns = some t) {owner name : String}
    (through : Body.unboxing? t = some (owner, name)) {i j : Index}
    (cast : a.owner.pool.classNameAt? i = some owner)
    (named : a.owner.pool.memberAt? j = some ⟨owner, name, s!"(){t.descriptor}"⟩)
    (leaves : Listing.Means d isStatic a.owner.pool [.leave] is) (reference : w.kind = .reference)
    {outcome : Except MachineError (Option Value)}
    (gives : m.heap.unboxed? w owner name s!"(){t.descriptor}" = some outcome) :
    ∃ m', a.Ends ([⟨.checkCast i, 1, 1⟩, ⟨.invoke .virtual j, 1 + 0, t.slots⟩] ++ is) (w :: stack) m
      (m'.concluding outcome) ∧ m'.heap = m.heap ∧ m.Beside m' := by
  let after := m.remembering s!"(){t.descriptor}"
  have beside : after.heap = m.heap ∧ m.Beside after := ⟨rfl, m.beside_remembering _⟩
  have isCall := isCall_invoke .virtual j
  have decoded := FieldType.decode?_unboxing through
  cases w with
  | null =>
    cases gives
    have stops : a.Stops _ (.null :: stack) m (.error .nullPointer after) :=
      stops_call [.null] isCall named decoded rfl (virtual_null after)
    exact ⟨after, (plays_checkCast cast rfl (.inl rfl)).ends (stops.ends rfl _), beside⟩
  | reference at_ =>
    have object : m.heap.object? (.reference at_) = some (m.heap.get at_) := rfl
    have instance_ : m.heap.isInstance (.reference at_) owner = (m.heap.get at_).isInstance owner := by
      cases t <;> cases through <;> rfl
    have refused (misfits : (m.heap.get at_).isInstance owner = false)
        (same : .error (.classCast (m.heap.className (.reference at_)) owner) = outcome) :
        ∃ m', a.Ends ([⟨.checkCast i, 1, 1⟩, ⟨.invoke .virtual j, 1 + 0, t.slots⟩] ++ is)
          (.reference at_ :: stack) m (m'.concluding outcome) ∧ m'.heap = m.heap ∧ m.Beside m' := by
      subst same
      have stops : a.Stops (.checkCast i) (.reference at_ :: stack) m _ :=
        stops_checkCast cast reference (by simp [instance_, misfits])
      exact ⟨m, stops.ends rfl _, rfl, .refl m⟩
    simp only [Heap.unboxed?, object] at gives
    split at gives
    · rename_i missing
      cases missing
    · rename_i text found
      refine refused ?_ (Option.some.inj gives)
      rw [Option.some.inj found, FieldType.isInstance_string through]
    · rename_i component elements found
      refine refused ?_ (Option.some.inj gives)
      rw [Option.some.inj found, FieldType.isInstance_array through]
    · rename_i wrapper v found
      have box := Option.some.inj found
      rw [instance_, box] at gives
      rw [box] at refused
      split at gives
      · rename_i misfits
        exact refused (Bool.not_eq_true _ ▸ misfits) (Option.some.inj gives)
      · rename_i fits
        split at gives
        · rename_i wrapped wraps
          split at gives
          · rename_i kind
            obtain ⟨x, unboxed, taken⟩ :=
              FieldType.exists_unboxed through wraps kind (not_not.1 fits)
            rw [unboxed] at gives
            cases gives
            have first : a.Plays [⟨.checkCast i, 1, 1⟩] (.reference at_ :: stack) m
                (.reference at_ :: stack) m :=
              plays_checkCast cast reference (.inr (by rw [instance_, box, not_not.1 fits]))
            have second : a.Plays [⟨.invoke .virtual j, 1 + 0, t.slots⟩] (.reference at_ :: stack) m
                (x :: stack) after :=
              plays_answered [.reference at_] isCall named decoded rfl rfl
                (Value.slots_of_kind taken) (virtual_box (m := after) box wraps through unboxed)
            exact ⟨after, (first.append second).ends (ends_leave leaves returns), beside⟩
          · cases gives
        · cases gives
    · rw [instance_] at gives
      split at gives
      · rename_i misfits
        exact refused (Bool.not_eq_true _ ▸ misfits) (Option.some.inj gives)
      · cases gives
  | _ => cases reference

theorem ends_answer {t : FieldType} (returns : d.returns = some t) (undotted : '.' ∉ t.letters)
    (means : Listing.Means d isStatic a.owner.pool [.unbox t, .leave] is)
    (reference : w.kind = .reference) {outcome : Except MachineError (Option Value)}
    (gives : m.heap.returned? w (some t) = some outcome) :
    ∃ m', a.Ends is (w :: stack) m (m'.concluding outcome) ∧ m'.heap = m.heap ∧ m.Beside m' := by
  obtain ⟨new, others, unboxes, leaves, rfl⟩ := means
  cases unboxes with
  | unboxObject =>
    simp only [Heap.returned?, Body.unboxing?, true_or, if_true, Option.some.injEq] at gives
    subst gives
    exact ⟨m, Plays.nil.ends (ends_leave leaves returns), rfl, .refl m⟩
  | unboxReference primitive other named =>
    rw [FieldType.internalName_className undotted] at named
    simp only [Heap.returned?, primitive, other, false_or] at gives
    split at gives
    · rename_i fits
      cases gives
      exact ⟨m, (plays_checkCast named reference fits).ends (ends_leave leaves returns), rfl,
        .refl m⟩
    · rename_i misfits
      cases gives
      exact ⟨m, (stops_checkCast named reference misfits).ends rfl _, rfl, .refl m⟩
  | unbox through cast decoded named =>
    rw [FieldType.internalName_unboxing through] at cast named
    rw [FieldType.decode?_unboxing through] at decoded
    cases decoded
    simp only [Heap.returned?, through] at gives
    exact ends_unboxed returns through cast named leaves reference gives

end Activation
end ClassForge
