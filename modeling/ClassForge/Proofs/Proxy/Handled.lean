import ClassForge.Proofs.Proxy.Handling
import ClassForge.Proofs.Proxy.Loaded

namespace ClassForge

namespace ProxySpec

variable {s : ProxySpec} {c : HandlerContract}

theorem plain_passArguments (position : Nat) (types : List FieldType) :
    ∀ step ∈ passArguments position types, step.isPlain = true := by
  induction types generalizing position with
  | nil => simp [passArguments]
  | cons t rest ih =>
    simp only [passArguments, passArgument, List.cons_append, List.nil_append, List.mem_cons]
    rintro step (rfl | rfl | rfl | rfl | rfl | behind)
    all_goals first | rfl | exact ih _ step behind

theorem plain_handlerBody (name : String) (d : MethodDescriptor) :
    ∀ step ∈ s.handlerBody c name d, step.isPlain = true := by
  intro step inside
  simp only [handlerBody, List.mem_append, List.mem_cons, List.not_mem_nil, or_false] at inside
  rcases inside with ((rfl | rfl | rfl | rfl | rfl | rfl) | passing) | (rfl | rfl | rfl)
  all_goals first | rfl | exact plain_passArguments _ _ step passing | (cases d.returns <;> rfl)

theorem plain_returningBody (field : String) (type : FieldType) (d : MethodDescriptor) :
    ∀ step ∈ s.returningBody field type d, step.isPlain = true := by
  unfold returningBody
  split <;> simp [Step.isPlain]

theorem methodSteps_handled {spec : MethodSpec} {d : MethodDescriptor} (handler : s.handler = some c)
    (handled : spec.body = .handled) (decoded : MethodDescriptor.decode? spec.descriptor = some d) :
    s.methodSteps spec = s.handlerBody c spec.name d := by
  rw [methodSteps, handled]
  dsimp only
  rw [handler, Option.map_some, Option.getD_some, Generation.bodyFor, decoded]
  rfl

/-- A call of a handled method asks the handler once, with the object, the method and the arguments.
Then the answer is all that the method has at hand, and it gives what its type makes of it. The
handler may answer by any rule, but leaves the objects that are there alone. -/
theorem handled_dispatches (handler : s.handler = some c) {cache : DescriptorCache}
    {file : ClassFile} {g : Generation} {bytes : List UInt8} {m₀ m₁ : Machine} {name : String}
    {k : LoadedClass} (generated : s.generate cache = (.ok file, g))
    (written : file.write = .ok bytes) (defined : Machine.define bytes m₀ = .ok name m₁)
    (loaded : m₁.classes[name]? = some k) {spec : MethodSpec} {d : MethodDescriptor}
    (member : spec ∈ s.methods) (handled : spec.body = .handled)
    (decoded : MethodDescriptor.decode? spec.descriptor = some d)
    {m : Machine} {receiver handlerAt : Address} {own : LoadedClass}
    {fields : Std.TreeMap String Value} {h : ProxyHandler} {args : List Value}
    (plain : m.heap.get receiver = .plain own fields)
    (inherits : own.findMethod? spec.name spec.descriptor = k.findMethod? spec.name spec.descriptor)
    (held : fields[c.field]? = some (.reference handlerAt))
    (stands : m.heap.get handlerAt = .handler h)
    (answers : ∀ proxy method elements,
      (h.answer m.calls.size proxy method elements).isReference = true)
    (suit : Value.Suit d.params args) :
    ∃ call w m₂, call.Tells (.reference receiver) (spec.name ++ spec.descriptor) d.params args ∧
      h.Answers m call w m₂ ∧
      (∃ (waiting : Activation) (turns enough : Nat), waiting.stack = [w] ∧ ∀ fuel, enough ≤ fuel →
        Machine.invokeVirtual (fuel + turns) (.reference receiver) spec.name spec.descriptor args m =
          waiting.exec fuel m₂) ∧
      ∀ outcome, m₂.heap.returned? w d.returns = some outcome →
        ∃ (m₃ : Machine) (enough : Nat), m₃.heap = m₂.heap ∧ m₃.calls = m₂.calls ∧
          ∀ fuel, enough ≤ fuel → Machine.invokeVirtual fuel (.reference receiver) spec.name
            spec.descriptor args m = m₃.concluding outcome := by
  obtain ⟨all, k', -, found, loadedAs⟩ := loaded_of_define generated written defined
  rw [loaded, Option.some.injEq] at found
  subst found
  have bound := ((loadedAs.admits spec member).handled handled).2
  have steps := methodSteps_handled handler handled decoded
  have plainly : ∀ step ∈ s.methodSteps spec, step.isPlain = true :=
    steps ▸ plain_handlerBody spec.name d
  obtain ⟨bounded, is, means, invokes⟩ := loadedAs.invokes member bound decoded plainly
  rw [steps] at means
  have few : d.params.length < 2147483648 := by
    have shorter := FieldType.length_le_totalSlots d.params
    rw [MethodDescriptor.paramSlots] at bounded
    omega
  obtain ⟨a, e, rfl, given, runs, same⟩ := invokes plain inherits suit
  obtain ⟨call, w, m₂, tells, answered, ⟨js, opens, plays⟩, ends⟩ :=
    ends_handlerBody (m := m.noting e) means given suit few
      (fun t returns => MethodDescriptor.dot_not_mem_returns decoded returns) plain held stands answers
  rw [MethodDescriptor.descriptor_of_decode? decoded] at tells
  refine ⟨call, w, m₂, tells, answered.of_grown (.refl _) rfl, ?_, fun outcome gives => ?_⟩
  · obtain ⟨pc, turns, enough, goesOn⟩ := runs.goesOn opens plays
    refine ⟨a.holding pc [w], turns, enough, rfl, fun fuel le => ?_⟩
    rw [same]
    exact goesOn fuel le
  · obtain ⟨m₃, settles, heap, beside⟩ := ends outcome gives
    obtain ⟨enough, settles⟩ := runs.settles settles
    refine ⟨m₃, enough, heap, beside.calls, fun fuel le => ?_⟩
    rw [same]
    exact settles fuel le

/-- The machine that has defined the class of a description and no other, and the class's name. -/
def define? (s : ProxySpec) : Option (String × Machine) :=
  match s.generate {} with
  | (.ok file, _) =>
    match file.write with
    | .ok bytes =>
      match Machine.define bytes {} with
      | .ok name m => some (name, m)
      | .error .. => none
    | .error _ => none
  | _ => none

def load? (s : ProxySpec) : Option LoadedClass := s.define?.bind fun d => d.2.classes[d.1]?

theorem exists_of_define? {name : String} {m : Machine} (defines : s.define? = some (name, m)) :
    ∃ file g bytes, s.generate {} = (.ok file, g) ∧ file.write = .ok bytes ∧
      Machine.define bytes {} = .ok name m := by
  unfold define? at defines
  split at defines
  · rename_i file g generated
    split at defines
    · rename_i bytes written
      split at defines
      · rename_i defined
        cases defines
        exact ⟨file, g, bytes, generated, written, defined⟩
      · cases defines
    · cases defines
  · cases defines

theorem exists_of_load? {k : LoadedClass} (loads : s.load? = some k) : ∃ file g bytes m name,
    s.generate {} = (.ok file, g) ∧ file.write = .ok bytes ∧ Machine.define bytes {} = .ok name m ∧
      m.classes[name]? = some k := by
  obtain ⟨⟨name, m⟩, defines, found⟩ := Option.bind_eq_some_iff.1 loads
  obtain ⟨file, g, bytes, generated, written, defined⟩ := exists_of_define? defines
  exact ⟨file, g, bytes, m, name, generated, written, defined, found⟩

def adder : ProxySpec where
  name := "p.Adder"
  handler := some {}
  methods := [{ name := "sum", descriptor := "(JLjava/lang/String;Z)I", body := .handled }]

def answersSeven : ProxyHandler := ⟨"h", fun _ _ _ _ => .box "java/lang/Integer" (.value (.int 7))⟩

theorem handled_dispatches_adder : ∃ (m m₃ : Machine) (call : HandlerCall) (enough : Nat),
    call.Tells (.reference ⟨1⟩) "sum(JLjava/lang/String;Z)I"
      [.long, .object "java/lang/String", .boolean] [.long 5, .null, .int 1] ∧
    m₃.calls = #[call] ∧ ∀ fuel, enough ≤ fuel →
      Machine.invokeVirtual fuel (.reference ⟨1⟩) "sum" "(JLjava/lang/String;Z)I"
        [.long 5, .null, .int 1] m = .ok (some (.int 7)) m₃ := by
  obtain ⟨k, loads⟩ := Option.isSome_iff_exists.1 (by decide +kernel : adder.load?.isSome = true)
  obtain ⟨file, g, bytes, m₁, name, generated, written, defined, loaded⟩ := exists_of_load? loads
  let m : Machine := { heap := ⟨#[.handler answersSeven,
    .plain k ((∅ : Std.TreeMap String Value).insert "handler" (.reference ⟨0⟩))]⟩ }
  have decoded : MethodDescriptor.decode? "(JLjava/lang/String;Z)I" =
      some ⟨[.long, .object "java/lang/String", .boolean], some .int⟩ := by decide +kernel
  have plain : m.heap.get ⟨1⟩ =
      .plain k ((∅ : Std.TreeMap String Value).insert "handler" (.reference ⟨0⟩)) := rfl
  have stands : m.heap.get ⟨0⟩ = .handler answersSeven := rfl
  have suit : Value.Suit [.long, .object "java/lang/String", .boolean] [.long 5, .null, .int 1] :=
    .cons rfl (.cons rfl (.cons rfl .nil))
  obtain ⟨call, w, m₂, tells, ⟨-, -, once, told, -, made⟩, -, returns⟩ :=
    handled_dispatches (s := adder) rfl generated written defined loaded (List.mem_singleton.2 rfl)
      rfl decoded plain rfl Std.TreeMap.getElem?_insert_self stands (fun _ _ _ => rfl) suit
  cases made
  have box : (told.adding (.box "java/lang/Integer" (.int 7))).heap.get ⟨told.heap.size⟩ =
      .box "java/lang/Integer" (.int 7) := Heap.get_alloc _ _
  have gives : (told.adding (.box "java/lang/Integer" (.int 7))).heap.returned?
      (.reference ⟨told.heap.size⟩) (some .int) = some (.ok (some (.int 7))) := by
    simp only [Heap.returned?, Heap.unboxed?, Body.unboxing?, Heap.object?, Value.address?,
      Option.map_some, box, Heap.isInstance]
    rfl
  obtain ⟨m₃, enough, -, calls, runs⟩ := returns _ gives
  exact ⟨m, m₃, call, enough, tells, calls.trans once, runs⟩

end ProxySpec
end ClassForge
