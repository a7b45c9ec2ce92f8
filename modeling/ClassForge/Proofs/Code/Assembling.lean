import ClassForge.Code.Body
import ClassForge.Proofs.Format.Links
import ClassForge.Proofs.Pool.Growing

namespace ClassForge

def Operation.loaded? (p : Pool) {τ : Type} : Operation τ → Option Literal
  | pushInt v => some (.int v.toInt32)
  | pushLong one => some (.long (if one then 1 else 0))
  | pushFloat v => some (.float ([0, 0x3f800000, 0x40000000].getD v.val 0))
  | pushDouble one => some (.double (if one then 0x3ff0000000000000 else 0))
  | loadConstant i | loadWideConstant i => p.literalAt? i
  | _ => none

theorem Operation.loaded?_of_extends {τ : Type} {o : Operation τ} {p q : Pool} {l : Literal}
    (extends_ : q.Extends p) (loads : o.loaded? p = some l) : o.loaded? q = some l := by
  cases o with
  | loadConstant i | loadWideConstant i => exact extends_.literalAt? loads
  | _ => exact loads

def Literal.slots : Literal → Nat
  | long _ | double _ => 2
  | int _ | float _ | string _ => 1

def FieldAccess.moves (access : FieldAccess) (type : FieldType) : Nat × Nat :=
  match access with
  | get => (1, type.slots)
  | put => (1 + type.slots, 0)
  | getStatic => (0, type.slots)
  | putStatic => (type.slots, 0)

def Protection.links (p : Protection) : List Link := Link.unlessZero p.catchType [.classRef]

def Scope.links (s : Scope) : List Link := [(s.name, [.utf8]), (s.descriptor, [.utf8])]

namespace Body

structure Sound (b : Body) : Prop where
  pool : b.pool.Sound
  protections : ∀ x ∈ b.protections.toList, ∀ link ∈ x.links, b.pool.Resolves link
  scopes : ∀ x ∈ b.scopes.toList, ∀ link ∈ x.links, b.pool.Resolves link

structure Later (b b' : Body) : Prop where
  pool : b'.pool.Extends b.pool
  descriptor : b'.descriptor = b.descriptor
  isStatic : b'.isStatic = b.isStatic
  maxLocals : b.maxLocals ≤ b'.maxLocals

theorem Later.refl (b : Body) : b.Later b := ⟨.refl _, rfl, rfl, UInt16.le_refl _⟩

theorem Later.trans {b c d : Body} (first : b.Later c) (second : c.Later d) : b.Later d where
  pool := first.pool.trans second.pool
  descriptor := second.descriptor.trans first.descriptor
  isStatic := second.isStatic.trans first.isStatic
  maxLocals := UInt16.le_trans first.maxLocals second.maxLocals

def assembling : Discipline Body where
  Holds := Sound
  Onward := Later
  refl := Later.refl
  trans := Later.trans

structure Emits (b b' : Body) (new : List Instruction) : Prop where
  items : b'.items.toList = b.items.toList ++ new.map .instruction
  protections : b'.protections = b.protections
  scopes : b'.scopes = b.scopes

theorem Emits.refl (b : Body) : b.Emits b [] := ⟨by simp, rfl, rfl⟩

theorem Emits.trans {b c d : Body} {xs ys : List Instruction} (first : b.Emits c xs)
    (second : c.Emits d ys) : b.Emits d (xs ++ ys) where
  items := by rw [second.items, first.items, List.map_append, List.append_assoc]
  protections := second.protections.trans first.protections
  scopes := second.scopes.trans first.scopes

theorem Sound.onPool {b : Body} {p : Pool} (sound : b.Sound) (grown : p.Sound)
    (extends_ : p.Extends b.pool) : Sound { b with pool := p } where
  pool := grown
  protections x hx link hlink := extends_.resolves (sound.protections x hx link hlink)
  scopes x hx link hlink := extends_.resolves (sound.scopes x hx link hlink)

open Discipline

variable {α : Type} {b : Body} {gives : Index → Pool → Prop}

theorem ensures_onPool {m : PoolM α} {gives : α → Pool → Prop}
    (asked : Pool.growing.Ensures m b.pool gives) : assembling.Ensures (onPool m) b
      (fun a b' => gives a b'.pool ∧ b.Emits b' []) := by
  constructor
  intro sound
  have outcome := asked.outcome sound.pool
  unfold onPool
  dsimp only
  cases h : m b.pool with
  | ok a p =>
    rw [h] at outcome
    obtain ⟨grown, extends_, given⟩ := outcome
    exact ⟨sound.onPool grown extends_, ⟨extends_, rfl, rfl, UInt16.le_refl _⟩, given,
      ⟨by simp, rfl, rfl⟩⟩
  | error e p =>
    rw [h] at outcome
    obtain ⟨grown, extends_⟩ := outcome
    exact ⟨sound.onPool grown extends_, ⟨extends_, rfl, rfl, UInt16.le_refl _⟩⟩

theorem referring_eq (m : PoolM α) (k : α → BodyM Unit) (b : Body) :
    (onPool m >>= k) b = match m b.pool with
      | .ok a p => k a { b with pool := p }
      | .error e p => .error e { b with pool := p } := by
  have opened : (onPool m >>= k) b = EStateM.bind (onPool m) k b := rfl
  rw [opened, EStateM.bind, onPool]
  dsimp only
  cases m b.pool with
  | ok a p => rfl
  | error e p => rfl

theorem ensures_addItem (i : Item) : assembling.Ensures (addItem i) b
    (fun _ b' => b' = { b with items := b.items.push i }) :=
  Ensures.modify fun sound => ⟨⟨sound.pool, sound.protections, sound.scopes⟩,
    ⟨.refl _, rfl, rfl, UInt16.le_refl _⟩, rfl⟩

theorem ensures_emit (o : Operation Label) (pops pushes : Nat) :
    assembling.Ensures (emit o pops pushes) b
      (fun _ b' => b'.pool = b.pool ∧ b.Emits b' [⟨o, pops, pushes⟩]) := by
  refine (ensures_addItem _).mono fun _ b' _ _ same => ?_
  rw [same]
  exact ⟨rfl, ⟨by simp, rfl, rfl⟩⟩

theorem ensures_referring {m : PoolM Index} (o : Index → Operation Label) (pops pushes : Nat)
    (asked : Pool.growing.Ensures m b.pool gives) :
    assembling.Ensures (do let i ← onPool m; emit (o i) pops pushes) b
      (fun _ b' => ∃ i, gives i b'.pool ∧ b.Emits b' [⟨o i, pops, pushes⟩]) := by
  refine (ensures_onPool asked).bind fun i b' _ _ found => ?_
  refine (ensures_emit (o i) pops pushes).mono fun _ b'' _ _ emitted => ?_
  refine ⟨i, ?_, found.2.trans emitted.2⟩
  rw [emitted.1]
  exact found.1

theorem ensures_method (descriptor : String) : assembling.Ensures (method descriptor) b
    (fun d b' => MethodDescriptor.decode? descriptor = some d ∧ b.Emits b' [] ∧ b'.pool = b.pool) := by
  constructor
  intro sound
  unfold method
  have found := b.cache.method?_fst descriptor
  cases h : (b.cache.method? descriptor).1 with
  | none =>
    simp only [h]
    exact ⟨⟨sound.pool, sound.protections, sound.scopes⟩, ⟨.refl _, rfl, rfl, UInt16.le_refl _⟩⟩
  | some d =>
    simp only [h]
    exact ⟨⟨sound.pool, sound.protections, sound.scopes⟩, ⟨.refl _, rfl, rfl, UInt16.le_refl _⟩,
      found.symm.trans h, ⟨by simp, rfl, rfl⟩, True.intro⟩

theorem ensures_pushNull : assembling.Ensures pushNull b
    (fun _ b' => b'.pool = b.pool ∧ b.Emits b' [⟨.pushNull, 0, 1⟩]) := ensures_emit _ _ _

/-- A constant that fits an instruction is pushed by it. Others are loaded from the pool. -/
inductive Pushes (l : Literal) (m : BodyM Unit) : Prop where
  | short (o : Operation Label) (loads : ∀ p, o.loaded? p = some l) (same : m = emit o 0 l.slots)
  | pooled (o : Index → Operation Label) (loads : ∀ p i, (o i).loaded? p = p.literalAt? i)
    (same : m = do let i ← onPool (Pool.literal l); emit (o i) 0 l.slots)

theorem pushes_int (v : Int32) : Pushes (.int v) (pushInt v) := by
  unfold pushInt
  split
  · rename_i short
    refine .short (.pushInt (Int16.ofInt v.toInt)) (fun p => ?_) rfl
    have whole : (Int16.ofInt v.toInt).toInt32 = v := by
      rw [← Int32.toInt_inj, Int16.toInt_toInt32, Int16.toInt_ofInt]
      apply Int.bmod_eq_of_le <;> rw [Int16.size] <;> omega
    rw [Operation.loaded?, whole]
  · exact .pooled .loadConstant (fun _ _ => rfl) rfl

theorem pushes_long (v : Int64) : Pushes (.long v) (pushLong v) := by
  unfold pushLong
  split
  · rename_i zero
    exact .short (.pushLong false) (fun p => by simp [Operation.loaded?, zero]) rfl
  · split
    · rename_i one
      exact .short (.pushLong true) (fun p => by simp [Operation.loaded?, one]) rfl
    · exact .pooled .loadWideConstant (fun _ _ => rfl) rfl

theorem pushes_float (bits : UInt32) : Pushes (.float bits) (pushFloat bits) := by
  unfold pushFloat
  split
  · rename_i zero
    exact .short (.pushFloat 0) (fun p => by simp [Operation.loaded?, zero]) rfl
  · split
    · rename_i one
      exact .short (.pushFloat 1) (fun p => by simp [Operation.loaded?, one]) rfl
    · split
      · rename_i two
        exact .short (.pushFloat 2) (fun p => by simp [Operation.loaded?, two]) rfl
      · exact .pooled .loadConstant (fun _ _ => rfl) rfl

theorem pushes_double (bits : UInt64) : Pushes (.double bits) (pushDouble bits) := by
  unfold pushDouble
  split
  · rename_i zero
    exact .short (.pushDouble false) (fun p => by simp [Operation.loaded?, zero]) rfl
  · split
    · rename_i one
      exact .short (.pushDouble true) (fun p => by simp [Operation.loaded?, one]) rfl
    · exact .pooled .loadWideConstant (fun _ _ => rfl) rfl

theorem pushes_literal (l : Literal) : Pushes l (pushLiteral l) := by
  cases l with
  | int v => exact pushes_int v
  | long v => exact pushes_long v
  | float bits => exact pushes_float bits
  | double bits => exact pushes_double bits
  | string value => exact .pooled .loadConstant (fun _ _ => rfl) rfl

theorem ensures_pushLiteral (l : Literal) : assembling.Ensures (pushLiteral l) b
    (fun _ b' => ∃ o, o.loaded? b'.pool = some l ∧ b.Emits b' [⟨o, 0, l.slots⟩]) := by
  cases pushes_literal l with
  | short o loads same =>
    rw [same]
    exact (ensures_emit o 0 l.slots).mono fun _ b' _ _ emitted => ⟨o, loads b'.pool, emitted.2⟩
  | pooled o loads same =>
    rw [same]
    refine (ensures_referring o 0 l.slots (Pool.ensures_literal l)).mono fun _ b' _ _ emitted => ?_
    obtain ⟨i, found, emitted⟩ := emitted
    exact ⟨o i, (loads b'.pool i).trans found, emitted⟩

theorem ensures_touch (slot : UInt16) (kind : ValueKind) : assembling.Ensures (touch slot kind) b
    (fun _ b' => b'.pool = b.pool ∧ b.Emits b' []) := by
  refine Ensures.modify fun sound => ⟨⟨sound.pool, sound.protections, sound.scopes⟩,
    ⟨.refl _, rfl, rfl, ?_⟩, rfl, ⟨by simp, rfl, rfl⟩⟩
  change b.maxLocals ≤ if b.maxLocals ≤ touch.pastSlot slot kind then _ else _
  split
  · assumption
  · exact UInt16.le_refl _

theorem ensures_load (kind : ValueKind) (slot : UInt16) : assembling.Ensures (load kind slot) b
    (fun _ b' => b'.pool = b.pool ∧ b.Emits b' [⟨.load kind slot, 0, kind.slots⟩]) := by
  refine (ensures_touch slot kind).bind fun _ c _ _ touched => ?_
  refine (ensures_emit _ 0 kind.slots).mono fun _ b' _ _ emitted => ?_
  exact ⟨emitted.1.trans touched.1, touched.2.trans emitted.2⟩

theorem ensures_store (kind : ValueKind) (slot : UInt16) : assembling.Ensures (store kind slot) b
    (fun _ b' => b'.pool = b.pool ∧ b.Emits b' [⟨.store kind slot, kind.slots, 0⟩]) := by
  refine (ensures_touch slot kind).bind fun _ c _ _ touched => ?_
  refine (ensures_emit _ kind.slots 0).mono fun _ b' _ _ emitted => ?_
  exact ⟨emitted.1.trans touched.1, touched.2.trans emitted.2⟩

theorem ensures_loadThis : assembling.Ensures loadThis b
    (fun _ b' => b.isStatic = false ∧ b'.pool = b.pool ∧
      b.Emits b' [⟨.load .reference 0, 0, 1⟩]) := by
  refine Ensures.get.bind fun here c _ _ same => ?_
  obtain ⟨rfl, rfl⟩ := same
  split
  · exact Ensures.throw _
  · rename_i instance_
    exact (ensures_load .reference 0).mono fun _ b' _ _ loaded =>
      ⟨Bool.eq_false_iff.2 instance_, loaded⟩

theorem ensures_paramSlot (i : Nat) : assembling.Ensures (paramSlot i) b (fun slot b' =>
    b' = b ∧ ∃ t, b.descriptor.params[i]? = some t ∧
      slot.toNat = receiverSlots b.isStatic + FieldType.totalSlots (b.descriptor.params.take i)) := by
  refine Ensures.get.bind fun here c _ _ same => ?_
  obtain ⟨rfl, rfl⟩ := same
  unfold paramSlot?
  dsimp only
  split
  · rename_i slot found
    split at found
    · cases found
    · rename_i inside
      rw [slotsFrom_eq] at found
      obtain ⟨small, rfl⟩ := slotCount_eq_ok.1 found
      refine Ensures.pure _ fun _ => ⟨rfl, _, List.getElem?_eq_getElem (Nat.not_le.1 inside), ?_⟩
      rw [UInt16.toNat_ofNat']
      omega
  · exact Ensures.throw _

theorem ensures_loadParam (i : Nat) : assembling.Ensures (loadParam i) b (fun _ b' =>
    ∃ t slot, b.descriptor.params[i]? = some t ∧
      slot.toNat = receiverSlots b.isStatic + FieldType.totalSlots (b.descriptor.params.take i) ∧
      b'.pool = b.pool ∧ b.Emits b' [⟨.load (.ofType t) slot, 0, t.slots⟩]) := by
  refine (ensures_paramSlot i).bind fun slot c _ _ found => ?_
  obtain ⟨rfl, t, param, value⟩ := found
  refine Ensures.get.bind fun here d _ _ same => ?_
  obtain ⟨rfl, rfl⟩ := same
  have type : d.descriptor.params.getD i .int = t := by
    rw [List.getD_eq_getElem?_getD, param, Option.getD_some]
  rw [type]
  refine (ensures_load (.ofType t) slot).mono fun _ b' _ _ loaded => ?_
  rw [ValueKind.slots_ofType] at loaded
  exact ⟨t, slot, param, value, loaded⟩

theorem ensures_loadParams : assembling.Ensures loadParams b Ensures.Anything := by
  refine Ensures.get.bind fun here c _ _ _ => ?_
  exact (Ensures.forM (fun i t => (ensures_loadParam i).anything) fun _ _ _ _ _ =>
    True.intro).anything

theorem ensures_newLocal (type : FieldType) :
    assembling.Ensures (newLocal type) b Ensures.Anything := by
  refine Ensures.get.bind fun here c _ _ _ => ?_
  exact (ensures_touch _ _).andThen fun _ _ => Ensures.pure _ fun _ => True.intro

theorem ensures_increment (slot : UInt16) (delta : Int16) :
    assembling.Ensures (increment slot delta) b Ensures.Anything :=
  (ensures_touch _ _).andThen fun _ _ => (ensures_emit _ _ _).anything

theorem ensures_localVariable (name : String) (type : FieldType) (slot : UInt16)
    (start stop : Label) :
    assembling.Ensures (localVariable name type slot start stop) b Ensures.Anything := by
  refine (ensures_onPool (Pool.ensures_text name)).bind fun n c _ _ named => ?_
  refine (ensures_onPool (Pool.ensures_text type.descriptor)).bind fun d e _ later typed => ?_
  refine (ensures_touch slot (.ofType type)).bind fun _ f _ _ touched => ?_
  refine Ensures.modify fun sound => ⟨⟨sound.pool, sound.protections, ?_⟩,
    ⟨.refl _, rfl, rfl, UInt16.le_refl _⟩, True.intro⟩
  intro x inside
  rw [Array.toList_push, List.mem_append, List.mem_singleton] at inside
  rcases inside with before | rfl
  · exact sound.scopes x before
  · have name' := Pool.resolves_of_utf8At? (later.pool.utf8At? named.1)
    have type' := Pool.resolves_of_utf8At? typed.1
    simp only [Scope.links, List.mem_cons, List.not_mem_nil, or_false, forall_eq_or_imp, forall_eq]
    rw [touched.1]
    exact ⟨name', type'⟩

theorem ensures_field (access : FieldAccess) (owner name : String) (type : FieldType) :
    assembling.Ensures (field access owner name type) b (fun _ b' => ∃ i,
      b'.pool.memberAt? i = some ⟨Pool.internalName owner, name, type.descriptor⟩ ∧
      b.Emits b' [⟨.field access i, (access.moves type).1, (access.moves type).2⟩]) := by
  have found := Pool.ensures_member (D := Pool.growing) (p := b.pool) .field owner name
    type.descriptor
  cases access with
  | get => exact ensures_referring (.field .get) 1 type.slots found
  | put => exact ensures_referring (.field .put) (1 + type.slots) 0 found
  | getStatic => exact ensures_referring (.field .getStatic) 0 type.slots found
  | putStatic => exact ensures_referring (.field .putStatic) type.slots 0 found

theorem ensures_callSlots (isStatic : Bool) (d : MethodDescriptor) :
    assembling.Ensures (callSlots isStatic d) b
      (fun n b' => b' = b ∧ n = receiverSlots isStatic + d.paramSlots) := by
  unfold callSlots
  split
  · rename_i n found
    rw [slotsFrom_eq] at found
    obtain ⟨small, rfl⟩ := slotCount_eq_ok.1 found
    exact Ensures.pure _ fun _ => ⟨rfl, toNat_slots small⟩
  · exact Ensures.throw _

theorem ensures_invoke (kind : InvokeKind) (owner name descriptor : String) :
    assembling.Ensures (invoke kind owner name descriptor) b (fun _ b' => ∃ d i,
      MethodDescriptor.decode? descriptor = some d ∧
      b'.pool.memberAt? i = some ⟨Pool.internalName owner, name, descriptor⟩ ∧
      b.Emits b' [⟨.invoke kind i, receiverSlots (kind = .static) + d.paramSlots,
        d.returnSlots⟩]) := by
  refine (ensures_method descriptor).bind fun d c _ _ decoded => ?_
  refine (ensures_callSlots _ d).bind fun pops e _ _ counted => ?_
  obtain ⟨rfl, rfl⟩ := counted
  refine (ensures_referring (.invoke kind) _ d.returnSlots
    (Pool.ensures_member .method owner name descriptor)).mono fun _ b' _ _ emitted => ?_
  obtain ⟨i, found, emitted⟩ := emitted
  exact ⟨d, i, decoded.1, found, decoded.2.1.trans emitted⟩

theorem ensures_invokeInterface (owner name descriptor : String) :
    assembling.Ensures (invokeInterface owner name descriptor) b (fun _ b' => ∃ d i n,
      MethodDescriptor.decode? descriptor = some d ∧
      b'.pool.memberAt? i = some ⟨Pool.internalName owner, name, descriptor⟩ ∧
      b.Emits b' [⟨.invokeInterface i n, 1 + d.paramSlots, d.returnSlots⟩]) := by
  refine (ensures_method descriptor).bind fun d c _ _ decoded => ?_
  refine (ensures_callSlots false d).bind fun pops e _ _ counted => ?_
  obtain ⟨rfl, rfl⟩ := counted
  refine (ensures_onPool (Pool.ensures_member .interfaceMethod owner name descriptor)).bind
    fun i f _ _ found => ?_
  split
  · exact Ensures.throw _
  · refine (ensures_emit _ _ d.returnSlots).mono fun _ b' _ _ emitted => ?_
    refine ⟨d, i, _, decoded.1, ?_, (decoded.2.1.trans found.2).trans emitted.2⟩
    rw [emitted.1]
    exact found.1

theorem ensures_classReferring (o : Index → Operation Label) (pops pushes : Nat) (name : String) :
    assembling.Ensures (do let i ← onPool (Pool.classRef name); emit (o i) pops pushes) b
      (fun _ b' => ∃ i, b'.pool.classNameAt? i = some (Pool.internalName name) ∧
        b.Emits b' [⟨o i, pops, pushes⟩]) :=
  ensures_referring o pops pushes (Pool.ensures_classRef name)

theorem ensures_newArray (component : FieldType) : assembling.Ensures (newArray component) b
    (fun _ b' => ∃ o, b.Emits b' [⟨o, 1, 1⟩] ∧ match component.primitive? with
      | some primitive => o = .newArray primitive
      | none => ∃ i, o = .newReferenceArray i ∧
        b'.pool.classNameAt? i = some (Pool.internalName (component.className?.getD ""))) := by
  unfold newArray
  cases component.primitive? with
  | some primitive => exact (ensures_emit _ 1 1).mono fun _ b' _ _ emitted => ⟨_, emitted.2, rfl⟩
  | none =>
    refine (ensures_classReferring .newReferenceArray 1 1 _).mono fun _ b' _ _ emitted => ?_
    obtain ⟨i, found, emitted⟩ := emitted
    exact ⟨_, emitted, i, rfl, found⟩

theorem ensures_leave : assembling.Ensures leave b (fun _ b' => b'.pool = b.pool ∧
    b.Emits b' [⟨.leave (b.descriptor.returns.map .ofType), b.descriptor.returnSlots, 0⟩]) := by
  refine Ensures.get.bind fun here c _ _ same => ?_
  obtain ⟨rfl, rfl⟩ := same
  unfold MethodDescriptor.returnSlots
  cases c.descriptor.returns with
  | none => exact ensures_emit _ _ _
  | some t => exact ensures_emit _ _ _

theorem ensures_tryCatch (start stop handler : Label) (caught : Option String) :
    assembling.Ensures (tryCatch start stop handler caught) b Ensures.Anything := by
  have guarded : ∀ (c : Body) (i : Index), (∀ link ∈ Link.unlessZero i [.classRef],
      c.pool.Resolves link) → assembling.Ensures (modify fun b : Body =>
        { b with protections := b.protections.push ⟨start, stop, handler, i⟩ } : BodyM Unit) c
        Ensures.Anything := by
    intro c i resolves
    refine Ensures.modify fun sound => ⟨⟨sound.pool, ?_, sound.scopes⟩,
      ⟨.refl _, rfl, rfl, UInt16.le_refl _⟩, True.intro⟩
    intro x inside
    rw [Array.toList_push, List.mem_append, List.mem_singleton] at inside
    rcases inside with before | rfl
    · exact sound.protections x before
    · exact resolves
  cases caught with
  | none =>
    refine guarded b 0 ?_
    simp [Link.unlessZero]
  | some name =>
    refine (ensures_onPool (Pool.ensures_classRef name)).bind fun i c _ _ found => ?_
    refine guarded c i fun link inside => ?_
    obtain ⟨-, rfl⟩ := Link.mem_unlessZero.1 inside
    exact Pool.resolves_of_classNameAt? found.1

theorem ensures_box (type : FieldType) : assembling.Ensures (box type) b (fun _ b' =>
    match type.wrapper? with
    | some wrapper => ∃ d i, MethodDescriptor.decode? s!"({type.descriptor})L{wrapper};" = some d ∧
      b'.pool.memberAt? i =
        some ⟨Pool.internalName wrapper, "valueOf", s!"({type.descriptor})L{wrapper};"⟩ ∧
      b.Emits b' [⟨.invoke .static i, d.paramSlots, d.returnSlots⟩]
    | none => b.Emits b' []) := by
  unfold box
  cases type.wrapper? with
  | some wrapper =>
    refine (ensures_invoke .static _ _ _).mono fun _ b' _ _ called => ?_
    simpa only [decide_true, receiverSlots, if_true, Nat.zero_add] using called
  | none => exact Ensures.pure _ fun _ => .refl b

theorem ensures_unbox (type : FieldType) : assembling.Ensures (unbox type) b (fun _ b' =>
    match unboxing? type with
    | some (owner, name) => ∃ i d j, b'.pool.classNameAt? i = some (Pool.internalName owner) ∧
      MethodDescriptor.decode? s!"(){type.descriptor}" = some d ∧
      b'.pool.memberAt? j = some ⟨Pool.internalName owner, name, s!"(){type.descriptor}"⟩ ∧
      b.Emits b' [⟨.checkCast i, 1, 1⟩, ⟨.invoke .virtual j, 1 + d.paramSlots, d.returnSlots⟩]
    | none =>
      if type = .object objectClass then b.Emits b' []
      else ∃ i, b'.pool.classNameAt? i = some (Pool.internalName (type.className?.getD "")) ∧
        b.Emits b' [⟨.checkCast i, 1, 1⟩]) := by
  unfold unbox
  cases unboxing? type with
  | some called =>
    refine (ensures_classReferring .checkCast 1 1 _).bind fun _ c _ _ cast => ?_
    refine (ensures_invoke .virtual _ _ _).mono fun _ b' _ later invoked => ?_
    obtain ⟨i, named, checked⟩ := cast
    obtain ⟨d, j, decoded, found, emitted⟩ := invoked
    exact ⟨i, d, j, later.pool.classNameAt? named, decoded, found, checked.trans emitted⟩
  | none =>
    dsimp only
    split
    · exact Ensures.pure _ fun _ => .refl b
    · exact ensures_classReferring .checkCast 1 1 _

theorem ensures_newLabel : assembling.Ensures newLabel b Ensures.Anything :=
  ⟨fun sound => ⟨⟨sound.pool, sound.protections, sound.scopes⟩,
    ⟨.refl _, rfl, rfl, UInt16.le_refl _⟩, True.intro⟩⟩

theorem ensures_declareMaxStack (n : UInt16) :
    assembling.Ensures (declareMaxStack n) b Ensures.Anything :=
  Ensures.modify fun sound => ⟨⟨sound.pool, sound.protections, sound.scopes⟩,
    ⟨.refl _, rfl, rfl, UInt16.le_refl _⟩, True.intro⟩

theorem ensures_discard (kind : ValueKind) :
    assembling.Ensures (discard kind) b Ensures.Anything := by
  unfold discard
  split
  · exact (ensures_emit _ _ _).anything
  · exact (ensures_emit _ _ _).anything

theorem ensures_arithmetic (kind : ValueKind) (operator : Arithmetic) :
    assembling.Ensures (arithmetic kind operator) b Ensures.Anything := by
  unfold arithmetic
  split
  · exact (ensures_emit _ _ _).anything
  · exact Ensures.throw _

theorem ensures_negate (kind : ValueKind) :
    assembling.Ensures (negate kind) b Ensures.Anything := by
  unfold negate
  split
  · exact (ensures_emit _ _ _).anything
  · exact Ensures.throw _

theorem ensures_convert (source target : ValueKind) :
    assembling.Ensures (convert source target) b Ensures.Anything := by
  unfold convert
  split
  · split
    · exact (ensures_emit _ _ _).anything
    · exact Ensures.pure _ fun _ => True.intro
  · exact Ensures.throw _

end Body
end ClassForge
