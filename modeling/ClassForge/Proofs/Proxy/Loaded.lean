import ClassForge.Proofs.ClassBuilder.Running
import ClassForge.Proofs.Descriptor.Decoding
import ClassForge.Proofs.Format.Rereading
import ClassForge.Proofs.Machine.Calls
import ClassForge.Proofs.Machine.Loading
import ClassForge.Proofs.Proxy.Generated

namespace ClassForge

open ClassBuilder

structure MethodHead.LoadedAs (h : MethodHead) (steps : Listing) (p : Pool) (m : Method) : Prop where
  name : m.name = h.name
  descriptor : m.descriptor = h.descriptor
  access : m.access = h.access
  code : ∃ code, m.code = some code ∧ CodeMade h steps code p

theorem MethodHead.Written.loadedAs {h : MethodHead} {steps : Listing} {p q : Pool} {x : Member}
    {m : Method} (written : h.Written steps p x) (loaded : MethodLoaded q x m)
    (extends_ : q.Extends p) : h.LoadedAs steps p m := by
  obtain ⟨code, ⟨access, name, descriptor, ⟨rest, attributes, -⟩⟩, made⟩ := written
  have named := loaded.name.symm.trans (extends_.utf8At? name)
  have typed := loaded.descriptor.symm.trans (extends_.utf8At? descriptor)
  refine ⟨Option.some.inj named, Option.some.inj typed, loaded.access.trans access, code, ?_, made⟩
  rw [loaded.code, Member.code?, attributes]
  rfl

theorem FieldKept.loaded {f : String × FieldType} {p q : Pool} {x : Member}
    {l : String × UInt16 × FieldType} (kept : FieldKept f p x) (loaded : FieldLoaded q x l)
    (extends_ : q.Extends p) : l = (f.1, Generation.privateFinal, f.2) := by
  obtain ⟨name, access, type⟩ := l
  obtain ⟨text, typed, decoded⟩ := loaded.type
  have named := loaded.name.symm.trans (extends_.utf8At? kept.name)
  have same := typed.symm.trans (extends_.utf8At? kept.descriptor)
  have letters := FieldType.letters_of_decode? decoded
  rw [Option.some.inj same, FieldType.descriptor, String.toList_ofList] at letters
  exact Prod.ext (Option.some.inj named) (Prod.ext (loaded.access.trans kept.access)
    (FieldType.letters_inj letters).symm)

theorem FieldKept.readable {f : String × FieldType} {p q : Pool} {x : Member}
    {l : String × UInt16 × FieldType} (kept : FieldKept f p x) (loaded : FieldLoaded q x l)
    (extends_ : q.Extends p) : f.2.Readable := by
  obtain ⟨text, typed, decoded⟩ := loaded.type
  have same := typed.symm.trans (extends_.utf8At? kept.descriptor)
  cases same
  exact FieldType.readable_of_isSome (by rw [decoded]; rfl)

theorem fields_loaded {planned : List (String × FieldType)} {p q : Pool} {xs : List Member}
    {loaded : List (String × UInt16 × FieldType)}
    (kept : List.Forall₂ (fun f x => FieldKept f p x) planned xs)
    (found : List.Forall₂ (FieldLoaded q) xs loaded) (extends_ : q.Extends p) :
    loaded = planned.map fun f => (f.1, Generation.privateFinal, f.2) := by
  induction kept generalizing loaded with
  | nil =>
    cases found
    rfl
  | cons first _ ih =>
    cases found with
    | cons load others =>
    rw [first.loaded load extends_, ih others, List.map_cons]

theorem Pool.internalName_internalName (name : String) :
    internalName (internalName name) = internalName name := by
  have each (c : Char) : (if (if c = '.' then '/' else c) = '.' then '/' else
      if c = '.' then '/' else c) = if c = '.' then '/' else c := by
    split <;> simp [*]
  rw [internalName, internalName, String.toList_ofList, List.map_map]
  congr 2
  funext c
  exact each c

namespace LoadedClass

theorem findMethod?_of_declared {k : LoadedClass} {name descriptor : String} {m : Method}
    (declared : k.declaredMethod? name descriptor = some m) :
    k.findMethod? name descriptor = some (k, m) := by
  unfold findMethod?
  rw [declared]

end LoadedClass

namespace ProxySpec

variable {s : ProxySpec} {all : List (String × ConstructorSpec)}

structure Loaded (s : ProxySpec) (all : List (String × ConstructorSpec)) (k : LoadedClass) :
    Prop where
  name : k.name = Pool.internalName s.name
  other : Pool.internalName s.name ≠ objectClass
  extending : ∃ own superclass, k = .extending own superclass
  fields : k.own.fields = s.fields.foldl
    (fun declared f => declared.insert f.1 (Generation.privateFinal, f.2)) ∅
  apart : (s.fields.map (·.1)).Nodup
  readable : ∀ f ∈ s.fields, f.2.Readable
  constructs : Generation.Constructs s all
  admits : ∀ m ∈ s.methods, s.Admits m
  methods : ∀ plan ∈ s.plans all, ∃ m p, k.declaredMethod? plan.1.name plan.1.descriptor = some m ∧
    plan.1.LoadedAs plan.2 p m ∧ k.pool.Extends p

theorem Describes.declares {c : ClassBuilder} {d : ClassFile} {name : String} {own : Declaration}
    (describes : s.Describes all c) (methods : d.methods = c.methods.toList)
    (extends_ : d.pool.Extends c.pool) (loaded : own.LoadedFrom d name) (superclass : LoadedClass) :
    ∀ plan ∈ s.plans all, ∃ m,
      (LoadedClass.extending own superclass).declaredMethod? plan.1.name plan.1.descriptor = some m ∧
        plan.1.LoadedAs plan.2 c.pool m := by
  obtain ⟨ms, found, reversed⟩ := loaded.methods
  rw [methods] at found
  intro plan inside
  obtain ⟨x, member, written⟩ := exists_of_forall₂ describes.methods plan inside
  obtain ⟨m, there, load⟩ := exists_of_forall₂ found x member
  have right := written.loadedAs load extends_
  have some_ : ((LoadedClass.extending own superclass).declaredMethod? plan.1.name
      plan.1.descriptor).isSome = true := by
    rw [LoadedClass.declaredMethod?, List.find?_isSome]
    refine ⟨m, ?_, ?_⟩
    · rw [LoadedClass.own, reversed, List.mem_reverse]
      exact there
    · simp [right.name, right.descriptor]
  obtain ⟨m', declared⟩ := Option.isSome_iff_exists.1 some_
  refine ⟨m', declared, ?_⟩
  have key := List.find?_some declared
  have there' := List.mem_of_find?_eq_some declared
  rw [LoadedClass.own, reversed, List.mem_reverse] at there'
  simp only [Bool.and_eq_true, decide_eq_true_eq] at key
  obtain ⟨x', member', load'⟩ := exists_of_forall₂_right found m' there'
  obtain ⟨plan', inside', written'⟩ := exists_of_forall₂_right describes.methods x' member'
  have right' := written'.loadedAs load' extends_
  have same : plan' = plan := by
    refine List.inj_on_of_nodup_map describes.distinct inside' inside (Prod.ext ?_ ?_)
    · exact right'.name.symm.trans key.1
    · exact right'.descriptor.symm.trans key.2
  rwa [same] at right'

theorem Describes.readable_fields {c : ClassBuilder} {d : ClassFile} {name : String}
    {own : Declaration} (describes : s.Describes all c) (fields : d.fields = c.fields.toList)
    (extends_ : d.pool.Extends c.pool) (loaded : own.LoadedFrom d name) :
    ∀ f ∈ s.fields, f.2.Readable := by
  obtain ⟨fs, found, -⟩ := loaded.fields
  rw [fields] at found
  intro f inside
  obtain ⟨x, member, kept⟩ := exists_of_forall₂ describes.fields f inside
  obtain ⟨l, -, load⟩ := exists_of_forall₂ found x member
  exact kept.readable load extends_

theorem Describes.declared_fields {c : ClassBuilder} {d : ClassFile} {name : String}
    {own : Declaration} (describes : s.Describes all c) (fields : d.fields = c.fields.toList)
    (extends_ : d.pool.Extends c.pool) (loaded : own.LoadedFrom d name) : own.fields =
      s.fields.foldl (fun declared f => declared.insert f.1 (Generation.privateFinal, f.2)) ∅ := by
  obtain ⟨fs, found, whole⟩ := loaded.fields
  rw [fields] at found
  rw [whole, fields_loaded describes.fields found extends_, List.foldl_map]

theorem loaded_of_define {cache : DescriptorCache} {file : ClassFile} {g : Generation}
    {bytes : List UInt8} {m m' : Machine} {name : String}
    (generated : s.generate cache = (.ok file, g)) (written : file.write = .ok bytes)
    (defined : Machine.define bytes m = .ok name m') :
    ∃ all k, name = Pool.internalName s.name ∧ m'.classes[name]? = some k ∧ s.Loaded all k := by
  obtain ⟨all, describes, sound, makes⟩ := describes_of_generate generated
  obtain ⟨d, own, superclass, read, named, above, found, loaded⟩ := Machine.define_eq_ok defined
  have same := makes.reread_of_parse sound written read
  have slots : d.pool.slots = g.builder.pool.slots := by
    rw [same, ClassFile.reread, makes.pool]
    rfl
  have extends_ : d.pool.Extends g.builder.pool := .of_slots_eq slots
  have known : d.name? = some (Pool.internalName g.builder.name) := by
    have found := makes.thisClass
    rw [makes.pool] at found
    have index : d.thisClass = file.thisClass := by rw [same, ClassFile.reread]
    rw [ClassFile.name?, index, extends_.classNameAt? found]
  have plain : name = Pool.internalName s.name := by
    rw [named, describes.name, Pool.internalName_internalName] at known
    exact Option.some.inj known
  have fields : d.fields = g.builder.fields.toList := by rw [same, ClassFile.reread, makes.fields]
  have methods : d.methods = g.builder.methods.toList := by
    rw [same, ClassFile.reread, makes.methods]
  refine ⟨all, _, plain, found, ?_, fun root => ?_, ⟨own, superclass, rfl⟩,
    describes.declared_fields fields extends_ loaded, describes.apart,
    describes.readable_fields fields extends_ loaded, describes.constructs, describes.admits,
    fun plan inside => ?_⟩
  · rw [LoadedClass.name, LoadedClass.own, loaded.name, plain]
  · have none := makes.superClass
    rw [if_pos (describes.name.trans root)] at none
    have index : d.superClass = 0 := by rw [same, ClassFile.reread, none]
    rw [ClassFile.superName?, if_pos index] at above
    cases above
  · obtain ⟨m, declared, right⟩ :=
      describes.declares methods extends_ loaded superclass plan inside
    refine ⟨m, _, declared, right, ?_⟩
    rwa [LoadedClass.pool, LoadedClass.own, loaded.pool]

theorem Loaded.invokes {k : LoadedClass} (loaded : s.Loaded all k) {spec : MethodSpec}
    {d : MethodDescriptor} (member : spec ∈ s.methods)
    (bound : isSet spec.access Access.staticFlag = false)
    (decoded : MethodDescriptor.decode? spec.descriptor = some d)
    (plainly : ∀ step ∈ s.methodSteps spec, step.isPlain = true) :
    d.paramSlots ≤ 255 ∧ ∃ is, (s.methodSteps spec).Means d false k.pool is ∧
      ∀ {own : LoadedClass} {receiver : Address} {fields : Std.TreeMap String Value} {m : Machine}
        {args : List Value}, m.heap.get receiver = .plain own fields →
        own.findMethod? spec.name spec.descriptor = k.findMethod? spec.name spec.descriptor →
        Value.Suit d.params args → ∃ (a : Activation) (e : Event), a.owner = k ∧ a.Given (.reference receiver) args ∧
          a.Runs is ∧ ∀ fuel, Machine.invokeVirtual fuel (.reference receiver) spec.name
            spec.descriptor args m = a.exec fuel (m.noting e) := by
  have planned : s.methodPlan spec ∈ s.plans all :=
    List.mem_append_right _ (List.mem_map_of_mem member)
  obtain ⟨method, p, declared, ⟨-, -, -, code, coded, made⟩, extends_⟩ := loaded.methods _ planned
  obtain ⟨is, means, enters⟩ := made.enters plainly bound decoded extends_
  refine ⟨made.paramSlots_le decoded, is, means, fun {_ receiver _ _ args} plain inherits suit => ?_⟩
  obtain ⟨a, entered, owner, given, runs⟩ := enters method.name (.reference receiver) args rfl suit
  have reached := inherits.trans (LoadedClass.findMethod?_of_declared declared)
  exact ⟨a, _, owner, given, runs, Machine.invokeVirtual_eq plain reached coded entered⟩

end ProxySpec
end ClassForge
