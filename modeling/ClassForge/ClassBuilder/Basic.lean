import ClassForge.Code.Listing
import ClassForge.Format.Write

namespace ClassForge

structure ClassBuilder where
  name : String
  superName : String := objectClass
  interfaces : Array String := #[]
  access : UInt16 := Access.publicFlag ||| Access.superFlag
  major : UInt16 := 52
  minor : UInt16 := 0
  sourceFile : Option String := none
  /-- Whether a class without constructors gets one that only calls that of its superclass. -/
  defaultConstructor : Bool := true
  pool : Pool := {}
  cache : DescriptorCache := {}
  fields : Array Member := #[]
  methods : Array Member := #[]
  hasConstructor : Bool := false
  lastRun : Option Transcript := none
  journal : Journal := #[]

/-- Steps on a class. What a failed step did to the pool stays unless it says otherwise. -/
abbrev BuilderM := EStateM Error ClassBuilder

structure MethodHead where
  name : String
  descriptor : String
  access : UInt16 := Access.publicFlag
  throws : List String := []
  maxStack : Option UInt16 := none
deriving DecidableEq, Repr

namespace MethodHead

def isStatic (h : MethodHead) : Bool := isSet h.access Access.staticFlag

def hasBody (h : MethodHead) : Bool :=
  !isSet h.access Access.abstractFlag && !isSet h.access Access.nativeFlag

end MethodHead

namespace ClassBuilder

def maxParameterSlots : Nat := 255

/-- Class files of this version and newer need stack maps. -/
def stackMapMajor : UInt16 := 50

def ofName (name : String) : ClassBuilder := { name := Pool.internalName name }

def withVersion (c : ClassBuilder) (major minor : UInt16) : ClassBuilder :=
  { c with major := major, minor := minor }

def withAccess (c : ClassBuilder) (flags : UInt16) : ClassBuilder := { c with access := flags }

def extending (c : ClassBuilder) (name : String) : ClassBuilder :=
  { c with superName := Pool.internalName name }

def implementing (c : ClassBuilder) (name : String) : ClassBuilder :=
  { c with interfaces := c.interfaces.push (Pool.internalName name) }

theorem foldl_implementing (c : ClassBuilder) (names : List String) :
    names.foldl implementing c =
      { c with interfaces := c.interfaces ++ (names.map Pool.internalName).toArray } := by
  induction names generalizing c with
  | nil => simp
  | cons name rest ih => simp [ih, implementing]

def withSourceFile (c : ClassBuilder) (file : String) : ClassBuilder :=
  { c with sourceFile := some file }

def withDefaultConstructor (c : ClassBuilder) (wanted : Bool) : ClassBuilder :=
  { c with defaultConstructor := wanted }

def withCache (c : ClassBuilder) (known : DescriptorCache) : ClassBuilder :=
  { c with cache := known }

def note (e : Event) : BuilderM Unit := modify fun c => { c with journal := c.journal.push e }

def noteAll (j : Journal) : BuilderM Unit := modify fun c => { c with journal := c.journal ++ j }

def onPool {α : Type} (m : PoolM α) : BuilderM α := fun c =>
  let pool := c.pool
  let size := pool.size
  let c := { c with pool := {} }
  let done (p : Pool) : ClassBuilder :=
    { c with pool := p, journal := c.journal ++ p.changes size }
  match m pool with
  | .ok a p => .ok a (done p)
  | .error e p => .error e (done p)

def truncate (n : Nat) : BuilderM Unit := fun c =>
  let pool := c.pool
  let size := pool.size
  let c := { c with pool := {} }
  let pool := pool.truncate n
  .ok () { c with pool := pool, journal := c.journal ++ pool.changes size }

def addField (access : UInt16) (name : String) (type : FieldType) (attributes : List Attribute) :
    BuilderM Unit := do
  let n ← onPool (Pool.utf8 name)
  let d ← onPool (Pool.utf8 type.descriptor)
  note (.fieldAdded (← get).name name type)
  modify fun c => { c with fields := c.fields.push ⟨access, n, d, attributes⟩ }

def field (access : UInt16) (name : String) (type : FieldType) : BuilderM Unit :=
  addField access name type []

def isIntLike : FieldType → Bool
  | .boolean | .byte | .char | .short | .int => true
  | _ => false

def canStartWith : FieldType → Literal → Bool
  | .long, .long _ | .float, .float _ | .double, .double _ => true
  | .object name, .string _ => name = "java/lang/String"
  | type, .int _ => isIntLike type
  | _, _ => false

def constantField (access : UInt16) (name : String) (type : FieldType) (value : Literal) :
    BuilderM Unit := do
  if canStartWith type value then
    let i ← onPool (Pool.literal value)
    addField access name type [.constantValue i]
  else throw (.unsupported (.constantType value name type))

def decodeDescriptor (descriptor : String) : BuilderM MethodDescriptor := fun c =>
  let (found, cache) := c.cache.method? descriptor
  let c := { c with cache := cache }
  match found with
  | some d => .ok d c
  | none => .error (.invalidDescriptor descriptor) c

def checkSignature (h : MethodHead) : BuilderM Unit := do
  let d ← decodeDescriptor h.descriptor
  if h.name = constructorName ∧ d.returns.isSome then
    throw (.encoding (.constructorReturns (← get).name h.descriptor))
  else
    match d.paramSlots? with
    | .error e => throw e
    | .ok n =>
      let slots := Body.receiverSlots h.isStatic + n.toNat
      if maxParameterSlots < slots then
        throw (.encoding (.parameterSlots h.name h.descriptor slots))
      else return ()

def startBody (h : MethodHead) : BuilderM Body := fun c =>
  let pool := c.pool
  let cache := c.cache
  let c := { c with pool := {}, cache := {} }
  match Body.start pool cache h.descriptor h.isStatic with
  | (.ok b, cache) => .ok { b with declaredStack := h.maxStack } { c with cache := cache }
  | (.error e, cache) => .error e { c with pool := pool, cache := cache }

def runBody (steps : Listing) (b : Body) : BuilderM Body := fun c =>
  let size := b.pool.size
  let (ran, b, transcript) := steps.run b
  let c := { c with
    pool := b.pool, cache := b.cache, lastRun := some transcript,
    journal := c.journal ++ b.pool.changes size }
  match ran with
  | .ok _ => .ok b c
  | .error e => .error e c

/-- The body of a method. Without stack maps there is no code that needs them. -/
def assemble (h : MethodHead) (steps : Listing) : BuilderM Attribute := do
  let b ← startBody h
  let b ← runBody steps b
  let c ← get
  if stackMapMajor ≤ c.major ∧ b.needsStackMap then
    throw (.unsupported (.needsStackMap h.name h.descriptor c.major))
  else
    noteAll b.finishJournal
    match b.finish with
    | .ok code => return .code code
    | .error e => throw e

def finishMethod (h : MethodHead) (code : List Attribute) : BuilderM Member := do
  let n ← onPool (Pool.utf8 h.name)
  let d ← onPool (Pool.utf8 h.descriptor)
  let thrown ← h.throws.mapM fun t => onPool (Pool.classRef t)
  return ⟨h.access, n, d, code ++ if thrown.isEmpty then [] else [.exceptions thrown]⟩

/-- Adds the method that `m` makes. A failure gives back what it added to the pool. -/
def addMethod (h : MethodHead) (m : BuilderM Member) : BuilderM Unit := fun c =>
  let mark := c.pool.size
  match m c with
  | .error e c =>
    match truncate mark c with
    | .ok _ c | .error _ c => .error e c
  | .ok method c =>
    .ok () { c with
      methods := c.methods.push method
      hasConstructor := c.hasConstructor || h.name = constructorName
      journal := c.journal.push (.methodAdded c.name h.name h.descriptor) }

def code (h : MethodHead) (steps : Listing) : BuilderM Unit := do
  modify fun c => { c with lastRun := none }
  checkSignature h
  if h.hasBody then
    addMethod h do
      let body ← assemble h steps
      finishMethod h [body]
  else throw (.unsupported (.codeForbidden h.name))

def noCode (h : MethodHead) : BuilderM Unit := do
  modify fun c => { c with lastRun := none }
  checkSignature h
  if h.hasBody then throw (.unsupported (.codeMissing h.name))
  else addMethod h (finishMethod h [])

def addDefaultConstructor : BuilderM Unit := do
  let c ← get
  note (.defaultConstructor c.name)
  code { name := constructorName, descriptor := "()V" }
    [.loadThis, .invoke .special c.superName constructorName "()V", .leave]

def attributeKinds (c : ClassBuilder) (own : List Attribute) : List Attribute.Kind :=
  c.fields.toList.flatMap (fun f => Attribute.kindsOf f.attributes) ++
    c.methods.toList.flatMap (fun m => Attribute.kindsOf m.attributes) ++ Attribute.kindsOf own

/-- A class without constructors gets one, unless it is an interface or wants none. -/
def completeConstructors : BuilderM Unit := do
  let c ← get
  if c.defaultConstructor && !c.hasConstructor && !isSet c.access Access.interfaceFlag then
    addDefaultConstructor

/-- Zero for the class that all others extend. -/
def superIndex : BuilderM Index := do
  let c ← get
  if c.name = objectClass then return 0 else onPool (Pool.classRef c.superName)

def sourceAttributes : BuilderM (List Attribute) := do
  match (← get).sourceFile with
  | some file => do
    let i ← onPool (Pool.utf8 file)
    return [.sourceFile i]
  | none => return []

/-- Puts the names of all attributes into the pool, from which they are written. -/
def nameAttributes (own : List Attribute) : BuilderM Unit := do
  let c ← get
  (c.attributeKinds own).forM fun k => do
    let _ ← onPool (Pool.utf8 k.name)
    return ()

/-- Everything that the class file refers to goes into the pool here, the names of attributes
last. -/
def build : BuilderM ClassFile := do
  completeConstructors
  let c ← get
  let thisClass ← onPool (Pool.classRef c.name)
  let superClass ← superIndex
  let interfaces ← c.interfaces.toList.mapM fun i => onPool (Pool.classRef i)
  let attributes ← sourceAttributes
  nameAttributes attributes
  let c ← get
  note (.builtClass c.name c.fields.size c.methods.size c.pool.size)
  return {
    minor := c.minor, major := c.major, pool := c.pool, access := c.access
    thisClass, superClass, interfaces, attributes
    fields := c.fields.toList, methods := c.methods.toList }

def toBytes : BuilderM (List UInt8) := do
  let c ← build
  noteAll c.writeJournal
  match c.write with
  | .ok bytes => return bytes
  | .error e => throw e

end ClassBuilder
end ClassForge
