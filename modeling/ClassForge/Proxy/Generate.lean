import ClassForge.Proxy.Bodies

namespace ClassForge

structure Generation where
  builder : ClassBuilder
  bodies : Array Transcript := #[]

abbrev GenerateM := EStateM Error Generation

namespace Generation

def onBuilder {α : Type} (m : BuilderM α) : GenerateM α := fun g =>
  let builder := g.builder
  let g := { g with builder := { name := "" } }
  match m builder with
  | .ok a b => .ok a { g with builder := b }
  | .error e b => .error e { g with builder := b }

def refuse {α : Type} (u : Unsupported) : GenerateM α := throw (.unsupported u)

def privateFinal : UInt16 := Access.privateFlag ||| Access.finalFlag

/-- No capture has the name of the field of the handler. -/
def addHandlerField (s : ProxySpec) : GenerateM Unit := do
  match s.handler with
  | none => return ()
  | some c =>
    if (s.captures.map (·.1)).contains c.field then refuse (.handlerFieldCaptured c.field)
    else onBuilder (ClassBuilder.field privateFinal c.field c.type)

def addCaptures (before : List String) : List (String × FieldType) → GenerateM Unit
  | [] => return ()
  | (name, type) :: rest => do
    if before.contains name then refuse (.capturedTwice name)
    else
      onBuilder (ClassBuilder.field privateFinal name type)
      addCaptures (name :: before) rest

def signatures (s : ProxySpec) (before : List (String × ConstructorSpec)) :
    List ConstructorSpec → Except Error (List (String × ConstructorSpec))
  | [] => .ok before.reverse
  | c :: rest => do
    let descriptor := constructorDescriptor (← s.constructorParams c)
    if (before.lookup descriptor).isSome then throw (.unsupported (.constructorTwice descriptor))
    else signatures s ((descriptor, c) :: before) rest

/-- Follows a constructor to the one that it leads to. No constructor on the way, which `visited`
holds, is met again, so as many steps as there are constructors are enough. -/
def checkDelegation (s : ProxySpec) (all : List (String × ConstructorSpec)) (visited : List String)
    (descriptor : String) (c : ConstructorSpec) : Nat → Except Error Unit
  | 0 => .ok ()
  | fuel + 1 =>
    match c.kind with
    | .forwarding .. => .ok ()
    | .delegating _ target _ =>
      let visited := descriptor :: visited
      let next := constructorDescriptor (s.declaredParams target)
      match all.lookup next with
      | none => .error (.unsupported (.missingConstructor s.name next))
      | some c =>
        if visited.contains next then .error (.unsupported (.delegationLoop s.name next))
        else checkDelegation s all visited next c fuel

def liftExcept {α : Type} : Except Error α → GenerateM α
  | .ok a => return a
  | .error e => throw e

def addConstructor (s : ProxySpec) (all : List (String × ConstructorSpec)) (descriptor : String)
    (c : ConstructorSpec) : GenerateM Unit := do
  liftExcept (checkDelegation s all [] descriptor c all.length)
  onBuilder do
    ClassBuilder.note (.constructorPlanned s.name descriptor)
    ClassBuilder.code { name := constructorName, descriptor := descriptor, access := c.access }
      (s.constructorBody c)

/-- A class without constructors gets one that captures nothing. -/
def constructorsOf (s : ProxySpec) : List ConstructorSpec :=
  if s.constructors.isEmpty then [⟨.forwarding [] [], Access.publicFlag⟩] else s.constructors

/-- Every signature is checked before the first constructor is added. -/
def addConstructors (s : ProxySpec) : GenerateM Unit := do
  let all ← liftExcept (signatures s [] (constructorsOf s))
  all.forM fun (descriptor, c) => addConstructor s all descriptor c

def addAssembled (h : MethodHead) (steps : Listing) : GenerateM Unit := fun g =>
  let keep (g : Generation) : Generation :=
    match g.builder.lastRun with
    | some t => { g with bodies := g.bodies.push t }
    | none => g
  match onBuilder (ClassBuilder.code h steps) g with
  | .ok _ g => .ok () (keep g)
  | .error e g => .error e (keep g)

/-- The body that `make` gives for the descriptor. A descriptor that does not decode is refused
before the body matters. -/
def bodyFor (descriptor : String) (make : MethodDescriptor → Listing) : Listing :=
  ((MethodDescriptor.decode? descriptor).map make).getD []

def addMethod (s : ProxySpec) (m : MethodSpec) : GenerateM Unit := do
  let head : MethodHead := { name := m.name, descriptor := m.descriptor, access := m.access }
  if m.name = constructorName ∨ m.name = "<clinit>" then refuse (.notOrdinary m.name)
  else if isSet m.access Access.bridgeFlag then refuse (.bridge m.name m.descriptor)
  else
    onBuilder (ClassBuilder.note (.methodPlanned s.name m.name m.descriptor m.body.kind))
    match m.body with
    | .handled =>
      match s.handler with
      | none => refuse (.noHandler m.name)
      | some c =>
        if head.isStatic then refuse (.staticHandler m.name)
        else onBuilder (ClassBuilder.code head (bodyFor m.descriptor (s.handlerBody c m.name)))
    | .returning field =>
      if head.isStatic then refuse (.staticField m.name field)
      else
        match s.captureType? field with
        | none => refuse (s.unknownCapture field)
        | some type =>
          onBuilder (ClassBuilder.code head (bodyFor m.descriptor (s.returningBody field type)))
    | .assembled steps => addAssembled head steps

def addMethods (s : ProxySpec) (before : List (String × String)) : List MethodSpec → GenerateM Unit
  | [] => return ()
  | m :: rest => do
    if before.contains (m.name, m.descriptor) then refuse (.methodTwice m.name m.descriptor)
    else
      addMethod s m
      addMethods s ((m.name, m.descriptor) :: before) rest

def addMembers (s : ProxySpec) : GenerateM Unit := do
  addHandlerField s
  addCaptures [] s.captures
  addConstructors s
  addMethods s [] s.methods

def run {α : Type} (s : ProxySpec) (make : BuilderM α) : GenerateM α := do
  addMembers s
  onBuilder make

end Generation

namespace ProxySpec

def start (s : ProxySpec) (cache : DescriptorCache) : ClassBuilder :=
  let c := ((ClassBuilder.ofName s.name).extending s.superName).withVersion s.major s.minor
  let c := (c.withDefaultConstructor false).withCache cache
  let c := s.interfaces.foldl ClassBuilder.implementing c
  let c := (s.sourceFile.map c.withSourceFile).getD c
  { c with journal := #[.generating s.name s.superName s.interfaces] }

theorem start_eq (s : ProxySpec) (cache : DescriptorCache) : s.start cache =
    { ClassBuilder.ofName s.name with
      superName := Pool.internalName s.superName
      interfaces := (s.interfaces.map Pool.internalName).toArray
      major := s.major, minor := s.minor, sourceFile := s.sourceFile
      defaultConstructor := false, cache := cache
      journal := #[.generating s.name s.superName s.interfaces] } := by
  cases file : s.sourceFile <;>
    simp [start, file, ClassBuilder.foldl_implementing, ClassBuilder.ofName, ClassBuilder.extending,
      ClassBuilder.withVersion, ClassBuilder.withDefaultConstructor, ClassBuilder.withCache,
      ClassBuilder.withSourceFile]

def generateWith {α : Type} (make : BuilderM α) (s : ProxySpec) (cache : DescriptorCache) :
    Except Error α × Generation :=
  match Generation.run s make { builder := s.start cache } with
  | .ok a g => (.ok a, g)
  | .error e g => (.error e, g)

def generate (s : ProxySpec) (cache : DescriptorCache) : Except Error ClassFile × Generation :=
  s.generateWith ClassBuilder.build cache

def generateBytes (s : ProxySpec) (cache : DescriptorCache) :
    Except Error (List UInt8) × Generation :=
  s.generateWith ClassBuilder.toBytes cache

end ProxySpec
end ClassForge
