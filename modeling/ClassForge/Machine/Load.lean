import ClassForge.Code.Body
import ClassForge.Format.ReadClass
import ClassForge.Machine.Basic

namespace ClassForge.Machine

def decodeDescriptor (descriptor : String) : MachineM MethodDescriptor := fun m =>
  let (found, cache) := m.cache.method? descriptor
  let m := { m with cache := cache }
  match found with
  | some d => .ok d m
  | none => .error (.classFormat (.invalidDescriptor descriptor)) m

def readable (part : NamedPart) : Option String → MachineM String
  | some s => return s
  | none => violation (.unresolvable part)

def startOf (p : Pool) (f : Member) (type : FieldType) : MachineM Value :=
  match f.constantValue?.bind p.literalAt? with
  | some l => ofLiteral l
  | none => return .initial type

structure Fields where
  declared : Std.TreeMap String (UInt16 × FieldType) := ∅
  statics : Std.TreeMap String Value := ∅

def loadField (p : Pool) (fields : Fields) (f : Member) : MachineM Fields := do
  let name ← readable .fieldName (f.name? p)
  let descriptor ← readable .fieldType (f.descriptor? p)
  match FieldType.decode? descriptor with
  | none => throw (.classFormat (.invalidDescriptor descriptor))
  | some type =>
    let declared := fields.declared.insert name (f.access, type)
    if isSet f.access Access.staticFlag then
      let v ← startOf p f type
      return ⟨declared, fields.statics.insert name v⟩
    else return ⟨declared, fields.statics⟩

/-- The parameters and the receiver must fit the locals of a method. -/
def loadMethod (owner : String) (p : Pool) (f : Member) : MachineM Method := do
  let name ← readable .methodName (f.name? p)
  let descriptor ← readable .methodType (f.descriptor? p)
  let d ← decodeDescriptor descriptor
  let m : Method := ⟨name, descriptor, f.access, f.code?⟩
  match m.code with
  | none => return m
  | some code =>
    match Body.slotsFrom m.isStatic d.params with
    | .error _ => throw .slotOverflow
    | .ok needed =>
      if code.maxLocals < needed then
        violation (.fewLocals owner name descriptor code.maxLocals.toNat needed.toNat)
      else return m

def declare (c : ClassFile) (name : String) :
    MachineM (Declaration × Std.TreeMap String Value) := do
  let fields ← c.fields.foldlM (loadField c.pool) {}
  let methods ← c.methods.mapM (loadMethod name c.pool)
  return ({
    name, access := c.access, interfaces := c.interfaceNames, pool := c.pool
    fields := fields.declared, methods := methods.reverse }, fields.statics)

def parse (bytes : List UInt8) : MachineM ClassFile := do
  modify fun m => { m with journal := m.journal ++ ClassFile.parseJournal bytes }
  match ClassFile.parse bytes with
  | .ok c => return c
  | .error e => throw (.classFormat e)

/-- Defines a class, of which none has the name yet. The class that it extends must be there. The
answer is the name. -/
def define (bytes : List UInt8) : MachineM String := do
  let c ← parse bytes
  let name ← readable .className c.name?
  if (← get).classes.contains name then throw (.duplicateClass name)
  else
    match c.superName? with
    | none => violation (.noSuperclass name)
    | some superName =>
      let superclass ← resolve superName
      let (own, statics) ← declare c name
      note (.definedClass name)
      modify fun m => { m with
        classes := m.classes.insert name (.extending own superclass)
        statics := m.statics.insert name statics }
      return name

end ClassForge.Machine
