import ClassForge.Format.ReadPool

namespace ClassForge

mutual

def Attribute.contentSize : Attribute → Nat
  | .code ⟨_, _, bytes, handlers, inner⟩ =>
    12 + bytes.length + 8 * handlers.length + Attribute.contentSizes inner
  | .constantValue _ | .signature _ | .sourceFile _ => 2
  | .stackMap frames => 2 + frames.foldr (fun f n => frameSize f + n) 0
  | .exceptions thrown => 2 + 2 * thrown.length
  | .synthetic | .deprecated => 0
  | .lineNumbers lines => 2 + 4 * lines.length
  | .localVariables scopes => 2 + 10 * scopes.length
  | .other _ content => content.length
where
  typeSize : VerificationType → Nat
    | .object _ | .uninitialized _ => 3
    | _ => 1
  typesSize (ts : List VerificationType) : Nat := ts.foldr (fun t n => typeSize t + n) 0
  frameSize : Frame → Nat
    | .same _ => 1
    | .sameLocalsOneItem _ t => 1 + typeSize t
    | .sameLocalsOneItemExtended _ t => 3 + typeSize t
    | .chop .. | .sameExtended _ => 3
    | .append _ locals => 3 + typesSize locals
    | .full _ locals stack => 7 + typesSize locals + typesSize stack

def Attribute.contentSizes : List Attribute → Nat
  | [] => 0
  | a :: rest => 6 + a.contentSize + Attribute.contentSizes rest

end

def Attribute.nameBytes (p : Pool) (a : Attribute) : List UInt8 :=
  match a with
  | .other name _ => match p.get? name with
    | some (.utf8 bytes) => bytes
    | _ => []
  | a => (a.kind?.map Attribute.Kind.bytes).getD []

def Attribute.readEvent (p : Pool) (a : Attribute) : Event :=
  .readAttribute (Text.lossy (a.nameBytes p)) a.contentSize

mutual

/-- Adds to a journal what reading an attribute reports: those inside it come before it. -/
def Attribute.report (p : Pool) (j : Journal) : Attribute → Journal
  | .code ⟨s, l, bytes, handlers, inner⟩ =>
    (Attribute.reportAll p j inner).push
      (Attribute.readEvent p (.code ⟨s, l, bytes, handlers, inner⟩))
  | a => j.push (a.readEvent p)

def Attribute.reportAll (p : Pool) (j : Journal) : List Attribute → Journal
  | [] => j
  | a :: rest => Attribute.reportAll p (a.report p j) rest

end

def Attribute.reportInner (p : Pool) (j : Journal) : Attribute → Journal
  | .code body => Attribute.reportAll p j body.attributes
  | _ => j

namespace Reader

def checkTag (p : Pool) (place : Nat) (i : Index) (tag : Tag) : Reader Unit :=
  match p.tagAt? i with
  | none => failAt place (.noEntry i)
  | some actual => if actual = tag then return () else failAt place (.wrongTag i tag actual)

def indexOf (p : Pool) (tag : Tag) : Reader Index := do
  let start ← offset
  let i ← u16
  checkTag p start i tag
  return i

def indexOrZero (p : Pool) (tag : Tag) : Reader Index := do
  let start ← offset
  let i ← u16
  if i = 0 then return i
  else
    checkTag p start i tag
    return i

def handler (p : Pool) (codeLength : Nat) : Reader Handler := do
  let place ← offset
  let start ← u16
  let stop ← u16
  let handler ← u16
  let catchType ← indexOrZero p .classRef
  if stop ≤ start ∨ codeLength < stop.toNat ∨ codeLength ≤ handler.toNat then
    failAt place (.badHandler start stop handler)
  else return ⟨start, stop, handler, catchType⟩

def verificationType (p : Pool) : Reader VerificationType := do
  let start ← offset
  let b ← u8
  match b with
  | 0 => return .top
  | 1 => return .integer
  | 2 => return .float
  | 3 => return .double
  | 4 => return .long
  | 5 => return .null
  | 6 => return .uninitializedThis
  | 7 => return .object (← indexOf p .classRef)
  | 8 => return .uninitialized (← u16)
  | b => failAt start (.unknownVerificationType b)

def frame (p : Pool) : Reader Frame := do
  let start ← offset
  let b ← u8
  match FrameTag.ofByte b with
  | .same b => return .same b
  | .sameLocalsOneItem b => return .sameLocalsOneItem (b - 64) (← verificationType p)
  | .sameLocalsOneItemExtended =>
    return .sameLocalsOneItemExtended (← u16) (← verificationType p)
  | .chop b => return .chop (← u16) (251 - b)
  | .sameExtended => return .sameExtended (← u16)
  | .append b =>
    let delta ← u16
    let locals ← times (verificationType p) (b.toNat - 251)
    return .append delta locals
  | .full =>
    let delta ← u16
    let localCount ← u16
    let locals ← times (verificationType p) localCount.toNat
    let stackCount ← u16
    let stack ← times (verificationType p) stackCount.toNat
    return .full delta locals stack
  | .reserved b => failAt start (.reservedFrame b)

def lineNumber : Reader LineNumber := do
  let start ← u16
  let line ← u16
  return ⟨start, line⟩

def localVariable (p : Pool) : Reader LocalVariable := do
  let start ← u16
  let length ← u16
  let name ← indexOf p .utf8
  let descriptor ← indexOf p .utf8
  let slot ← u16
  return ⟨start, length, name, descriptor, slot⟩

def table {α : Type} (r : Reader α) : Reader (List α) := do
  let n ← u16
  times r n.toNat

def attributesBy (p : Pool) (one : Reader Attribute) : Reader (List Attribute) := do
  let n ← u16
  many one (Attribute.report p) n.toNat

def code (p : Pool) (one : Reader Attribute) : Reader Code := do
  let maxStack ← u16
  let maxLocals ← u16
  let lengthPlace ← offset
  let length ← u32
  if length = 0 ∨ 65535 < length.toNat then failAt lengthPlace (.badCodeLength length.toNat)
  else
    let bytes ← take length.toNat
    let handlers ← table (handler p length.toNat)
    let attributes ← attributesBy p one
    return ⟨maxStack, maxLocals, bytes, handlers, attributes⟩

def loadable : List Tag := [.integer, .float, .long, .double, .string]

def constantValue (p : Pool) : Reader Index := do
  let start ← offset
  let i ← u16
  match p.tagAt? i with
  | none => failAt start (.noEntry i)
  | some actual =>
    if loadable.contains actual then return i else failAt start (.wrongTag i .integer actual)

def rest : Reader (List UInt8) := fun c => .ok (c.bytes, ⟨c.offset + c.bytes.length, []⟩)

def content (p : Pool) (one : Reader Attribute) (name : Index) :
    Option Attribute.Kind → Reader Attribute
  | some .constantValue => do return .constantValue (← constantValue p)
  | some .code => do return .code (← code p one)
  | some .stackMap => do return .stackMap (← table (frame p))
  | some .exceptions => do return .exceptions (← table (indexOf p .classRef))
  | some .synthetic => return .synthetic
  | some .signature => do return .signature (← indexOf p .utf8)
  | some .sourceFile => do return .sourceFile (← indexOf p .utf8)
  | some .lineNumbers => do return .lineNumbers (← table lineNumber)
  | some .localVariables => do return .localVariables (← table (localVariable p))
  | some .deprecated => return .deprecated
  | none => do return .other name (← rest)

/-- Reads `bytes`, which start at `start`, apart from what follows them. They must be used up. -/
def within (p : Pool) (nameBytes : List UInt8) (start : Nat) (bytes : List UInt8)
    (r : Reader Attribute) : Reader Attribute := fun c =>
  match r ⟨start, bytes⟩ with
  | .error f => .error f
  | .ok (a, left) =>
    match left.bytes with
    | [] => .ok (a, c)
    | _ :: _ =>
      .error ⟨left.offset, .attributeLength (Text.lossy nameBytes) bytes.length
        (left.offset - start), a.reportInner p #[]⟩

/-- An attribute with at most `depth` attributes around one another. Where no byte is left there
is none, so the number of bytes left is depth enough. -/
def nestedAttribute (p : Pool) : Nat → Reader Attribute
  | 0 => fun c => .error ⟨c.offset, .truncated, #[]⟩
  | depth + 1 => do
    let name ← indexOf p .utf8
    let length ← u32
    let start ← offset
    let bytes ← take length.toNat
    let nameBytes := match p.get? name with
      | some (.utf8 bytes) => bytes
      | _ => []
    within p nameBytes start bytes
      (content p (nestedAttribute p depth) name (Attribute.Kind.ofBytes? nameBytes))

def attributes (p : Pool) : Reader (List Attribute) := fun c =>
  attributesBy p (nestedAttribute p c.bytes.length) c

end Reader
end ClassForge
