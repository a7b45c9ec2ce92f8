import ClassForge.Error
import ClassForge.OneIndexed
import ClassForge.Text.ModifiedUtf8
import Std.Data.TreeMap

namespace ClassForge

/-- Slots of entries, and for each entry the least index that holds it. The second slot of a wide
entry is empty. -/
structure Pool where
  slots : OneIndexed (Option Entry) := {}
  lookup : Std.TreeMap (List UInt8) Index := ∅

namespace Pool

/-- The most slots that indices of two bytes leave, besides slot zero. -/
def maxSlots : Nat := 65534

def size (p : Pool) : Nat := p.slots.size

def isEmpty (p : Pool) : Bool := p.size = 0

def count (p : Pool) : Nat := p.size + 1

/-- Nothing for slot zero, the second slot of a wide entry, and slots past the end. -/
def get? (p : Pool) (i : Index) : Option Entry := (p.slots.get? i.toNat).join

def tagAt? (p : Pool) (i : Index) : Option Tag := (p.get? i).map Entry.tag

def find? (p : Pool) (e : Entry) : Option Index := p.lookup[e.bytes]?

def entries (p : Pool) : List (Index × Entry) :=
  p.slots.indexed.filterMap fun (i, slot) => slot.map (UInt16.ofNat i, ·)

/-- Takes slots as they are. Of equal entries the first is found. -/
def ofSlots (slots : List (Option Entry)) : Pool :=
  let slots := OneIndexed.ofList slots
  let lookup := slots.indexed.foldl (fun lookup (i, slot) =>
    match slot with
    | some e => lookup.insertIfNew e.bytes (UInt16.ofNat i)
    | none => lookup) ∅
  ⟨slots, lookup⟩

def same (p q : Pool) : Bool := p.slots.toList == q.slots.toList

def truncate (p : Pool) (n : Nat) : Pool :=
  if p.size ≤ n then p
  else ⟨p.slots.truncate n, p.lookup.filter fun _ i => decide (i.toNat ≤ n)⟩

def append (p : Pool) (e : Entry) : Pool :=
  let index := UInt16.ofNat (p.size + 1)
  let slots := p.slots.push (some e)
  ⟨if e.isWide then slots.push none else slots, p.lookup.insert e.bytes index⟩

/-- The first reference between entries that leads to no entry of an accepted kind. References
may lead forward. -/
def brokenLink? (p : Pool) : Option LinkFault :=
  p.entries.findSome? fun (referrer, e) =>
    e.references.findSome? fun (index, accepted) =>
      let actual := p.tagAt? index
      if actual.any (accepted.contains ·) then none
      else some ⟨referrer, index, accepted.headD .utf8, actual⟩

end Pool

/-- Steps on a pool. What was added before a failure stays. -/
abbrev PoolM := EStateM Error Pool

namespace Pool

def intern (e : Entry) : PoolM Index := fun p =>
  match p.find? e with
  | some i => .ok i p
  | none =>
    let needed := p.size + e.width
    if maxSlots < needed then .error (.poolOverflow needed) p
    else
      let index := UInt16.ofNat (p.size + 1)
      .ok index (p.append e)

def utf8 (text : String) : PoolM Index := do
  let bytes := Text.ModifiedUtf8.encode text
  if 65535 < bytes.length then throw (.encoding (.longText bytes.length))
  else intern (.utf8 bytes)

def internalName (name : String) : String :=
  String.ofList (name.toList.map fun c => if c = '.' then '/' else c)

def classRef (name : String) : PoolM Index := do
  let i ← utf8 (internalName name)
  intern (.classRef i)

def string (value : String) : PoolM Index := do
  let i ← utf8 value
  intern (.string i)

def integer (value : Int32) : PoolM Index := intern (.integer value.toUInt32)

def float (bits : UInt32) : PoolM Index := intern (.float bits)

def highHalf (bits : UInt64) : UInt32 := UInt32.ofNat (bits.toNat / 4294967296)

def lowHalf (bits : UInt64) : UInt32 := UInt32.ofNat bits.toNat

def long (value : Int64) : PoolM Index :=
  intern (.long (highHalf value.toUInt64) (lowHalf value.toUInt64))

def double (bits : UInt64) : PoolM Index := intern (.double (highHalf bits) (lowHalf bits))

def nameAndType (name descriptor : String) : PoolM Index := do
  let n ← utf8 name
  let d ← utf8 descriptor
  intern (.nameAndType n d)

def member (kind : MemberKind) (owner name descriptor : String) : PoolM Index := do
  let c ← classRef owner
  let nt ← nameAndType name descriptor
  intern (.member kind c nt)

def methodType (descriptor : String) : PoolM Index := do
  let d ← utf8 descriptor
  intern (.methodType d)

def methodHandle (kind : ReferenceKind) (target : Index) : PoolM Index := do
  let actual := (← get).tagAt? target
  if actual.any (kind.targets.contains ·) then intern (.methodHandle kind target)
  else throw (.encoding (.handleTarget kind target actual))

def literal : Literal → PoolM Index
  | .int v => integer v
  | .long v => long v
  | .float b => float b
  | .double b => double b
  | .string s => string s

/-- Integers from `first` on, each one more than the last. The answer is the last index. -/
def integersFrom (first : Int32) : Nat → PoolM (Option Index)
  | 0 => return none
  | n + 1 => do
    let i ← integer first
    let last ← integersFrom (first + 1) n
    return some (last.getD i)

inductive Request where
  | utf8 (text : String)
  | classRef (name : String)
  | literal (value : Literal)
  | nameAndType (name descriptor : String)
  | member (kind : MemberKind) (owner name descriptor : String)
  | methodType (descriptor : String)
  | methodHandle (kind : ReferenceKind) (target : Index)
deriving DecidableEq, Repr

def Request.answer : Request → PoolM Index
  | .utf8 text => Pool.utf8 text
  | .classRef name => Pool.classRef name
  | .literal value => Pool.literal value
  | .nameAndType name descriptor => Pool.nameAndType name descriptor
  | .member kind owner name descriptor => Pool.member kind owner name descriptor
  | .methodType descriptor => Pool.methodType descriptor
  | .methodHandle kind target => Pool.methodHandle kind target

def utf8At? (p : Pool) (i : Index) : Option String :=
  match p.get? i with
  | some (.utf8 bytes) => (Text.ModifiedUtf8.decode bytes).toOption
  | _ => none

def classNameAt? (p : Pool) (i : Index) : Option String :=
  match p.get? i with
  | some (.classRef n) => p.utf8At? n
  | _ => none

def nameAndTypeAt? (p : Pool) (i : Index) : Option (String × String) :=
  match p.get? i with
  | some (.nameAndType n d) => do
    let name ← p.utf8At? n
    let descriptor ← p.utf8At? d
    return (name, descriptor)
  | _ => none

def memberAt? (p : Pool) (i : Index) : Option MemberRef :=
  match p.get? i with
  | some (.member _ c nt) => do
    let (name, descriptor) ← p.nameAndTypeAt? nt
    let owner ← p.classNameAt? c
    return ⟨owner, name, descriptor⟩
  | _ => none

def joinHalves (high low : UInt32) : UInt64 := UInt64.ofNat (high.toNat * 4294967296 + low.toNat)

def literalAt? (p : Pool) (i : Index) : Option Literal :=
  match p.get? i with
  | some (.integer bits) => some (.int bits.toInt32)
  | some (.float bits) => some (.float bits)
  | some (.long high low) => some (.long (joinHalves high low).toInt64)
  | some (.double high low) => some (.double (joinHalves high low))
  | some (.string t) => (p.utf8At? t).map .string
  | _ => none

end Pool
end ClassForge
