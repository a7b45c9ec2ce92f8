import ClassForge.Pool.Entry

namespace ClassForge

inductive VerificationType where
  | top
  | integer
  | float
  | long
  | double
  | null
  | uninitializedThis
  | object (classRef : Index)
  /-- An object made by the instruction at `offset` whose constructor has not run. -/
  | uninitialized (offset : UInt16)
deriving DecidableEq, Repr

namespace VerificationType

def byte : VerificationType → UInt8
  | top => 0
  | integer => 1
  | float => 2
  | double => 3
  | long => 4
  | null => 5
  | uninitializedThis => 6
  | object _ => 7
  | uninitialized _ => 8

def shown : VerificationType → String
  | top => "Top"
  | integer => "Integer"
  | float => "Float"
  | long => "Long"
  | double => "Double"
  | null => "Null"
  | uninitializedThis => "UninitializedThis"
  | object c => Text.record "Object" [("class_index", toString c.toNat)]
  | uninitialized o => Text.record "Uninitialized" [("offset", toString o.toNat)]

end VerificationType

inductive Frame where
  | same (delta : UInt8)
  | sameLocalsOneItem (delta : UInt8) (item : VerificationType)
  | sameLocalsOneItemExtended (delta : UInt16) (item : VerificationType)
  | chop (delta : UInt16) (count : UInt8)
  | sameExtended (delta : UInt16)
  | append (delta : UInt16) (locals : List VerificationType)
  | full (delta : UInt16) (locals stack : List VerificationType)
deriving DecidableEq, Repr

namespace Frame

/-- The byte that introduces the frame. Compact forms have room for small deltas and counts
only. -/
def type? : Frame → Option UInt8
  | same delta => if delta ≤ 63 then some delta else none
  | sameLocalsOneItem delta _ => if delta ≤ 63 then some (64 + delta) else none
  | sameLocalsOneItemExtended .. => some 247
  | chop _ count => if 1 ≤ count ∧ count ≤ 3 then some (251 - count) else none
  | sameExtended _ => some 251
  | append _ locals =>
    if 1 ≤ locals.length ∧ locals.length ≤ 3 then some (UInt8.ofNat (251 + locals.length)) else none
  | full .. => some 255

def shown (f : Frame) : String :=
  let number8 (n : UInt8) := toString n.toNat
  let number (n : UInt16) := toString n.toNat
  let types (ts : List VerificationType) := Text.bracketed (ts.map (·.shown))
  match f with
  | same d => Text.record "SameFrame" [("offset_delta", number8 d)]
  | sameLocalsOneItem d t =>
    Text.record "SameLocals1StackItemFrame" [("offset_delta", number8 d), ("stack_item", t.shown)]
  | sameLocalsOneItemExtended d t =>
    Text.record "SameLocals1StackItemFrameExtended"
      [("offset_delta", number d), ("stack_item", t.shown)]
  | chop d n => Text.record "ChopFrame" [("offset_delta", number d), ("num_chopped", number8 n)]
  | sameExtended d => Text.record "SameFrameExtended" [("offset_delta", number d)]
  | append d ls => Text.record "AppendFrame" [("offset_delta", number d), ("locals", types ls)]
  | full d ls st =>
    Text.record "FullFrame" [("offset_delta", number d), ("locals", types ls), ("stack", types st)]

end Frame

inductive FrameTag where
  | same (byte : UInt8)
  | sameLocalsOneItem (byte : UInt8)
  | sameLocalsOneItemExtended
  | chop (byte : UInt8)
  | sameExtended
  | append (byte : UInt8)
  | full
  | reserved (byte : UInt8)
deriving DecidableEq, Repr

namespace FrameTag

def ofByte (b : UInt8) : FrameTag :=
  if b ≤ 63 then same b
  else if b ≤ 127 then sameLocalsOneItem b
  else if b ≤ 246 then reserved b
  else if b = 247 then sameLocalsOneItemExtended
  else if b ≤ 250 then chop b
  else if b = 251 then sameExtended
  else if b ≤ 254 then append b
  else full

def shown : FrameTag → String
  | same b => s!"SameFrame({b.toNat})"
  | sameLocalsOneItem b => s!"SameLocals1StackItemFrame({b.toNat})"
  | sameLocalsOneItemExtended => "SameLocals1StackItemFrameExtended"
  | chop b => s!"ChopFrame({b.toNat})"
  | sameExtended => "SameFrameExtended"
  | append b => s!"AppendFrame({b.toNat})"
  | full => "FullFrame"
  | reserved b => s!"Reserved({b.toNat})"

end FrameTag
end ClassForge
