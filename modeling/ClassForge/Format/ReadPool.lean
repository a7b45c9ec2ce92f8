import ClassForge.Format.Cursor

namespace ClassForge.Reader

def textBytes : Reader (List UInt8) := do
  let length ← u16
  let start ← offset
  let bytes ← take length.toNat
  match bytes.findIdx? Text.ModifiedUtf8.isForbidden with
  | some i => failAt (start + i) (.forbiddenByte (bytes.getD i 0))
  | none => return bytes

def referenceKind : Reader ReferenceKind := do
  let start ← offset
  let b ← u8
  match ReferenceKind.ofByte? b with
  | some kind => return kind
  | none => failAt start (.unknownReferenceKind b)

def entry : Reader Entry := do
  let start ← offset
  let b ← u8
  match Tag.ofByte b with
  | .classRef => return .classRef (← u16)
  | .member kind => return .member kind (← u16) (← u16)
  | .string => return .string (← u16)
  | .integer => return .integer (← u32)
  | .float => return .float (← u32)
  | .long => return .long (← u32) (← u32)
  | .double => return .double (← u32) (← u32)
  | .nameAndType => return .nameAndType (← u16) (← u16)
  | .utf8 => return .utf8 (← textBytes)
  | .methodHandle => return .methodHandle (← referenceKind) (← u16)
  | .methodType => return .methodType (← u16)
  | .dynamic => return .dynamic (← u16) (← u16)
  | .invokeDynamic => return .invokeDynamic (← u16) (← u16)
  | .moduleRef => return .moduleRef (← u16)
  | .packageRef => return .packageRef (← u16)
  | .unknown b => failAt start (.unknownTag b)

abbrev PlacedSlots := List (Nat × Option Entry)

/-- Reads entries until `slots` slots are filled. A wide entry does not fit the last slot. -/
def entries (slots : Nat) : Reader PlacedSlots := go slots []
where
  go : Nat → PlacedSlots → Reader PlacedSlots
    | 0, read => return read.reverse
    | remaining + 1, read => do
      let start ← offset
      let e ← entry
      if e.isWide then
        match remaining with
        | 0 => failAt start (.badPoolCount (slots + 1))
        | remaining + 1 => go remaining ((start, none) :: (start, some e) :: read)
      else go remaining ((start, some e) :: read)

def linkReason (link : LinkFault) : Reason :=
  match link.actual with
  | none => .noEntry link.index
  | some actual => .wrongTag link.index link.expected actual

/-- A pool whose references all lead to acceptable entries. A reference that does not is reported
at the entry that holds it. -/
def pool : Reader Pool := do
  let start ← offset
  let count ← u16
  if count = 0 then failAt start (.badPoolCount 0)
  else
    let placed ← entries (count.toNat - 1)
    let p := Pool.ofSlots (placed.map (·.2))
    match p.brokenLink? with
    | some link =>
      let places := (placed.map (·.1)).toArray
      failAt (places.getD (link.referrer.toNat - 1) 0) (linkReason link)
    | none => return p

end ClassForge.Reader
