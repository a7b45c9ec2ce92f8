import ClassForge.Bytes
import ClassForge.Journal

namespace ClassForge

structure Cursor where
  offset : Nat
  bytes : List UInt8
deriving DecidableEq, Repr

structure Fault where
  offset : Nat
  reason : Reason
  journal : Journal := #[]

abbrev Reader := StateT Cursor (Except Fault)

namespace Reader

def failAt {α : Type} (offset : Nat) (reason : Reason) : Reader α :=
  fun _ => .error ⟨offset, reason, #[]⟩

def offset : Reader Nat := fun c => .ok (c.offset, c)

/-- Puts what was read before, as `report` adds it to a journal, in front of what a failure
reports. -/
def after {α : Type} (report : Journal → Journal) (r : Reader α) : Reader α := fun c =>
  match r c with
  | .ok a => .ok a
  | .error f => .error { f with journal := report #[] ++ f.journal }

def u8 : Reader UInt8 := fun c =>
  match c.bytes with
  | a :: rest => .ok (a, ⟨c.offset + 1, rest⟩)
  | [] => .error ⟨c.offset, .ofMismatch .eof, #[]⟩

def u16 : Reader UInt16 := fun c =>
  match c.bytes with
  | a :: b :: rest => .ok (Bytes.toU16 a b, ⟨c.offset + 2, rest⟩)
  | _ => .error ⟨c.offset, .ofMismatch .eof, #[]⟩

def u32 : Reader UInt32 := fun c =>
  match c.bytes with
  | a :: b :: d :: e :: rest => .ok (Bytes.toU32 a b d e, ⟨c.offset + 4, rest⟩)
  | _ => .error ⟨c.offset, .ofMismatch .eof, #[]⟩

def take (n : Nat) : Reader (List UInt8) := fun c =>
  let taken := c.bytes.take n
  if taken.length = n then .ok (taken, ⟨c.offset + n, c.bytes.drop n⟩)
  else .error ⟨c.offset, .ofMismatch .eof, #[]⟩

def expect (wanted : List UInt8) : Reader Unit := fun c =>
  if c.bytes.take wanted.length = wanted then
    .ok ((), ⟨c.offset + wanted.length, c.bytes.drop wanted.length⟩)
  else .error ⟨c.offset, .ofMismatch .tag, #[]⟩

/-- Reads with `other` where `r` fails, from the same place. -/
def orElse {α : Type} (r other : Reader α) : Reader α := fun c =>
  match r c with
  | .ok a => .ok a
  | .error _ => other c

/-- Reads `n` times. A failure reports what `report` adds for everything read before it. -/
def many {α : Type} (r : Reader α) (report : Journal → α → Journal) (n : Nat) : Reader (List α) :=
  go n []
where
  go : Nat → List α → Reader (List α)
    | 0, read => return read.reverse
    | n + 1, read => fun c =>
      match r c with
      | .ok (a, c) => go n (a :: read) c
      | .error f =>
        .error { f with journal := read.foldr (fun a j => report j a) #[] ++ f.journal }

def times {α : Type} (r : Reader α) (n : Nat) : Reader (List α) := many r (fun j _ => j) n

end Reader
end ClassForge
