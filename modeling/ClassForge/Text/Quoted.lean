import ClassForge.Text.Shown

namespace ClassForge.Text

def hexDigit (n : Nat) : Char :=
  if n < 10 then Char.ofNat (48 + n) else Char.ofNat (87 + n)

def hex (n : Nat) : List Char :=
  if n < 16 then [hexDigit n] else hex (n / 16) ++ [hexDigit (n % 16)]

def escape (c : Char) : List Char :=
  match c with
  | '"' => ['\\', '"']
  | '\\' => ['\\', '\\']
  | '\n' => ['\\', 'n']
  | '\r' => ['\\', 'r']
  | '\t' => ['\\', 't']
  | _ =>
    if c.toNat = 0 then ['\\', '0']
    else if isShown c then [c]
    else "\\u\x7b".toList ++ hex c.toNat ++ ['\x7d']

def quoted (s : String) : String :=
  String.ofList ('"' :: s.toList.flatMap escape ++ ['"'])

def bracketed (xs : List String) : String := "[" ++ ", ".intercalate xs ++ "]"

def record (name : String) (fields : List (String × String)) : String :=
  name ++ " \x7b " ++ ", ".intercalate (fields.map fun (k, v) => k ++ ": " ++ v) ++ " \x7d"

def optional (x : Option String) : String :=
  match x with
  | some x => "Some(" ++ x ++ ")"
  | none => "None"

/-- Bytes as text, reading them as UTF-8 and showing a replacement character for each maximal
part of a sequence that is broken off. -/
def lossy (bytes : List UInt8) : String := String.ofList (go bytes)
where
  lead (b : UInt8) : Option (Nat × UInt8 × UInt8) :=
    if 0xc2 ≤ b && b ≤ 0xdf then some (1, 0x80, 0xbf)
    else if b == 0xe0 then some (2, 0xa0, 0xbf)
    else if b == 0xed then some (2, 0x80, 0x9f)
    else if 0xe1 ≤ b && b ≤ 0xef then some (2, 0x80, 0xbf)
    else if b == 0xf0 then some (3, 0x90, 0xbf)
    else if 0xf1 ≤ b && b ≤ 0xf3 then some (3, 0x80, 0xbf)
    else if b == 0xf4 then some (3, 0x80, 0x8f)
    else none
  within (b lo hi : UInt8) : Bool := lo ≤ b && b ≤ hi
  bits (b : UInt8) : Nat := b.toNat % 64
  go : List UInt8 → List Char
    | [] => []
    | b :: r =>
      if b < 0x80 then Char.ofNat b.toNat :: go r
      else match lead b with
        | none => '\ufffd' :: go r
        | some (n, lo, hi) =>
          match r with
          | [] => ['\ufffd']
          | c :: r =>
            if !within c lo hi then '\ufffd' :: go (c :: r)
            else if n = 1 then Char.ofNat (b.toNat % 32 * 64 + bits c) :: go r
            else match r with
              | [] => ['\ufffd']
              | d :: r =>
                if !within d 0x80 0xbf then '\ufffd' :: go (d :: r)
                else if n = 2 then
                  Char.ofNat (b.toNat % 16 * 4096 + bits c * 64 + bits d) :: go r
                else match r with
                  | [] => ['\ufffd']
                  | e :: r =>
                    if !within e 0x80 0xbf then '\ufffd' :: go (e :: r)
                    else
                      Char.ofNat (b.toNat % 8 * 262144 + bits c * 4096 + bits d * 64 + bits e)
                        :: go r
  termination_by bytes => bytes.length

end ClassForge.Text
