import ClassForge.Descriptor.Basic

namespace ClassForge

/-- No part between slashes is empty. The flag says whether a part begins here. -/
def isSegmented : Bool → List Char → Bool
  | fresh, [] => !fresh
  | fresh, '/' :: rest => !fresh && isSegmented true rest
  | _, _ :: rest => isSegmented false rest

def endsName (c : Char) : Bool := c = ';' || c = '.' || c = '['

namespace FieldType

def maxDimensions : Nat := 255

def ofLetter? : Char → Option FieldType
  | 'B' => some byte
  | 'C' => some char
  | 'D' => some double
  | 'F' => some float
  | 'I' => some int
  | 'J' => some long
  | 'S' => some short
  | 'Z' => some boolean
  | _ => none

def readElement : List Char → Option (FieldType × List Char)
  | [] => none
  | 'L' :: rest =>
    let name := rest.takeWhile (!endsName ·)
    match rest.dropWhile (!endsName ·) with
    | ';' :: rest =>
      if isSegmented true name then some (object (String.ofList name), rest) else none
    | _ => none
  | c :: rest => (ofLetter? c).map (·, rest)

def arrayOf (t : FieldType) : Nat → FieldType
  | 0 => t
  | n + 1 => array (t.arrayOf n)

def read (text : List Char) : Option (FieldType × List Char) :=
  let brackets := text.takeWhile (· = '[')
  if maxDimensions < brackets.length then none
  else do
    let (element, rest) ← readElement (text.dropWhile (· = '['))
    return (element.arrayOf brackets.length, rest)

def decode? (text : String) : Option FieldType :=
  match read text.toList with
  | some (t, []) => some t
  | _ => none

theorem readElement_length {text rest : List Char} {t : FieldType}
    (h : readElement text = some (t, rest)) : rest.length < text.length := by
  unfold readElement at h
  split at h
  · cases h
  · rename_i tail
    have shorter := (List.dropWhile_sublist (!endsName ·) (l := tail)).length_le
    simp only at h
    split at h
    · rename_i tail' eq
      rw [eq] at shorter
      split at h
      · cases h
        simp only [List.length_cons] at shorter ⊢
        omega
      · cases h
    · cases h
  · rename_i c tail _
    cases hc : ofLetter? c <;> simp [hc] at h
    simp [h.2]

theorem read_length {text rest : List Char} {t : FieldType} (h : read text = some (t, rest)) :
    rest.length < text.length := by
  unfold read at h
  simp only at h
  split at h
  · cases h
  · cases he : readElement (text.dropWhile (· = '[')) with
    | none => simp [he] at h
    | some p =>
      have shorter := readElement_length he
      have le := (List.dropWhile_sublist (fun c => decide (c = '[')) (l := text)).length_le
      simp [he] at h
      rw [← h.2]
      omega

end FieldType

namespace MethodDescriptor

def readParams (text : List Char) : List FieldType × List Char :=
  match _eq : FieldType.read text with
  | none => ([], text)
  | some (t, rest) =>
    let (params, rest) := readParams rest
    (t :: params, rest)
termination_by text.length
decreasing_by exact FieldType.read_length _eq

def readReturn : List Char → Option (Option FieldType × List Char)
  | 'V' :: rest => some (none, rest)
  | text => (FieldType.read text).map fun (t, rest) => (some t, rest)

def read : List Char → Option (MethodDescriptor × List Char)
  | '(' :: rest =>
    let (params, rest) := readParams rest
    match rest with
    | ')' :: rest => (readReturn rest).map fun (returns, rest) => (⟨params, returns⟩, rest)
    | _ => none
  | _ => none

def decode? (text : String) : Option MethodDescriptor :=
  match read text.toList with
  | some (d, []) => some d
  | _ => none

end MethodDescriptor
end ClassForge
