import ClassForge.ClassFile.StackMap

namespace ClassForge

structure Handler where
  start : UInt16
  /-- The first offset past the range. -/
  stop : UInt16
  handler : UInt16
  /-- The class caught; zero catches everything. -/
  catchType : Index
deriving DecidableEq, Repr

structure LineNumber where
  start : UInt16
  line : UInt16
deriving DecidableEq, Repr

structure LocalVariable where
  start : UInt16
  length : UInt16
  name : Index
  descriptor : Index
  slot : UInt16
deriving DecidableEq, Repr

structure CodeOf (α : Type) where
  maxStack : UInt16
  maxLocals : UInt16
  bytes : List UInt8
  handlers : List Handler
  attributes : List α
deriving DecidableEq, Repr

inductive Attribute where
  | constantValue (value : Index)
  | code (body : CodeOf Attribute)
  | stackMap (frames : List Frame)
  | exceptions (thrown : List Index)
  | synthetic
  | signature (text : Index)
  | sourceFile (name : Index)
  | lineNumbers (lines : List LineNumber)
  | localVariables (scopes : List LocalVariable)
  | deprecated
  | other (name : Index) (content : List UInt8)
deriving Repr

abbrev Code := CodeOf Attribute

namespace Attribute

inductive Kind where
  | constantValue
  | code
  | stackMap
  | exceptions
  | synthetic
  | signature
  | sourceFile
  | lineNumbers
  | localVariables
  | deprecated
deriving DecidableEq, Repr

namespace Kind

def all : List Kind :=
  [constantValue, code, stackMap, exceptions, synthetic, signature, sourceFile, lineNumbers,
    localVariables, deprecated]

def name : Kind → String
  | constantValue => "ConstantValue"
  | code => "Code"
  | stackMap => "StackMapTable"
  | exceptions => "Exceptions"
  | synthetic => "Synthetic"
  | signature => "Signature"
  | sourceFile => "SourceFile"
  | lineNumbers => "LineNumberTable"
  | localVariables => "LocalVariableTable"
  | deprecated => "Deprecated"

def bytes (k : Kind) : List UInt8 := k.name.toList.map fun c => UInt8.ofNat c.toNat

def ofBytes? (bytes : List UInt8) : Option Kind := all.find? (·.bytes = bytes)

theorem mem_all (k : Kind) : k ∈ all := by cases k <;> decide

end Kind

def kind? : Attribute → Option Kind
  | constantValue _ => some .constantValue
  | code _ => some .code
  | stackMap _ => some .stackMap
  | exceptions _ => some .exceptions
  | synthetic => some .synthetic
  | signature _ => some .signature
  | sourceFile _ => some .sourceFile
  | lineNumbers _ => some .lineNumbers
  | localVariables _ => some .localVariables
  | deprecated => some .deprecated
  | other .. => none

mutual

def kinds : Attribute → List Kind
  | .code ⟨_, _, _, _, inner⟩ => .code :: kindsOf inner
  | .constantValue _ => [.constantValue]
  | .stackMap _ => [.stackMap]
  | .exceptions _ => [.exceptions]
  | .synthetic => [.synthetic]
  | .signature _ => [.signature]
  | .sourceFile _ => [.sourceFile]
  | .lineNumbers _ => [.lineNumbers]
  | .localVariables _ => [.localVariables]
  | .deprecated => [.deprecated]
  | .other .. => []

def kindsOf : List Attribute → List Kind
  | [] => []
  | a :: rest => a.kinds ++ kindsOf rest

end

mutual

def beq : Attribute → Attribute → Bool
  | .code ⟨s, l, bs, hs, as⟩, .code ⟨s', l', bs', hs', as'⟩ =>
    s == s' && l == l' && bs == bs' && hs == hs' && beqAll as as'
  | .constantValue i, .constantValue j => i == j
  | .stackMap fs, .stackMap gs => fs == gs
  | .exceptions is, .exceptions js => is == js
  | .synthetic, .synthetic => true
  | .signature i, .signature j => i == j
  | .sourceFile i, .sourceFile j => i == j
  | .lineNumbers ls, .lineNumbers ms => ls == ms
  | .localVariables vs, .localVariables ws => vs == ws
  | .deprecated, .deprecated => true
  | .other n bs, .other m cs => n == m && bs == cs
  | _, _ => false

def beqAll : List Attribute → List Attribute → Bool
  | [], [] => true
  | a :: as, b :: bs => beq a b && beqAll as bs
  | _, _ => false

end

mutual

theorem beq_iff (a b : Attribute) : beq a b = true ↔ a = b := by
  match a with
  | .code ⟨s, l, bs, hs, as⟩ =>
    cases b with
    | code body =>
      obtain ⟨s', l', bs', hs', as'⟩ := body
      simp [beq, beqAll_iff as as', and_assoc]
    | _ => simp [beq]
  | .constantValue _ | .stackMap _ | .exceptions _ | .synthetic | .signature _ | .sourceFile _
  | .lineNumbers _ | .localVariables _ | .deprecated | .other .. => cases b <;> simp [beq]

theorem beqAll_iff (as bs : List Attribute) : beqAll as bs = true ↔ as = bs := by
  match as, bs with
  | [], [] | [], _ :: _ | _ :: _, [] => simp [beqAll]
  | a :: as, b :: bs => simp [beqAll, beq_iff a b, beqAll_iff as bs]

end

instance : DecidableEq Attribute := fun a b => decidable_of_iff _ (beq_iff a b)

end Attribute
end ClassForge
