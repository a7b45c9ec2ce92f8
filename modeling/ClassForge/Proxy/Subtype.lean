import ClassForge.ClassBuilder.Basic

namespace ClassForge

def knownSupertypes (name : String) : List String :=
  if name = "java/lang/String" then
    ["java/lang/CharSequence", "java/lang/Comparable", "java/io/Serializable"]
  else if name = "java/lang/Number" then ["java/io/Serializable"]
  else match FieldType.ofWrapper? name with
    | some t =>
      if t.wrapsNumber then ["java/lang/Number", "java/lang/Comparable", "java/io/Serializable"]
      else ["java/lang/Comparable", "java/io/Serializable"]
    | none => []

/-- Whether a value of one type may stand for another: the same type, any reference for the root
class, arrays for what all arrays extend, and value classes for their known supertypes. -/
def assignable (source target : FieldType) : Bool :=
  match source, target with
  | .object s, .object t => t = objectClass || s = t || (knownSupertypes s).contains t
  | .array _, .object t =>
    t = objectClass || t = "java/lang/Cloneable" || t = "java/io/Serializable"
  | s, t => s = t

def literalFits (value : Literal) (target : FieldType) : Bool :=
  match value, target with
  | .int _, t => ClassBuilder.isIntLike t
  | .long _, .long | .float _, .float | .double _, .double => true
  | .string _, t => assignable (.object "java/lang/String") t
  | _, _ => false

end ClassForge
