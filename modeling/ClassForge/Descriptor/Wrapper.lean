import ClassForge.Descriptor.Basic

namespace ClassForge

def FieldType.wrapper? : FieldType → Option String
  | boolean => some "java/lang/Boolean"
  | byte => some "java/lang/Byte"
  | char => some "java/lang/Character"
  | short => some "java/lang/Short"
  | int => some "java/lang/Integer"
  | long => some "java/lang/Long"
  | float => some "java/lang/Float"
  | double => some "java/lang/Double"
  | object _ | array _ => none

def FieldType.wrapped : List FieldType := [boolean, char, byte, short, int, long, float, double]

def FieldType.ofWrapper? (name : String) : Option FieldType :=
  wrapped.find? fun t => t.wrapper? = some name

def FieldType.wrapsNumber : FieldType → Bool
  | byte | short | int | long | float | double => true
  | _ => false

theorem FieldType.ofWrapper?_eq_some {t : FieldType} {name : String}
    (h : t.wrapper? = some name) : ofWrapper? name = some t := by
  cases t <;> simp only [wrapper?, Option.some.injEq, reduceCtorEq] at h <;> subst h <;> decide

end ClassForge
