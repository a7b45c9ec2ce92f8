import ClassForge.Machine.Basic

namespace ClassForge

namespace Object

/-- Whether the object is an instance of a class other than the root of all. Arrays are instances
of their own type only, except that arrays of references are also arrays of objects. -/
def isInstance (o : Object) (name : String) : Bool :=
  match o with
  | plain c _ => c.isSubclassOf name
  | array component _ =>
    o.className = name || (name = "[Ljava/lang/Object;" && component.isReference)
  | string _ => [stringClass, "java/lang/CharSequence", "java/lang/Comparable"].contains name
  | builder _ => name = builderClass || name = "java/lang/CharSequence"
  | box wrapper _ =>
    wrapper = name ||
      (name = "java/lang/Number" && (FieldType.ofWrapper? wrapper).any FieldType.wrapsNumber)
  | handler h => h.interface = name

end Object

def Heap.isInstance (h : Heap) (v : Value) (name : String) : Bool :=
  match h.object? v with
  | some o => name = objectClass || o.isInstance name
  | none => false

end ClassForge
