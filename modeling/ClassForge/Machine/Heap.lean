import ClassForge.Descriptor.Wrapper
import ClassForge.Machine.Class
import ClassForge.Machine.Value

namespace ClassForge

/-- What a handler answers with: a value that is there already, or an object that is made anew
for each call. -/
inductive Response where
  | value (v : Value)
  | literal (l : Literal)
  | builder (text : String)
  | box (wrapper : String) (content : Response)
  | array (component : FieldType) (elements : List Response)
  /-- An object whose constructor does not run. -/
  | plain (of : LoadedClass)
  | handler (interface : String) (answer : Nat → Value → String → List Value → Response)

/-- What stands behind generated classes. It is told the object called, the name and descriptor
of the method, and the arguments. The number of calls of handlers before this one stands for all
that an answer can hang on besides, such as what the handler remembers and what the objects hold.
Objects that are there already are left as they are. -/
structure ProxyHandler where
  interface : String
  answer : Nat → Value → String → List Value → Response

inductive Object where
  | plain (of : LoadedClass) (fields : Std.TreeMap String Value)
  | string (text : String)
  | builder (text : String)
  | box (wrapper : String) (value : Value)
  | array (component : FieldType) (elements : Array Value)
  | handler (h : ProxyHandler)

instance : Inhabited Object := ⟨.string ""⟩

namespace Object

def stringClass : String := "java/lang/String"

def builderClass : String := "java/lang/StringBuilder"

def className : Object → String
  | plain c _ => c.name
  | string _ => stringClass
  | builder _ => builderClass
  | box wrapper _ => wrapper
  | array component _ => (FieldType.array component).descriptor
  | handler h => h.interface

/-- An instance with every field at the value that it starts with. Of fields of one name only the
lowest in the hierarchy is kept. -/
def ofClass (c : LoadedClass) : Object :=
  plain c (c.instanceFields.foldl (fun fields (name, type) => fields.insert name (.initial type)) ∅)

end Object

structure Heap where
  objects : Array Object := #[]

namespace Heap

def size (h : Heap) : Nat := h.objects.size

def get (h : Heap) (a : Address) : Object := h.objects.getD a.index default

def alloc (h : Heap) (o : Object) : Address × Heap := (⟨h.size⟩, ⟨h.objects.push o⟩)

def modify (h : Heap) (a : Address) (f : Object → Object) : Heap := ⟨h.objects.modify a.index f⟩

def object? (h : Heap) (v : Value) : Option Object := v.address?.map h.get

def string? (h : Heap) (v : Value) : Option String :=
  match h.object? v with
  | some (.string s) => some s
  | _ => none

def className (h : Heap) : Value → String
  | .int _ => "int"
  | .float _ => "float"
  | .long _ => "long"
  | .double _ => "double"
  | .null => "null"
  | .reference a => (h.get a).className

/-- The text of a value. Objects without a text of their own, and boxes of them, have none. Boxes
are followed up to `fuel` deep. -/
def textWithin (h : Heap) : Nat → Value → Option String
  | _, .int v => some (toString v.toInt)
  | _, .float b => some (Floating.single.render b.toNat)
  | _, .long v => some (toString v.toInt)
  | _, .double b => some (Floating.double.render b.toNat)
  | _, .null => some "null"
  | 0, .reference _ => none
  | fuel + 1, .reference a =>
    match h.get a with
    | .string s | .builder s => some s
    | .box wrapper v =>
      match FieldType.ofWrapper? wrapper with
      | some .boolean => some (if v = .int 0 then "false" else "true")
      | some .char => some (String.singleton (v.char?.getD '\ufffd'))
      | _ => h.textWithin fuel v
    | .plain .. | .array .. | .handler _ => none

/-- A box holds what was there before it, so no way through boxes is longer than the heap. -/
def text? (h : Heap) (v : Value) : Option String := h.textWithin (h.size + 1) v

def text (h : Heap) (v : Value) : String :=
  (h.text? v).getD <|
    match v with
    | .reference a => s!"{h.className v}@{a.index}"
    | _ => ""

def braced (fields : List (String × String)) : String :=
  "\x7b" ++ ", ".intercalate (fields.map fun (k, v) => Text.quoted k ++ ": " ++ v) ++ "\x7d"

def shownWithin (h : Heap) : Nat → Value → String
  | _, .int v => s!"Int({v.toInt})"
  | _, .float b => s!"Float({Floating.single.render b.toNat})"
  | _, .long v => s!"Long({v.toInt})"
  | _, .double b => s!"Double({Floating.double.render b.toNat})"
  | _, .null => "NullReference"
  | 0, .reference _ => "Reference(..)"
  | fuel + 1, .reference a =>
    let inside := match h.get a with
      | .string s => "String(" ++ Text.quoted s ++ ")"
      | .builder s => "StringBuilder(" ++ Text.quoted s ++ ")"
      | .box wrapper v => wrapper ++ "(" ++ h.shownWithin fuel v ++ ")"
      | .array component elements =>
        Text.record "Array" [("component", component.shown),
          ("values", Text.bracketed (elements.toList.map (h.shownWithin fuel)))]
      | .handler x => "Handler(" ++ x.interface ++ ")"
      | .plain c fields =>
        Text.record "Scalar" [("class", Text.quoted c.name),
          ("fields", braced (fields.toList.map fun (k, v) => (k, h.shownWithin fuel v)))]
    "Reference(" ++ inside ++ ")"

def shown (h : Heap) (v : Value) : String := h.shownWithin (h.size + 1) v

end Heap
end ClassForge
