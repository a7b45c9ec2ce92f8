namespace ClassForge

structure OneIndexed (α : Type) where
  items : Array α := #[]

namespace OneIndexed

variable {α : Type}

def ofList (xs : List α) : OneIndexed α := ⟨xs.toArray⟩

def toList (v : OneIndexed α) : List α := v.items.toList

def size (v : OneIndexed α) : Nat := v.items.size

def isEmpty (v : OneIndexed α) : Bool := v.size = 0

def get? (v : OneIndexed α) (i : Nat) : Option α :=
  match i with
  | 0 => none
  | i + 1 => v.items[i]?

def push (v : OneIndexed α) (x : α) : OneIndexed α := ⟨v.items.push x⟩

def set? (v : OneIndexed α) (i : Nat) (x : α) : Option (OneIndexed α) :=
  match i with
  | 0 => none
  | i + 1 => if h : i < v.items.size then some ⟨v.items.set i x⟩ else none

def truncate (v : OneIndexed α) (n : Nat) : OneIndexed α := ⟨v.items.take n⟩

def indexed (v : OneIndexed α) : List (Nat × α) :=
  v.toList.zipIdx.map fun (x, i) => (i + 1, x)

@[simp] theorem get?_zero (v : OneIndexed α) : v.get? 0 = none := rfl

@[simp] theorem size_push (v : OneIndexed α) (x : α) : (v.push x).size = v.size + 1 := by
  simp [push, size]

end OneIndexed
end ClassForge
