import ClassForge.Descriptor.Reader
import Std.Data.TreeMap

namespace ClassForge

theorem MethodDescriptor.decodes_empty (text : String) (d : MethodDescriptor)
    (found : (∅ : Std.TreeMap String MethodDescriptor)[text]? = some d) :
    decode? text = some d := by
  simp at found

/-- Texts that decode, each with what it decodes to. -/
structure DescriptorCache where
  methods : Std.TreeMap String MethodDescriptor := ∅
  decodes : ∀ text d, methods[text]? = some d → MethodDescriptor.decode? text = some d := by
    exact MethodDescriptor.decodes_empty

namespace DescriptorCache

theorem decodes_insert {methods : Std.TreeMap String MethodDescriptor}
    (decodes : ∀ text d, methods[text]? = some d → MethodDescriptor.decode? text = some d)
    {text : String} {d : MethodDescriptor} (decoded : MethodDescriptor.decode? text = some d) :
    ∀ other d', (methods.insert text d)[other]? = some d' →
      MethodDescriptor.decode? other = some d' := by
  intro other d' found
  rw [Std.TreeMap.getElem?_insert] at found
  split at found
  · rename_i same
    rw [← Std.LawfulEqCmp.compare_eq_iff_eq.1 same, decoded, found]
  · exact decodes other d' found

def size (cache : DescriptorCache) : Nat := cache.methods.size

def isEmpty (cache : DescriptorCache) : Bool := cache.size = 0

def method? (cache : DescriptorCache) (text : String) : Option MethodDescriptor × DescriptorCache :=
  match cache.methods[text]? with
  | some d => (some d, cache)
  | none =>
    match h : MethodDescriptor.decode? text with
    | some d => (some d, ⟨cache.methods.insert text d, decodes_insert cache.decodes h⟩)
    | none => (none, cache)

/-- What was remembered makes no difference to the answer. -/
theorem method?_fst (cache : DescriptorCache) (text : String) :
    (cache.method? text).1 = MethodDescriptor.decode? text := by
  unfold method?
  split
  · rename_i d found
    exact (cache.decodes text d found).symm
  · split <;> simp [*]

end DescriptorCache
end ClassForge
