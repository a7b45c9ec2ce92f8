import ClassForge.Descriptor.Cache
import ClassForge.Format.ReadClass
import Mathlib.Data.List.Dedup

namespace ClassForge.DescriptorCache

open MethodDescriptor (decode?)

def after (cache : DescriptorCache) (asked : List String) : DescriptorCache :=
  asked.foldl (fun cache text => (cache.method? text).2) cache

theorem get?_method? (cache : DescriptorCache) (text other : String) :
    (cache.method? text).2.methods[other]? =
      if other = text then decode? text else cache.methods[other]? := by
  unfold method?
  split
  · rename_i d found
    split
    · rename_i same
      rw [same, found, cache.decodes text d found]
    · rfl
  · rename_i absent
    split
    · rename_i d decoded
      rw [Std.TreeMap.getElem?_insert]
      simp only [Std.LawfulEqCmp.compare_eq_iff_eq, eq_comm (a := text), decoded]
    · rename_i refused
      split
      · rename_i same
        rw [same, absent, refused]
      · rfl

theorem get?_after (cache : DescriptorCache) (asked : List String) (text : String) :
    (cache.after asked).methods[text]? =
      if text ∈ asked then decode? text else cache.methods[text]? := by
  induction asked generalizing cache with
  | nil => simp [after]
  | cons first rest ih =>
    change ((cache.method? first).2.after rest).methods[text]? = _
    rw [ih, get?_method?]
    by_cases later : text ∈ rest
    · simp [later]
    · by_cases now : text = first <;> simp [later, now]

theorem size_after (asked : List String) :
    (after {} asked).size = (asked.filter (Reader.acceptsMethod ·)).dedup.length := by
  rw [size, ← Std.TreeMap.length_keys]
  refine List.Perm.length_eq ?_
  refine (List.perm_ext_iff_of_nodup Std.TreeMap.nodup_keys (List.nodup_dedup _)).2 fun text => ?_
  rw [Std.TreeMap.mem_keys, Std.TreeMap.mem_iff_isSome_getElem?, get?_after, List.mem_dedup,
    List.mem_filter, Reader.acceptsMethod]
  by_cases member : text ∈ asked <;> simp [member]

end ClassForge.DescriptorCache
