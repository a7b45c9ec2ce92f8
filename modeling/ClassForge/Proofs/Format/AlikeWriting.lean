import ClassForge.Format.Write
import ClassForge.Proofs.Pool.Alike

namespace ClassForge

namespace Writer

variable {p q : Pool}

theorem index_congr (alike : p.Alike q) : index p = index q := by
  funext accepted i
  rw [index, index, Pool.tagAt?, Pool.tagAt?, alike.get?]

theorem indexOrZero_congr (alike : p.Alike q) : indexOrZero p = indexOrZero q := by
  funext accepted i
  rw [indexOrZero, indexOrZero, index_congr alike]

theorem verificationType_congr (alike : p.Alike q) : verificationType p = verificationType q := by
  funext t
  unfold verificationType
  rw [index_congr alike]

theorem frame_congr (alike : p.Alike q) : frame p = frame q := by
  funext f
  unfold frame
  rw [verificationType_congr alike]

theorem handler_congr (alike : p.Alike q) : handler p = handler q := by
  funext h
  rw [handler, handler, indexOrZero_congr alike]

theorem localVariable_congr (alike : p.Alike q) : localVariable p = localVariable q := by
  funext v
  rw [localVariable, localVariable, index_congr alike]

theorem name_congr (alike : p.Alike q) : name p = name q := by
  funext a
  unfold name
  simp only [index_congr alike, alike.find]

mutual

theorem content_congr (alike : p.Alike q) (a : Attribute) : content p a = content q a := by
  match a with
  | .code ⟨maxStack, maxLocals, bytes, handlers, attributes⟩ =>
    simp only [content, handler_congr alike, attributeParts_congr alike attributes]
  | .constantValue _ | .exceptions _ | .signature _ | .sourceFile _ =>
    simp only [content, index_congr alike]
  | .stackMap _ => simp only [content, frame_congr alike]
  | .localVariables _ => simp only [content, localVariable_congr alike]
  | .synthetic | .deprecated | .lineNumbers _ | .other .. => simp only [content]

theorem attributeParts_congr (alike : p.Alike q) (as : List Attribute)
    (written : List (List UInt8)) : attributeParts p as written = attributeParts q as written := by
  match as with
  | [] => simp only [attributeParts]
  | a :: rest =>
    simp only [attributeParts, name_congr alike, content_congr alike a,
      attributeParts_congr alike rest]

end

theorem attributes_congr (alike : p.Alike q) : attributes p = attributes q := by
  funext as
  unfold attributes
  simp only [attributeParts_congr alike]

theorem member_congr (alike : p.Alike q) : member p = member q := by
  funext m
  unfold member
  rw [index_congr alike, attributes_congr alike]

theorem pool_congr (alike : p.Alike q) : pool p = pool q := by
  unfold pool
  rw [Pool.entries, Pool.entries, Pool.count, Pool.count, alike.size, alike.slots]

end Writer

theorem ClassFile.write_congr {m : ClassFile} {p q : Pool} (alike : p.Alike q) :
    write { m with pool := p } = write { m with pool := q } := by
  unfold write Writer.classFile
  simp only [Writer.pool_congr alike, Writer.index_congr alike, Writer.indexOrZero_congr alike,
    Writer.member_congr alike, Writer.attributes_congr alike]

end ClassForge
