import ClassForge.Proofs.Format.Links

namespace ClassForge

inductive Piece where
  | raw (bytes : List UInt8)
  | index (i : Index) (accepted : List Tag)
  | indexOrZero (i : Index) (accepted : List Tag)

namespace Piece

def bytes : Piece → List UInt8
  | raw bytes => bytes
  | index i _ | indexOrZero i _ => Bytes.ofU16 i

def links : Piece → List Link
  | raw _ => []
  | index i accepted => [(i, accepted)]
  | indexOrZero i accepted => Link.unlessZero i accepted

def render (pieces : List Piece) : List UInt8 := pieces.flatMap bytes

def linksOf (pieces : List Piece) : List Link := pieces.flatMap links

def table {α : Type} (pieces : α → List Piece) (xs : List α) : List Piece :=
  .raw (Bytes.ofU16 (UInt16.ofNat xs.length)) :: xs.flatMap pieces

def classIndices : List Index → List Piece := table fun i => [.index i [.classRef]]

end Piece

open Piece

def Entry.pieces (e : Entry) : List Piece :=
  .raw [e.tag.byte] :: match e with
    | .classRef n | .moduleRef n | .packageRef n => [.index n [.utf8]]
    | .member _ owner nt => [.index owner [.classRef], .index nt [.nameAndType]]
    | .string t => [.index t [.utf8]]
    | .nameAndType n d => [.index n [.utf8], .index d [.utf8]]
    | .methodHandle kind target => [.raw [kind.byte], .index target kind.targets]
    | .methodType d => [.index d [.utf8]]
    | .dynamic b nt | .invokeDynamic b nt => [.raw (Bytes.ofU16 b), .index nt [.nameAndType]]
    | .integer .. | .float .. | .long .. | .double .. | .utf8 .. => [.raw e.payload]

def Pool.pieces (p : Pool) : List Piece :=
  .raw (Bytes.ofU16 (UInt16.ofNat p.count)) :: (p.slots.toList.filterMap id).flatMap Entry.pieces

def VerificationType.pieces : VerificationType → List Piece
  | object c => [.raw [(object c).byte], .index c [.classRef]]
  | uninitialized o => [.raw ((uninitialized o).byte :: Bytes.ofU16 o)]
  | t => [.raw [t.byte]]

def Frame.restPieces : Frame → List Piece
  | same _ => []
  | sameLocalsOneItem _ t => t.pieces
  | sameLocalsOneItemExtended d t => .raw (Bytes.ofU16 d) :: t.pieces
  | chop d _ | sameExtended d => [.raw (Bytes.ofU16 d)]
  | append d locals => .raw (Bytes.ofU16 d) :: locals.flatMap VerificationType.pieces
  | full d locals stack => .raw (Bytes.ofU16 d) ::
      (table VerificationType.pieces locals ++ table VerificationType.pieces stack)

def Frame.pieces (f : Frame) : List Piece := .raw f.type?.toList :: f.restPieces

def Handler.pieces (h : Handler) : List Piece :=
  [.raw (Bytes.ofU16 h.start ++ Bytes.ofU16 h.stop ++ Bytes.ofU16 h.handler),
    .indexOrZero h.catchType [.classRef]]

def LineNumber.pieces (l : LineNumber) : List Piece :=
  [.raw (Bytes.ofU16 l.start ++ Bytes.ofU16 l.line)]

def LocalVariable.pieces (v : LocalVariable) : List Piece :=
  [.raw (Bytes.ofU16 v.start ++ Bytes.ofU16 v.length), .index v.name [.utf8],
    .index v.descriptor [.utf8], .raw (Bytes.ofU16 v.slot)]

namespace Attribute

/-- The index under which the name of an attribute is written. -/
def nameIndex (p : Pool) : Attribute → Index
  | .other own _ => own
  | a => (a.kind?.bind fun kind => p.find? (.utf8 kind.bytes)).getD 0

mutual

def contentPieces (p : Pool) : Attribute → List Piece
  | .constantValue i => [.index i Reader.loadable]
  | .code ⟨maxStack, maxLocals, bytes, handlers, inner⟩ =>
    .raw (Bytes.ofU16 maxStack ++ Bytes.ofU16 maxLocals ++
      Bytes.ofU32 (UInt32.ofNat bytes.length) ++ bytes) :: (table Handler.pieces handlers ++
        .raw (Bytes.ofU16 (UInt16.ofNat inner.length)) :: piecesOf p inner)
  | .stackMap frames => table Frame.pieces frames
  | .exceptions thrown => classIndices thrown
  | .synthetic | .deprecated => []
  | .signature i | .sourceFile i => [.index i [.utf8]]
  | .lineNumbers lines => table LineNumber.pieces lines
  | .localVariables scopes => table LocalVariable.pieces scopes
  | .other _ bytes => [.raw bytes]

def piecesOf (p : Pool) : List Attribute → List Piece
  | [] => []
  | a :: rest =>
    .index (a.nameIndex p) [.utf8] ::
      .raw (Bytes.ofU32 (UInt32.ofNat (render (a.contentPieces p)).length)) ::
        (a.contentPieces p ++ piecesOf p rest)

end

def countedPieces (p : Pool) (as : List Attribute) : List Piece :=
  .raw (Bytes.ofU16 (UInt16.ofNat as.length)) :: piecesOf p as

end Attribute

def Member.pieces (p : Pool) (m : Member) : List Piece :=
  .raw (Bytes.ofU16 m.access) :: .index m.name [.utf8] :: .index m.descriptor [.utf8] ::
    Attribute.countedPieces p m.attributes

namespace ClassFile

def headerPieces (c : ClassFile) : List Piece :=
  [.raw (Bytes.ofU32 Reader.magicNumber ++ Bytes.ofU16 c.minor ++ Bytes.ofU16 c.major)]

def bodyPieces (c : ClassFile) : List Piece :=
  [.raw (Bytes.ofU16 c.access), .index c.thisClass [.classRef],
    .indexOrZero c.superClass [.classRef]] ++
    classIndices c.interfaces ++ table (Member.pieces c.pool) c.fields ++
      table (Member.pieces c.pool) c.methods ++ Attribute.countedPieces c.pool c.attributes

end ClassFile

theorem Entry.render_pieces (e : Entry) : render e.pieces = e.bytes := by
  cases e <;> simp [render, pieces, Piece.bytes, Entry.bytes, payload]

theorem Entry.linksOf_pieces (e : Entry) : linksOf e.pieces = e.references := by
  cases e <;> rfl

namespace Piece

variable {α : Type} {p : Pool}

theorem render_append (xs ys : List Piece) : render (xs ++ ys) = render xs ++ render ys :=
  List.flatMap_append

theorem linksOf_append (xs ys : List Piece) : linksOf (xs ++ ys) = linksOf xs ++ linksOf ys :=
  List.flatMap_append

structure Placed (p : Pool) (pieces : List Piece) (us : List UInt8) : Prop where
  bytes : us = render pieces
  leads : ∀ link ∈ linksOf pieces, p.Resolves link

namespace Placed

theorem nil : Placed p [] [] := ⟨rfl, by simp [linksOf]⟩

theorem append {xs ys : List Piece} {us vs : List UInt8} (first : Placed p xs us)
    (second : Placed p ys vs) : Placed p (xs ++ ys) (us ++ vs) := by
  refine ⟨by rw [render_append, first.bytes, second.bytes], ?_⟩
  simp only [linksOf_append, List.mem_append, or_imp, forall_and]
  exact ⟨first.leads, second.leads⟩

theorem raw {us : List UInt8} {pieces : List Piece} (rest : Placed p pieces us) (bs : List UInt8) :
    Placed p (.raw bs :: pieces) (bs ++ us) :=
  ⟨by rw [rest.bytes]; rfl, rest.leads⟩

theorem bytes_only (bs : List UInt8) : Placed p [.raw bs] bs := by
  simpa using (nil (p := p)).raw bs

theorem index {i : Index} {accepted : List Tag} {us : List UInt8}
    (spelled : Spelling.index p.get? accepted i us) : Placed p [.index i accepted] us := by
  refine ⟨by simpa [render, Piece.bytes] using spelled.2, ?_⟩
  simp only [linksOf, links, List.flatMap_singleton, List.mem_singleton, forall_eq]
  exact Pool.resolves_iff.2 spelled.1

theorem indexOrZero {i : Index} {accepted : List Tag} {us : List UInt8}
    (spelled : Spelling.indexOrZero p.get? accepted i us) :
    Placed p [.indexOrZero i accepted] us := by
  refine ⟨by simpa [render, Piece.bytes] using spelled.2, ?_⟩
  simp only [linksOf, links, List.flatMap_singleton]
  intro link inside
  obtain ⟨nonzero, rfl⟩ := Link.mem_unlessZero.1 inside
  exact Pool.resolves_iff.2 (spelled.1.resolve_left nonzero)

theorem all {F : Spelling α} {pieces : α → List Piece} (each : ∀ a us, F a us → Placed p (pieces a) us)
    {xs : List α} {us : List UInt8} (spelled : Spelling.all F xs us) :
    Placed p (xs.flatMap pieces) us := by
  induction xs generalizing us with
  | nil =>
    rw [show us = [] from spelled]
    exact nil
  | cons a rest ih =>
    obtain ⟨u, v, hu, hv, rfl⟩ := spelled
    exact (each a u hu).append (ih hv)

theorem table {F : Spelling α} {pieces : α → List Piece}
    (each : ∀ a us, F a us → Placed p (pieces a) us) {xs : List α} {us : List UInt8}
    (spelled : Spelling.table F xs us) : Placed p (Piece.table pieces xs) us := by
  obtain ⟨-, v, hv, rfl⟩ := spelled
  exact (all each hv).raw _

theorem classIndices {xs : List Index} {us : List UInt8}
    (spelled : Spelling.table (Spelling.index p.get? [.classRef]) xs us) :
    Placed p (Piece.classIndices xs) us :=
  table (F := Spelling.index p.get? [.classRef]) (fun _ _ => index) spelled

theorem verificationType (t : VerificationType) (us : List UInt8)
    (spelled : Spelling.verificationType p.get? t us) : Placed p t.pieces us := by
  cases t with
  | object c =>
    obtain ⟨v, hv, rfl⟩ := spelled
    exact (index hv).raw [7]
  | _ =>
    rw [show us = _ from spelled]
    exact bytes_only _

theorem frame (f : Frame) (us : List UInt8) (spelled : Spelling.frame p.get? f us) :
    Placed p f.pieces us := by
  obtain ⟨type, rest, introduced, hrest, rfl⟩ := spelled
  have first : f.type?.toList = [type] := by rw [introduced, Option.toList_some]
  rw [Frame.pieces, first]
  refine Placed.raw ?_ [type]
  cases f with
  | same _ =>
    rw [show rest = [] from hrest]
    exact nil
  | sameLocalsOneItem _ t => exact verificationType t rest hrest
  | sameLocalsOneItemExtended d t =>
    obtain ⟨v, hv, rfl⟩ := hrest
    exact (verificationType t v hv).raw _
  | chop d _ | sameExtended d =>
    rw [show rest = _ from hrest]
    exact bytes_only _
  | append d locals =>
    obtain ⟨v, hv, rfl⟩ := hrest
    exact (all verificationType hv).raw _
  | full d locals stack =>
    obtain ⟨v, w, hv, hw, rfl⟩ := hrest
    rw [List.append_assoc]
    exact ((table verificationType hv).append (table verificationType hw)).raw _

theorem handler (h : Handler) (us : List UInt8) (spelled : Spelling.handler p.get? h us) :
    Placed p h.pieces us := by
  obtain ⟨v, hv, rfl⟩ := spelled
  exact (indexOrZero hv).raw _

theorem lineNumber (l : LineNumber) (us : List UInt8) (spelled : Spelling.lineNumber l us) :
    Placed p l.pieces us := by
  rw [show us = _ from spelled]
  exact bytes_only _

theorem localVariable (v : LocalVariable) (us : List UInt8)
    (spelled : Spelling.localVariable p.get? v us) : Placed p v.pieces us := by
  obtain ⟨n, d, hn, hd, rfl⟩ := spelled
  have ends := (index hn).append ((index hd).append (bytes_only (Bytes.ofU16 v.slot)))
  rw [LocalVariable.pieces, List.append_assoc, List.append_assoc]
  exact ends.raw _

end Placed
end Piece

namespace Writer

open Outcome

variable {p : Pool}

theorem placed_of_name (indexed : p.Indexed) {a : Attribute} {us : List UInt8}
    (written : name p a = .ok us) : Placed p [.index (a.nameIndex p) [.utf8]] us := by
  obtain ⟨i, rfl, named⟩ := name_eq_ok.1 written
  refine Placed.index ⟨Spelling.leads_utf8.2 ?_, ?_⟩
  · cases a with
    | other own content =>
      obtain ⟨rfl, held⟩ := named
      exact held
    | _ =>
      obtain ⟨k, kind, found⟩ := named
      simp only [Attribute.nameIndex, kind, Option.bind_some, found, Option.getD_some]
      exact ⟨k.bytes, ((indexed _ _).1 found).1⟩
  · cases a with
    | other own content => rw [Attribute.nameIndex, named.1]
    | _ =>
      obtain ⟨k, kind, found⟩ := named
      simp only [Attribute.nameIndex, kind, Option.bind_some, found, Option.getD_some]

theorem placed_of_flat {a : Attribute} (flat : ∀ body, a ≠ .code body) {us : List UInt8}
    (written : content p a = .ok us) : Placed p (a.contentPieces p) us := by
  have spelled := (content_flat flat us).1 written
  cases a with
  | code body => exact absurd rfl (flat body)
  | constantValue i | signature i | sourceFile i =>
    rw [Attribute.contentPieces]
    exact .index spelled
  | stackMap frames =>
    rw [Attribute.contentPieces]
    exact .table Placed.frame spelled
  | exceptions thrown =>
    rw [Attribute.contentPieces]
    exact .classIndices spelled
  | lineNumbers lines =>
    rw [Attribute.contentPieces]
    exact .table Placed.lineNumber spelled
  | localVariables scopes =>
    rw [Attribute.contentPieces]
    exact .table Placed.localVariable spelled
  | synthetic | deprecated =>
    rw [Attribute.contentPieces, show us = [] from spelled]
    exact .nil
  | other _ bytes =>
    rw [Attribute.contentPieces, show us = bytes from spelled]
    exact .bytes_only bytes

mutual

theorem placed_of_content (indexed : p.Indexed) (a : Attribute) {us : List UInt8}
    (written : content p a = .ok us) : Placed p (a.contentPieces p) us := by
  match a with
  | .code ⟨maxStack, maxLocals, bytes, handlers, inner⟩ =>
    obtain ⟨-, -, -, v, w, hv, hw, rfl⟩ := content_code_eq_ok.1 written
    have inside := placed_of_attributeParts indexed inner hw
    rw [List.append_assoc, List.append_assoc, Attribute.contentPieces]
    exact ((Placed.table Placed.handler hv).append (inside.raw _)).raw _
  | .constantValue _ | .stackMap _ | .exceptions _ | .synthetic | .signature _ | .sourceFile _
  | .lineNumbers _ | .localVariables _ | .deprecated | .other .. =>
    exact placed_of_flat (by simp) written

theorem placed_of_attributeParts (indexed : p.Indexed) (as : List Attribute) {us : List UInt8}
    (written : attributeParts p as [] = .ok us) : Placed p (Attribute.piecesOf p as) us := by
  match as with
  | [] =>
    simp only [attributeParts, List.reverse_nil, List.flatten_nil, Except.ok.injEq] at written
    rw [← written, Attribute.piecesOf]
    exact .nil
  | a :: rest =>
    obtain ⟨n, body, v, hn, hbody, -, hv, rfl⟩ := attributeParts_cons_eq_ok.1 written
    have first := placed_of_content indexed a hbody
    have others := placed_of_attributeParts indexed rest hv
    -- The length in front of the content is that of the bytes that its pieces give.
    rw [Attribute.piecesOf, ← first.bytes, List.append_assoc, List.append_assoc]
    exact (placed_of_name indexed hn).append ((first.append others).raw _)

end

theorem placed_of_attributes (indexed : p.Indexed) {as : List Attribute} {us : List UInt8}
    (written : attributes p as = .ok us) : Placed p (Attribute.countedPieces p as) us := by
  simp only [attributes, guard_eq_ok, bind_eq_ok, pure_eq_ok] at written
  obtain ⟨-, v, hv, rfl⟩ := written
  exact (placed_of_attributeParts indexed as hv).raw _

theorem placed_of_member (indexed : p.Indexed) (m : Member) (us : List UInt8)
    (written : member p m = .ok us) : Placed p (m.pieces p) us := by
  simp only [member, bind_eq_ok, pure_eq_ok] at written
  obtain ⟨n, hn, d, hd, v, hv, rfl⟩ := written
  have name := Placed.index ((index_spells p _ _ _).1 hn)
  have descriptor := Placed.index ((index_spells p _ _ _).1 hd)
  rw [List.append_assoc, List.append_assoc]
  exact (name.append (descriptor.append (placed_of_attributes indexed hv))).raw _

theorem placed_of_members (indexed : p.Indexed) {name : Table} {ms : List Member}
    {us : List UInt8} (written : table name (member p) ms = .ok us) :
    Placed p (Piece.table (Member.pieces p) ms) us := by
  have exactly := table_spells name (F := fun m us => member p m = .ok us) fun _ _ => Iff.rfl
  exact .table (placed_of_member indexed) ((exactly ms us).1 written)

theorem bytes_of_pool {us : List UInt8} (written : pool p = .ok us) : us = render p.pieces := by
  obtain ⟨-, v, hv, rfl⟩ := (pool_eq_ok p).1 written
  have entries : v = render ((p.slots.toList.filterMap id).flatMap Entry.pieces) := by
    clear written
    generalize p.slots.toList.filterMap id = es at hv
    induction es generalizing v with
    | nil => exact hv
    | cons e rest ih =>
      obtain ⟨u, w, ⟨-, rfl⟩, hw, rfl⟩ := hv
      rw [ih w hw, ← e.render_pieces]
      simp [render]
  rw [entries]
  rfl

end Writer

/-- The indices in the bytes of a pool are the references of its entries. -/
theorem Pool.brokenLink?_eq_none_iff_pieces {p : Pool} :
    p.brokenLink? = none ↔ ∀ link ∈ linksOf p.pieces, p.Resolves link := by
  have references : linksOf p.pieces = (p.slots.toList.filterMap id).flatMap Entry.references := by
    simp only [linksOf, Pool.pieces, List.flatMap_cons, links, List.nil_append, List.flatMap_assoc]
    exact congrArg (List.flatMap · _) (funext Entry.linksOf_pieces)
  rw [brokenLink?_eq_none, references]
  simp only [List.mem_flatMap, List.mem_filterMap, id, exists_eq_right, forall_exists_index,
    and_imp]
  exact ⟨fun leads link e inside reference => leads e inside link reference,
    fun leads e inside link reference => leads link e inside reference⟩

namespace Piece

variable {α : Type}

theorem linksOf_raw (bs : List UInt8) (pieces : List Piece) :
    linksOf (.raw bs :: pieces) = linksOf pieces := rfl

theorem linksOf_flatMap (pieces : α → List Piece) (xs : List α) :
    linksOf (xs.flatMap pieces) = xs.flatMap fun a => linksOf (pieces a) := List.flatMap_assoc

theorem linksOf_table (pieces : α → List Piece) (xs : List α) :
    linksOf (table pieces xs) = xs.flatMap fun a => linksOf (pieces a) := linksOf_flatMap pieces xs

theorem linksOf_classIndices (xs : List Index) :
    linksOf (classIndices xs) = xs.map (·, [.classRef]) := by
  rw [classIndices, linksOf_table]
  exact List.map_eq_flatMap.symm

end Piece

theorem VerificationType.linksOf_pieces (t : VerificationType) : linksOf t.pieces = t.links := by
  cases t <;> rfl

theorem Frame.linksOf_pieces (f : Frame) : linksOf f.pieces = f.links := by
  have types : (fun t : VerificationType => linksOf t.pieces) = VerificationType.links :=
    funext VerificationType.linksOf_pieces
  rw [pieces, linksOf_raw, links]
  cases f with
  | same _ | chop _ _ | sameExtended _ => rfl
  | sameLocalsOneItem _ t | sameLocalsOneItemExtended _ t =>
    simp [restPieces, linksOf_raw, Frame.types, t.linksOf_pieces]
  | append _ locals => simp [restPieces, linksOf_raw, linksOf_flatMap, Frame.types, types]
  | full _ locals stack =>
    simp [restPieces, linksOf_raw, linksOf_append, linksOf_table, Frame.types, types]

theorem Handler.linksOf_pieces (h : Handler) : linksOf h.pieces = h.links := by
  simp [linksOf, Handler.pieces, Piece.links, Handler.links]

theorem LocalVariable.linksOf_pieces (v : LocalVariable) : linksOf v.pieces = v.links := rfl

namespace Attribute

variable (p : Pool)

theorem links_written (a : Attribute) : ∀ link ∈ a.links,
    link ∈ (a.nameIndex p, [.utf8]) :: linksOf (a.contentPieces p) := by
  intro link own
  cases a with
  | other name bytes =>
    exact List.mem_cons.2 (.inl (List.mem_singleton.1 own))
  | constantValue i | signature i | sourceFile i =>
    exact List.mem_cons_of_mem _ own
  | code body =>
    refine List.mem_cons_of_mem _ ?_
    rw [contentPieces, linksOf_raw, linksOf_append, linksOf_table, funext Handler.linksOf_pieces]
    exact List.mem_append_left _ own
  | stackMap frames =>
    refine List.mem_cons_of_mem _ ?_
    rwa [contentPieces, linksOf_table, funext Frame.linksOf_pieces]
  | exceptions thrown =>
    refine List.mem_cons_of_mem _ ?_
    rwa [contentPieces, linksOf_classIndices]
  | localVariables scopes =>
    refine List.mem_cons_of_mem _ ?_
    rwa [contentPieces, linksOf_table, funext LocalVariable.linksOf_pieces]
  | synthetic | lineNumbers _ | deprecated => cases own

mutual

theorem nested_written (a : Attribute) : ∀ b ∈ a.nested, ∀ link ∈ b.links,
    link ∈ (a.nameIndex p, [.utf8]) :: linksOf (a.contentPieces p) := by
  match a with
  | .code ⟨maxStack, maxLocals, bytes, handlers, inner⟩ =>
    intro b inside link own
    rw [nested, List.mem_cons] at inside
    rcases inside with rfl | inside
    · exact links_written p _ link own
    · refine List.mem_cons_of_mem _ ?_
      rw [contentPieces, linksOf_raw, linksOf_append, linksOf_raw]
      exact List.mem_append_right _ (nestedAll_written inner b inside link own)
  | .constantValue _ | .stackMap _ | .exceptions _ | .synthetic | .signature _ | .sourceFile _
  | .lineNumbers _ | .localVariables _ | .deprecated | .other .. =>
    intro b inside
    obtain rfl := List.mem_singleton.1 inside
    exact links_written p _

theorem nestedAll_written (as : List Attribute) : ∀ b ∈ nestedAll as, ∀ link ∈ b.links,
    link ∈ linksOf (piecesOf p as) := by
  match as with
  | [] => simp [nestedAll]
  | a :: rest =>
    have shape : linksOf (piecesOf p (a :: rest)) =
        ((a.nameIndex p, [.utf8]) :: linksOf (a.contentPieces p)) ++ linksOf (piecesOf p rest) := by
      simp [piecesOf, linksOf, Piece.links]
    intro b inside link own
    rw [nestedAll, List.mem_append] at inside
    rw [shape, List.mem_append]
    exact inside.imp (fun here => nested_written a b here link own)
      fun there => nestedAll_written rest b there link own

end

end Attribute

namespace ClassFile

theorem linksOf_bodyPieces (c : ClassFile) : linksOf c.bodyPieces =
    (c.thisClass, [.classRef]) :: Link.unlessZero c.superClass [.classRef] ++
      c.interfaces.map (·, [.classRef]) ++
        (c.fields ++ c.methods).flatMap (fun m => linksOf (m.pieces c.pool)) ++
          linksOf (Attribute.piecesOf c.pool c.attributes) := by
  have attributes : linksOf (Attribute.countedPieces c.pool c.attributes) =
      linksOf (Attribute.piecesOf c.pool c.attributes) := rfl
  simp only [bodyPieces, linksOf_append, linksOf_classIndices, linksOf_table, attributes,
    List.flatMap_append]
  simp [linksOf, Piece.links]

theorem links_written (c : ClassFile) : ∀ link ∈ c.links, link ∈ linksOf c.bodyPieces := by
  intro link inside
  have member : ∀ m ∈ c.fields ++ c.methods,
      link ∈ m.links ++ linksOf (Attribute.piecesOf c.pool m.attributes) →
        link ∈ (c.fields ++ c.methods).flatMap fun m => linksOf (m.pieces c.pool) :=
    fun m hm own => List.mem_flatMap.2 ⟨m, hm, own⟩
  rw [linksOf_bodyPieces]
  simp only [links, List.mem_append] at inside ⊢
  rcases inside with (front | own) | own
  · exact .inl (.inl front)
  · obtain ⟨m, hm, own⟩ := List.mem_flatMap.1 own
    exact .inl (.inr (member m hm (List.mem_append_left _ own)))
  · obtain ⟨a, ha, own⟩ := List.mem_flatMap.1 own
    rcases List.mem_append.1 ha with ha | ha
    · obtain ⟨m, hm, ha⟩ := List.mem_flatMap.1 ha
      have nested := Attribute.nestedAll_written c.pool m.attributes a ha link own
      exact .inl (.inr (member m hm (List.mem_append_right _ nested)))
    · exact .inr (Attribute.nestedAll_written c.pool c.attributes a ha link own)

theorem placed_of_body {c : ClassFile} (indexed : c.pool.Indexed)
    {this super interfaces fields methods attributes : List UInt8}
    (hthis : Writer.index c.pool [.classRef] c.thisClass = .ok this)
    (hsuper : Writer.indexOrZero c.pool [.classRef] c.superClass = .ok super)
    (hinterfaces : Writer.table .interfaces (Writer.index c.pool [.classRef]) c.interfaces =
      .ok interfaces)
    (hfields : Writer.table .fields (Writer.member c.pool) c.fields = .ok fields)
    (hmethods : Writer.table .methods (Writer.member c.pool) c.methods = .ok methods)
    (hattributes : Writer.attributes c.pool c.attributes = .ok attributes) :
    Placed c.pool c.bodyPieces (Bytes.ofU16 c.access ++ (this ++ super) ++ interfaces ++ fields ++
      methods ++ attributes) := by
  have classes := (Placed.index ((Writer.index_spells _ _ _ _).1 hthis)).append
    (Placed.indexOrZero ((Writer.indexOrZero_spells _ _ _ _).1 hsuper))
  have extended := Placed.classIndices
    ((Writer.table_spells _ (Writer.index_spells _ _) _ _).1 hinterfaces)
  have opened := (classes.raw (Bytes.ofU16 c.access)).append extended
  have members := opened.append (Writer.placed_of_members indexed hfields)
  exact (members.append (Writer.placed_of_members indexed hmethods)).append
    (Writer.placed_of_attributes indexed hattributes)

/-- What is written consists of its pieces. All indices that a class file holds outside its pool are
among them, and all indices among them, names of attributes and catch types included, lead to
entries of the kinds that are asked for. Those that are written with the pool do just if no link
between its entries is broken. -/
theorem leads_of_write {c : ClassFile} {given : Nat} {bytes : List UInt8}
    (reached : Pool.Reached given c.pool) (few : given ≤ 65535) (written : c.write = .ok bytes) :
    bytes = render (c.headerPieces ++ c.pool.pieces ++ c.bodyPieces) ∧
      (∀ link ∈ c.links, link ∈ linksOf c.bodyPieces) ∧
      (∀ link ∈ linksOf c.bodyPieces, c.pool.Resolves link) ∧
      ((∀ link ∈ linksOf c.pool.pieces, c.pool.Resolves link) ↔ c.pool.brokenLink? = none) := by
  simp only [write, Writer.classFile, Outcome.bind_eq_ok, Outcome.pure_eq_ok] at written
  obtain ⟨poolBytes, hpool, this, hthis, super, hsuper, interfaces, hinterfaces, fields, hfields,
    methods, hmethods, attributes, hattributes, rfl⟩ := written
  have indexed := (reached.agreeing few).indexed
  have body := placed_of_body indexed hthis hsuper hinterfaces hfields hmethods hattributes
  refine ⟨?_, c.links_written, body.leads, Pool.brokenLink?_eq_none_iff_pieces.symm⟩
  have pool := Writer.bytes_of_pool hpool
  have header : render c.headerPieces =
      Bytes.ofU32 Reader.magicNumber ++ Bytes.ofU16 c.minor ++ Bytes.ofU16 c.major := rfl
  rw [render_append, render_append, header, ← pool, ← body.bytes]
  simp

theorem leads_of_write_guarded : ∃ bytes, guarded.write = .ok bytes ∧
    bytes = render (guarded.headerPieces ++ guarded.pool.pieces ++ guarded.bodyPieces) ∧
      (∀ link ∈ linksOf guarded.bodyPieces, guarded.pool.Resolves link) ∧
      ∀ link ∈ linksOf guarded.pool.pieces, guarded.pool.Resolves link := by
  obtain ⟨bytes, written⟩ : ∃ bytes, guarded.write = .ok bytes := ⟨_, rfl⟩
  obtain ⟨pieces, -, leads, pool⟩ := leads_of_write (.ofSlots _) (by decide) written
  exact ⟨bytes, written, pieces, leads, pool.2 readable_guarded.linked⟩

/-- A class whose pool names a class by a slot that is not there. -/
def dangling : ClassFile where
  minor := 0
  major := 52
  pool := .ofSlots [some (.utf8 [67]), some (.classRef 1), some (.classRef 7)]
  access := 33
  thisClass := 2
  superClass := 0
  interfaces := []
  fields := []
  methods := []
  attributes := []

/-- References between entries are not checked. -/
theorem write_dangling : ∃ bytes, dangling.write = .ok bytes ∧
    bytes = render (dangling.headerPieces ++ dangling.pool.pieces ++ dangling.bodyPieces) ∧
      (7, [.utf8]) ∈ linksOf dangling.pool.pieces ∧ dangling.pool.get? 7 = none :=
  ⟨_, rfl, by decide +kernel, by decide +kernel, by decide +kernel⟩

end ClassFile
end ClassForge
