import CanopenTables.Proofs.DictionarySection

/-!
# The rows of a source document

Two sorts of blocks have a subindex table: those of the entries, and the fallback of the error
field, whose rows are fixed (`hasRows_cases`).  Row `k` of an entry describes its value at subindex
`k` (`Row.IsOf`, `Site.exists_isOf_of_rows`): the type is what the resolver answers to the declared
type code, and the size column is worked out from this type and the value.

`exists_stages_of_generate` is the way in: it names what the stages of a generation that succeeds
have come to.
-/

namespace CanopenTables

/-- A row shows the access right and the saving of its subindex, and its type, size and target are
worked out from the description and the value there. -/
structure Row.IsOf (row : Row) (s : Site) (r : Resolver) (k : SubIndex) (sub : SubEntry)
    (value : Value) : Prop where
  description : s.entry.sub? k = some sub
  stored : s.entry.value? k = some value
  access : row.access = sub.access
  save : row.save = sub.save
  type : ∃ declared,
    (s.resolve sub (s.rowCandidates s.entry.object.values value)).value r = .ok declared ∧
      row.type = s.rowType k declared
  size : s.sizeColumn row.type value k = .ok row.size
  target : row.target = s.targetName k sub

namespace Site

variable {s : Site} {r : Resolver} {c : EntryCode}

theorem exists_isOf_of_rows (hcode : s.code.value r = .ok c) {k : Nat} {row : Row}
    (hrow : c.rows[k]? = some row) :
    k < 256 ∧ ∃ sub value, row.IsOf s r (UInt8.ofNat k) sub value := by
  obtain ⟨values, hvalues, shape, -, rows, hrows, rfl⟩ := code_value_eq_ok_iff.mp hcode
  obtain ⟨rfl, -, hlength⟩ := values_eq_ok_iff.mp hvalues
  obtain ⟨value, hvalue, hrow⟩ :=
    getElem?_of_forall₂_zipIdx (rows_value_eq_ok_iff.mp hrows) hrow
  rw [Nat.zero_add] at hrow
  obtain ⟨sub, hsub, declared, hdeclared, size, hsize, rfl⟩ := row_value_eq_ok_iff.mp hrow
  have hlt : k < s.entry.object.values.length := (List.getElem?_eq_some_iff.mp hvalue).1
  have hbyte : k < 256 := by omega
  have htoNat : (UInt8.ofNat k).toNat = k := UInt8.toNat_ofNat_of_lt' hbyte
  have hstored : s.entry.value? (UInt8.ofNat k) = some value := by
    unfold Entry.value? Object.get?
    rw [htoNat, hvalue]
  exact ⟨hbyte, sub, value, subEntry_eq_ok_iff.mp hsub, hstored, rfl, rfl,
    ⟨declared, hdeclared, rfl⟩, hsize, rfl⟩

/-- The type and the size of a row, in terms of the value and the description of its subindex. -/
theorem exists_of_getElem?_rows (hcode : s.code.value r = .ok c) {k : Nat} {row : Row}
    (hrow : c.rows[k]? = some row) :
    ∃ value sub declared, s.entry.object.values[k]? = some value ∧ k < 256 ∧
      s.subEntry (UInt8.ofNat k) = .ok sub ∧
      (s.resolve sub (s.rowCandidates s.entry.object.values value)).value r = .ok declared ∧
      row.type = s.rowType (UInt8.ofNat k) declared ∧
      s.sizeColumn row.type value (UInt8.ofNat k) = .ok row.size := by
  obtain ⟨hlt, sub, value, hof⟩ := exists_isOf_of_rows hcode hrow
  obtain ⟨declared, hdeclared, htype⟩ := hof.type
  have hvalue := hof.stored
  unfold Entry.value? Object.get? at hvalue
  rw [UInt8.toNat_ofNat_of_lt' hlt] at hvalue
  exact ⟨value, sub, declared, hvalue, hlt, subEntry_eq_ok_iff.mpr hof.description, hdeclared,
    htype, hof.size⟩

/-- Only the count of the error field has a type that is not the declared one. -/
theorem rowType_eq_declared {k : Nat} (hlt : k < 256)
    (hcount : ¬ (s.index = Profile.predefinedErrorField ∧ k = 0)) (declared : ResolvedType) :
    s.rowType (UInt8.ofNat k) declared = declared := by
  unfold rowType
  rw [if_neg]
  rintro ⟨hk, hindex⟩
  have htoNat : (UInt8.ofNat k).toNat = k := UInt8.toNat_ofNat_of_lt' hlt
  rw [hk] at htoNat
  exact hcount ⟨hindex, htoNat.symm⟩

/-- What has no bytes is as large as its storage type. -/
theorem size_eq_of_sizeColumn {type : ResolvedType} {value : Value} {k : SubIndex}
    {size : SizeColumn} (hkind : type.kind.isByteSequence = false)
    (h : s.sizeColumn type value k = .ok size) : size = .sizeOf type.storage := by
  unfold sizeColumn at h
  rw [hkind, if_neg Bool.false_ne_true] at h
  exact (Except.ok.inj h).symm

end Site

/-- The block of an index in a source document has a subindex table with some rows. -/
def SourceDocument.HasRows (source : SourceDocument) (x : Index) (rows : List Row) : Prop :=
  ∃ b name, source.blocks.get? x = some b ∧ .table name rows ∈ b.items

theorem SourceDocument.hasRows_of_items {source : SourceDocument} {x : Index}
    {items : List BlockItem} {name : String} {rows : List Row}
    (h : (source.blocks.get? x).map Block.items = some items) (hmem : .table name rows ∈ items) :
    source.HasRows x rows := by
  obtain ⟨b, hblock, rfl⟩ := Option.map_eq_some_iff.mp h
  exact ⟨b, name, hblock, hmem⟩

theorem SourceDocument.HasRows.printsAt {source : SourceDocument} {x : Index} {rows : List Row}
    (h : source.HasRows x rows) :
    ∃ name, source.PrintsAt x (BlockItem.table name rows).spelled := by
  obtain ⟨b, name, hblock, hmem⟩ := h
  exact ⟨name, printsAt_of_mem_items hblock hmem⟩

theorem EntryCode.rows_of_mem_items {c : EntryCode} {name : String} {rows : List Row}
    (h : .table name rows ∈ c.block.items) : rows = c.rows := by
  have hlocals : ∀ v ∈ c.shape.locals, v.item ≠ .table name rows := by
    intro v _
    cases v <;> simp [LocalVariable.item]
  simp only [block, List.mem_append, List.mem_map, List.mem_singleton, Option.mem_toList,
    Option.map_eq_some_iff] at h
  rcases h with ((⟨v, -, hv⟩ | ⟨v, hv, hitem⟩) | ⟨a, -, ha⟩) | htable
  · cases hv
  · exact absurd hitem (hlocals v hv)
  · cases ha
  · cases htable
    rfl

/-- Of the fallbacks only that of the error field has a table. -/
theorem Fallback.index_of_mem_items {node : Node} {i : Index} {items : List BlockItem}
    {name : String} {rows : List Row} (hitems : Fallback.items node i = .ok items)
    (h : .table name rows ∈ items) :
    i = Profile.predefinedErrorField ∧ items = errorFieldItems node.name := by
  unfold Fallback.items at hitems
  dsimp only at hitems
  split_ifs at hitems with herror
  · cases hitems
    exact ⟨herror, rfl⟩
  all_goals
    cases hitems
    simp [word] at h

/-- The rows of the error field in its fallback: the count, and one free place. -/
def Fallback.errorFieldRows (node : String) : List Row :=
  let i := Profile.predefinedErrorField
  [⟨.readWrite, false, errorCountType, .sizeOf (.unsigned 8), Symbol.highestSubIndex node i⟩,
    ⟨.readOnly, false, ⟨.unsigned 32, none, .unsigned 32, true⟩, .sizeOf (.unsigned 32),
      Symbol.element (Symbol.object node i) 0⟩]

theorem Fallback.rows_of_mem_errorFieldItems {node name : String} {rows : List Row}
    (h : .table name rows ∈ errorFieldItems node) : rows = errorFieldRows node := by
  simp only [errorFieldItems, List.mem_cons, List.not_mem_nil, reduceCtorEq,
    BlockItem.table.injEq, false_or, or_false] at h
  exact h.2

namespace Dictionary

variable {d : Dictionary} {headerName : String} {aliases : PointerAliases} {config : Config}

/-- A generation that succeeds, stage by stage. -/
theorem exists_stages_of_generate {files : DocumentPair}
    (h : (d.generate headerName aliases config).outcome = .ok files) :
    ∃ source header ranges r codes fallbacks timers,
      (d.documents headerName aliases config).outcome = .ok (source, header) ∧
      files = ⟨source.text, header.text⟩ ∧
      (d.rangeTypes.run (Resolver.new d.node.defaultStringSize)).outcome = .ok (ranges, r) ∧
      d.entryCodes.value r = .ok codes ∧ d.fallbackBlocks.outcome = .ok fallbacks ∧
      source = (d.documentsOf headerName aliases config ranges codes fallbacks timers).1 := by
  obtain ⟨source, header, hdocuments, hfiles⟩ := generate_outcome_eq_ok_iff.mp h
  obtain ⟨ranges, codes, fallbacks, timers, hvalue, hfallbacks, -, hof⟩ :=
    documents_outcome_eq_ok_iff.mp hdocuments
  obtain ⟨r, hranges, hcodes⟩ := rangesAndCodes_value_eq_ok_iff.mp hvalue
  exact ⟨source, header, ranges, r, codes, fallbacks, timers, hdocuments, hfiles.symm, hranges,
    hcodes, hfallbacks, congrArg Prod.fst hof.symm⟩

section documents

variable {r : Resolver} {codes : List EntryCode} {ranges : List RangeType} {fallbacks : List Block}
  {timers : Nat} {source : SourceDocument} (hcodes : d.entryCodes.value r = .ok codes)
  (hfallbacks : d.fallbackBlocks.outcome = .ok fallbacks)
  (hsource : source = (d.documentsOf headerName aliases config ranges codes fallbacks timers).1)

include hsource

theorem definitions_documentsOf : source.definitions = codes.flatMap (·.shape.definitions) := by
  rw [hsource]
  simp [documentsOf, Emission.withFallbacks, Emission.ofCodes_eq]

theorem ranges_documentsOf : source.ranges = ⟨d.node.name, ranges⟩ := by
  rw [hsource]
  rfl

include hcodes hfallbacks

theorem exists_block_of_get? {x : Index} {e : Entry} (hstart : Profile.commAreaStart ≤ x)
    (hget : d.get? x = some e) :
    ∃ c ∈ codes, (Site.mk d x e).code.value r = .ok c ∧ c.index = x ∧
      source.blocks.get? x = some c.block := by
  obtain ⟨c, hc, hcode, hindex⟩ := exists_code_of_get? hcodes hstart hget
  refine ⟨c, hc, hcode, hindex, ?_⟩
  rw [hsource]
  exact (get?_blocks_iff hcodes hfallbacks aliases).mpr (Or.inr ⟨c, hc, hindex, rfl⟩)

/-- The rows of an index are those of its entry, or the fixed ones of the error field. -/
theorem hasRows_cases {x : Index} {rows : List Row} (h : source.HasRows x rows) :
    (∃ s ∈ d.sites, ∃ c ∈ codes, s.index = x ∧ s.code.value r = .ok c ∧
      source.blocks.get? x = some c.block ∧ c.rows = rows) ∨
    (x = Profile.predefinedErrorField ∧ d.contains x = false ∧
      rows = Fallback.errorFieldRows d.node.name ∧
        ∃ b, source.blocks.get? x = some b ∧ b.items = Fallback.errorFieldItems d.node.name) := by
  subst hsource
  obtain ⟨b, name, hb, htable⟩ := h
  rcases (get?_blocks_iff hcodes hfallbacks aliases).mp hb with ⟨hmem, rfl⟩ | ⟨c, hc, rfl, rfl⟩
  · obtain ⟨i, hi, hblock⟩ :=
      exists_mem_left_of_forall₂ (fallbackBlocks_outcome_eq_ok_iff.mp hfallbacks) hmem
    obtain ⟨items, hitems, rfl⟩ := Fallback.block_eq_ok_iff.mp hblock
    obtain ⟨hindex, rfl⟩ := Fallback.index_of_mem_items hitems htable
    exact Or.inr ⟨hindex, (mem_missingIndexes_iff.mp hi).2,
      Fallback.rows_of_mem_errorFieldItems htable, _, hb, rfl⟩
  · obtain ⟨s, hs, hcode⟩ := exists_site_of_mem_codes hcodes hc
    exact Or.inl ⟨s, hs, c, hc, (Site.index_of_code hcode).symm, hcode, hb,
      (EntryCode.rows_of_mem_items htable).symm⟩

end documents

end Dictionary
end CanopenTables
