import CanopenTables.Proofs.Composition
import CanopenTables.Proofs.QuickIndexBounds

/-!
# Looking entries up in the generated tables

At run time the switch maps an index to a position, and the row at that position names the subindex
table of the entry.  Switch, rows, positions and quick index are filled in one walk along the listed
indexes, and the tables that the rows name come from the entries.  Here they are tied together: a
listed index is found, at the position that is the number of listed indexes below it, and its row
names the table that stands in its own block.

The lines of the routine are read back by their labels (`DispatchCase.isLabelled_spelled`): all
labels have four digits, so a line is labelled by one index only.

Main statement: `tables_find_entries`.
-/

namespace CanopenTables

/-! ### Lines and their labels -/

/-- Whether a line of the routine begins with the label of an index. -/
def DispatchCase.isLabelled (x : Index) (line : String) : Bool :=
  ("\t\tcase 0x" ++ Numeral.upperHex 4 x.toNat ++ ":").toList.isPrefixOf line.toList

theorem DispatchCase.isLabelled_spelled (x : Index) (c : DispatchCase) :
    isLabelled x c.spelled = (c.index == x) := by
  obtain ⟨rest, hrest⟩ : ∃ rest : List Char, c.spelled.toList =
      "\t\tcase 0x".toList ++ ((Symbol.digits c.index).toList ++ ':' :: rest) := by
    refine ⟨(" i = " ++ Numeral.decimal c.position ++ ";" ++
      (c.callbacks.elim "" fun name => "*callbacks = " ++ name ++ "; ") ++ "break;\n").toList, ?_⟩
    have hcolon : ": i = " = ":" ++ " i = " := rfl
    unfold spelled
    rw [hcolon]
    simp [Symbol.digits]
  have hlabel : ("\t\tcase 0x" ++ Numeral.upperHex 4 x.toNat ++ ":").toList =
      "\t\tcase 0x".toList ++ ((Symbol.digits x).toList ++ [':']) := by
    simp [Symbol.digits]
  unfold isLabelled
  rw [Bool.eq_iff_iff, List.isPrefixOf_iff_prefix, hrest, hlabel, List.prefix_append_right_inj,
    beq_iff_eq]
  constructor
  · rintro ⟨after, hafter⟩
    have hlength : (Symbol.digits x).toList.length = (Symbol.digits c.index).toList.length := by
      rw [Symbol.length_digits, Symbol.length_digits]
    rw [List.append_assoc] at hafter
    have hdigits := List.append_inj_left hafter hlength
    exact (Symbol.digits_injective (String.toList_inj.mp hdigits)).symm
  · rintro rfl
    exact ⟨rest, by simp⟩

/-- Lines are picked by their labels as cases are by their indexes. -/
theorem DispatchCase.filter_spelled (x : Index) (cases : List DispatchCase) :
    (cases.map spelled).filter (isLabelled x) =
      (cases.filter (·.index == x)).map spelled := by
  rw [List.filter_map]
  refine congrArg (List.map spelled) (List.filter_congr fun c _ => ?_)
  rw [Function.comp_apply, isLabelled_spelled]

namespace Navigation

variable {node : String} {callbacks : Index → Option String} {indexes before after : List Index}
  {x : Index}

/-! ### Cases, rows and positions -/

theorem mem_cases_iff {c : DispatchCase} :
    c ∈ (Navigation.of node indexes callbacks).cases ↔
      indexes[c.position]? = some c.index ∧ c.callbacks = callbacks c.index := by
  show c ∈ indexes.zipIdx.map _ ↔ _
  rw [List.mem_map]
  constructor
  · rintro ⟨⟨i, position⟩, hmem, rfl⟩
    exact ⟨List.mk_mem_zipIdx_iff_getElem?.mp hmem, rfl⟩
  · rintro ⟨hposition, hcallbacks⟩
    obtain ⟨i, position, name⟩ := c
    obtain rfl : name = callbacks i := hcallbacks
    exact ⟨(i, position), List.mk_mem_zipIdx_iff_getElem?.mpr hposition, rfl⟩

theorem filter_zipIdx_of_ne {l : List Index} (h : ∀ i ∈ l, i ≠ x) (k : Nat) :
    (l.zipIdx k).filter (fun b => b.1 == x) = [] :=
  List.filter_eq_nil_iff.mpr fun _ hb =>
    mt beq_iff_eq.mp (h _ (List.fst_mem_of_mem_zipIdx hb))

theorem filter_cases_of_split (h : (before ++ x :: after).Pairwise (· < ·)) :
    (Navigation.of node (before ++ x :: after) callbacks).cases.filter (·.index == x) =
      [⟨x, before.length, callbacks x⟩] := by
  obtain ⟨-, hafter, hbefore⟩ := List.pairwise_append.mp h
  have hnebefore : ∀ i ∈ before, i ≠ x := fun i hi heq =>
    UInt16.lt_irrefl i (heq ▸ hbefore i hi x List.mem_cons_self)
  have hneafter : ∀ i ∈ after, i ≠ x := fun i hi heq =>
    UInt16.lt_irrefl i (heq ▸ (List.pairwise_cons.mp hafter).1 i hi)
  show ((before ++ x :: after).zipIdx.map _).filter _ = _
  rw [List.filter_map]
  show ((before ++ x :: after).zipIdx.filter (fun b => b.1 == x)).map _ = _
  rw [List.zipIdx_append, List.zipIdx_cons, List.filter_append, List.filter_cons_of_pos (by simp),
    filter_zipIdx_of_ne hnebefore, filter_zipIdx_of_ne hneafter, Nat.zero_add]
  rfl

/-- The positions are the cases as a map. -/
theorem get?_positions_eq_some_iff (h : indexes.Pairwise (· < ·)) {p : Nat} :
    (Navigation.of node indexes callbacks).positions.get? x = some p ↔
      ∃ c ∈ (Navigation.of node indexes callbacks).cases, c.index = x ∧ c.position = p := by
  have hnodup : (indexes.zipIdx.map Prod.fst).Nodup := by
    rw [List.zipIdx_map_fst]
    exact nodup_of_ascending h
  show (AscendingMap.ofList indexes.zipIdx).get? x = some p ↔ _
  rw [AscendingMap.get?_ofList_eq_some_iff hnodup, List.mk_mem_zipIdx_iff_getElem?]
  constructor
  · intro hp
    exact ⟨⟨x, p, callbacks x⟩, mem_cases_iff.mpr ⟨hp, rfl⟩, rfl, rfl⟩
  · rintro ⟨c, hc, rfl, rfl⟩
    exact (mem_cases_iff.mp hc).1

end Navigation

/-! ### Blocks -/

namespace Emission

theorem get?_withFallbacks_of_ne {em : Emission} {blocks : List Block} {x : Index}
    (h : ∀ b ∈ blocks, b.index ≠ x) :
    (em.withFallbacks blocks).blocks.get? x = em.blocks.get? x := by
  show (blocks.foldl (fun m b => m.insert b.index b) em.blocks).get? x = _
  induction blocks generalizing em with
  | nil => rfl
  | cons b blocks ih =>
    obtain ⟨hb, hblocks⟩ := List.forall_mem_cons.mp h
    have hrank : rank x ≠ rank b.index := fun heq => hb (Ranked.rank_injective heq).symm
    rw [List.foldl_cons]
    refine (@ih { em with blocks := em.blocks.insert b.index b } hblocks).trans ?_
    rw [AscendingMap.get?_insert, if_neg hrank]

end Emission

namespace Dictionary

variable {d : Dictionary} {x : Index}

theorem map_index_of_entryCodes {r : Resolver} {codes : List EntryCode}
    (h : d.entryCodes.value r = .ok codes) : codes.map EntryCode.index = d.listedIndexes := by
  rw [listedIndexes_eq_map_sites]
  exact (map_eq_map_of_forall₂ (entryCodes_value_eq_ok_iff.mp h)
    fun s c hc => (Site.index_of_code hc).symm).symm

theorem nodup_map_index_of_entryCodes {r : Resolver} {codes : List EntryCode}
    (h : d.entryCodes.value r = .ok codes) : (codes.map EntryCode.index).Nodup := by
  rw [map_index_of_entryCodes h]
  exact nodup_of_ascending d.listedIndexes_ascending

theorem table_of_mem_sites {r : Resolver} {s : Site} {c : EntryCode} (hs : s ∈ d.sites)
    (hcode : s.code.value r = .ok c) : c.table = Symbol.table d.node.name c.index := by
  obtain ⟨b, -, rfl⟩ := List.mem_map.mp hs
  obtain ⟨-, -, -, -, -, -, rfl⟩ := Site.code_value_eq_ok_iff.mp hcode
  rfl

theorem exists_table_of_entryCodes (aliases : PointerAliases) {r : Resolver}
    {codes : List EntryCode} (h : d.entryCodes.value r = .ok codes) (hx : x ∈ d.listedIndexes) :
    ∃ block rows, (Emission.ofCodes aliases codes).blocks.get? x = some block ∧
      .table (Symbol.table d.node.name x) rows ∈ block.items := by
  obtain ⟨c, hc, rfl⟩ := List.mem_map.mp (map_index_of_entryCodes h ▸ hx)
  obtain ⟨s, hs, hcode⟩ := exists_site_of_mem_codes h hc
  refine ⟨c.block, c.rows, ?_, ?_⟩
  · rw [Emission.ofCodes_eq, Emission.get?_ofList_codes _ (nodup_map_index_of_entryCodes h)]
    exact ⟨c, hc, rfl, rfl⟩
  · rw [← table_of_mem_sites hs hcode]
    exact c.table_mem_items_block

end Dictionary

/-- The tables of a source document find the entries of a dictionary, whose blocks are among those
of an emission. -/
structure SourceDocument.Finds (source : SourceDocument) (d : Dictionary) (emission : Emission) :
    Prop where
  /-- The rows stand in the text line by line, and the cases behind them. -/
  printsIn : PrintsIn
    (source.navigation.spelledTable d.node.name ++ source.navigation.spelledSwitch d.node.name)
    source.text
  /-- A listed index has one case, and one line is labelled by it.  The case leads to the row of the
  index, and the row names the table that the entry put into its block. -/
  listed : ∀ x, Profile.commAreaStart ≤ x → d.contains x = true →
    ∃ c, source.navigation.cases.filter (·.index == x) = [c] ∧
      (source.navigation.cases.map DispatchCase.spelled).filter (DispatchCase.isLabelled x) =
        [c.spelled] ∧
      c.position = d.countBelow x ∧
      source.navigation.rows[c.position]? = some ⟨x, Symbol.table d.node.name x⟩ ∧
      ∃ block rows, emission.blocks.get? x = some block ∧ source.blocks.get? x = some block ∧
        .table (Symbol.table d.node.name x) rows ∈ block.items ∧
        source.PrintsAt x (BlockItem.table (Symbol.table d.node.name x) rows).spelled
  /-- Every other index is left to the default branch. -/
  unlisted : ∀ x, ¬ (Profile.commAreaStart ≤ x ∧ d.contains x = true) →
    source.navigation.cases.filter (·.index == x) = [] ∧
      (source.navigation.cases.map DispatchCase.spelled).filter (DispatchCase.isLabelled x) = []
  rows_ascending : source.navigation.rows.Pairwise fun a b => a.index < b.index
  length_rows : source.navigation.rows.length = source.navigation.cases.length
  /-- The positions are the cases as a map. -/
  positions : ∀ x p, source.navigation.positions.get? x = some p ↔
    ∃ c ∈ source.navigation.cases, c.index = x ∧ c.position = p
  last_of_greatest : ∀ c x, IsGreatest (d.members c) x →
    source.navigation.quickIndex.last.get c = d.countBelow x
  last_of_empty : ∀ c, d.members c = ∅ → source.navigation.quickIndex.last.get c = 0
  printsIn_last : PrintsIn
    (source.navigation.quickIndex.last.spelled (d.node.name ++ "_lastIndex")) source.text
  transmitCount : source.navigation.transmitCount =
    max 1 (d.indexes.filter fun i => 0x1800 ≤ i && i ≤ 0x19FF).length
  length_statusArray : source.statusArray.length = source.navigation.transmitCount
  length_statusArray_values : source.statusArray.values.length = source.navigation.transmitCount
  printsIn_states : PrintsIn (source.navigation.spelledStates d.node.name) source.text

namespace Dictionary

variable {d : Dictionary} {headerName : String} {aliases : PointerAliases} {config : Config}

/-- The transmit parameters are counted among the listed indexes. -/
theorem filter_pdoTransmit (d : Dictionary) :
    d.listedIndexes.filter Category.pdoTransmit.contains =
      d.indexes.filter fun i => 0x1800 ≤ i && i ≤ 0x19FF := by
  unfold listedIndexes indexesIn
  rw [List.filter_filter]
  refine List.filter_congr fun i _ => ?_
  rw [Bool.eq_iff_iff]
  simp only [Category.contains, Category.window, Profile.commAreaStart, Bool.and_eq_true,
    decide_eq_true_eq, UInt16.le_iff_toNat_le, UInt16.reduceToNat]
  omega

theorem finds_of_entryCodes {r : Resolver} {codes : List EntryCode} {ranges : List RangeType}
    {fallbacks : List Block} {timers : Nat} (h : d.entryCodes.value r = .ok codes)
    (hfallbacks : d.fallbackBlocks.outcome = .ok fallbacks) :
    (d.documentsOf headerName aliases config ranges codes fallbacks timers).1.Finds d
      (Emission.ofCodes aliases codes) where
  printsIn := SourceDocument.printsIn_navigation _
  listed x hstart hcontains := by
    have hx := mem_listedIndexes_iff.mpr ⟨hstart, hcontains⟩
    obtain ⟨block, rows, hblock, htable⟩ := exists_table_of_entryCodes aliases h hx
    obtain ⟨before, after, hsplit⟩ := List.append_of_mem hx
    have hcase (callbacks : Index → Option String) :
        (Navigation.of d.node.name d.listedIndexes callbacks).cases.filter (·.index == x) =
          [⟨x, before.length, callbacks x⟩] := by
      have hascending := d.listedIndexes_ascending
      rw [hsplit] at hascending ⊢
      exact Navigation.filter_cases_of_split hascending
    have hkept : ((Emission.ofCodes aliases codes).withFallbacks fallbacks).blocks.get? x =
        some block := by
      rw [← hblock]
      exact Emission.get?_withFallbacks_of_ne (index_ne_of_mem_fallbackBlocks hfallbacks hcontains)
    refine ⟨_, hcase _, ?_, (countBelow_of_split hsplit).symm, ?_, block, rows, hblock, hkept,
      htable, SourceDocument.printsAt_of_mem_items hkept htable⟩
    · rw [DispatchCase.filter_spelled, ← List.map_singleton]
      exact congrArg (List.map DispatchCase.spelled) (hcase _)
    · refine Navigation.getElem?_rows_eq_some_iff.mpr ⟨x, ?_, rfl⟩
      rw [← countBelow_of_split hsplit]
      exact getElem?_countBelow hx
  unlisted x hx := by
    rw [DispatchCase.filter_spelled, List.map_eq_nil_iff, and_self]
    refine List.filter_eq_nil_iff.mpr fun c hc heq => hx (mem_listedIndexes_iff.mp ?_)
    rw [← beq_iff_eq.mp heq]
    exact List.mem_of_getElem? (Navigation.mem_cases_iff.mp hc).1
  rows_ascending := List.pairwise_map.mpr d.listedIndexes_ascending
  length_rows := by
    show (d.listedIndexes.map _).length = (d.listedIndexes.zipIdx.map _).length
    rw [List.length_map, List.length_map, List.length_zipIdx]
  positions _ _ := Navigation.get?_positions_eq_some_iff d.listedIndexes_ascending
  last_of_greatest c x hx := last_quickIndex hx
  last_of_empty c hc := last_quickIndex_of_empty hc
  printsIn_last := SourceDocument.printsIn_lastPositions _
  transmitCount := by
    show max 1 (d.listedIndexes.filter Category.pdoTransmit.contains).length = _
    rw [filter_pdoTransmit]
  length_statusArray := rfl
  length_statusArray_values := List.length_replicate
  printsIn_states := SourceDocument.printsIn_states _

/-- **Lookup.**  In a generation that succeeds the tables of the source find the entries of the
dictionary: every listed index and no other has a line in the routine, the line leads to the row of
the index, and the row names the table that the entry put into its block. -/
theorem tables_find_entries {files : DocumentPair}
    (h : (d.generate headerName aliases config).outcome = .ok files) :
    ∃ source header emission,
      (d.documents headerName aliases config).outcome = .ok (source, header) ∧
      files = ⟨source.text, header.text⟩ ∧ d.emitted aliases = .ok emission ∧
      source.Finds d emission := by
  obtain ⟨source, header, hdocuments, hfiles⟩ := generate_outcome_eq_ok_iff.mp h
  obtain ⟨ranges, codes, fallbacks, timers, hvalue, hfallbacks, -, hof⟩ :=
    documents_outcome_eq_ok_iff.mp hdocuments
  obtain ⟨r, hranges, hcodes⟩ := rangesAndCodes_value_eq_ok_iff.mp hvalue
  refine ⟨source, header, Emission.ofCodes aliases codes, hdocuments, hfiles.symm, ?_, ?_⟩
  · rw [emitted_of_rangeTypes hranges, hcodes]
    rfl
  · rw [show source = _ from congrArg Prod.fst hof.symm]
    exact finds_of_entryCodes hcodes hfallbacks

theorem tables_find_entries_station :
    ∃ files source header emission,
      (station.generate "Node.h" .empty {}).outcome = .ok files ∧
      (station.documents "Node.h" .empty {}).outcome = .ok (source, header) ∧
      source.Finds station emission ∧
      (∃ c, source.navigation.cases.filter (·.index == 0x1801) = [c] ∧ c.position = 4) ∧
      (source.navigation.cases.map DispatchCase.spelled).filter
        (DispatchCase.isLabelled 0x1802) = [] ∧
      source.statusArray.length = 3 := by
  obtain ⟨files, h⟩ := exists_eq_ok_of_isOk
    (by decide +kernel : (station.generate "Node.h" .empty {}).outcome.isOk = true)
  obtain ⟨source, header, emission, hdocuments, -, -, hfinds⟩ := tables_find_entries h
  obtain ⟨c, hc, -, hposition, -⟩ := hfinds.listed 0x1801 (by decide) (by decide)
  refine ⟨files, source, header, emission, h, hdocuments, hfinds, ⟨c, hc, ?_⟩, ?_, ?_⟩
  · exact hposition.trans (by decide)
  · exact (hfinds.unlisted 0x1802 (by decide)).2
  · exact hfinds.length_statusArray.trans (hfinds.transmitCount.trans (by decide))

end Dictionary
end CanopenTables
