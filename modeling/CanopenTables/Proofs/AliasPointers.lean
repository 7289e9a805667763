import Mathlib.Data.List.Count
import Mathlib.Data.List.Nodup
import CanopenTables.Proofs.DictionarySection
import CanopenTables.Proofs.Notices

/-!
# Pointers at values

Two walks decide what becomes of the names that the caller gives to pointers.  One goes along the
aliases and reports those without a value to point at; the other goes along the rows of the subindex
tables and defines a pointer wherever an alias stands.

* The rows at their addresses form a **map**, and its addresses are exactly those at which the
  dictionary has a value (`isSome_get?_rowMap`).
* Walking along the rows and looking aliases up is the same as walking along the aliases and looking
  rows up (`AscendingMap.filterMap_get?_comm`), so the pointers stand in the order of the aliases.

Main statement: `aliases_defined_or_reported`.
-/

namespace CanopenTables

namespace AscendingMap

variable {κ α β : Type} [Ranked κ]

/-- Two maps meet at the same keys in the same order, from whichever of them one starts. -/
theorem filterMap_get?_comm (m : AscendingMap κ α) (m' : AscendingMap κ β) :
    (m.toList.filterMap fun b => (m'.get? b.1).map fun c => (b.1, b.2, c)) =
      m'.toList.filterMap fun c => (m.get? c.1).map fun a => (c.1, a, c.2) := by
  apply eq_of_mem_iff
  · rw [List.pairwise_filterMap]
    refine m.ascending.imp fun {b b'} hlt t ht t' ht' => ?_
    obtain ⟨c, -, rfl⟩ := Option.map_eq_some_iff.mp ht
    obtain ⟨c', -, rfl⟩ := Option.map_eq_some_iff.mp ht'
    exact hlt
  · rw [List.pairwise_filterMap]
    refine m'.ascending.imp fun {c c'} hlt t ht t' ht' => ?_
    obtain ⟨a, -, rfl⟩ := Option.map_eq_some_iff.mp ht
    obtain ⟨a', -, rfl⟩ := Option.map_eq_some_iff.mp ht'
    exact hlt
  · rintro ⟨k, a, c⟩
    simp only [List.mem_filterMap, Option.map_eq_some_iff, Prod.mk.injEq, get?_eq_some_iff]
    constructor
    · rintro ⟨b, hb, c, hc, rfl, rfl, rfl⟩
      exact ⟨(b.1, c), hc, b.2, hb, rfl, rfl, rfl⟩
    · rintro ⟨b, hb, a, ha, rfl, rfl, rfl⟩
      exact ⟨(b.1, a), ha, b.2, hb, rfl, rfl, rfl⟩

end AscendingMap

/-! ### The rows at their addresses -/

/-- The rows of some entries, each at its address. -/
def addressedRows (codes : List EntryCode) : List (Address × Row) :=
  codes.flatMap fun c => c.rows.zipIdx.map fun b => (⟨c.index, UInt8.ofNat b.2⟩, b.1)

theorem mem_addressedRows_iff {codes : List EntryCode}
    (hsize : ∀ c ∈ codes, c.rows.length ≤ 256) {a : Address} {row : Row} :
    (a, row) ∈ addressedRows codes ↔
      ∃ c ∈ codes, c.index = a.index ∧ c.rows[a.sub.toNat]? = some row := by
  unfold addressedRows
  rw [List.mem_flatMap]
  refine exists_congr fun c => and_congr_right fun hc => ?_
  rw [List.mem_map]
  constructor
  · rintro ⟨⟨row, k⟩, hk, heq⟩
    cases heq
    have hrow : c.rows[k]? = some row := List.mk_mem_zipIdx_iff_getElem?.mp hk
    have hlt : k < c.rows.length := (List.getElem?_eq_some_iff.mp hrow).1
    have hbyte : k < 256 := by
      have := hsize c hc
      omega
    refine ⟨rfl, ?_⟩
    rw [UInt8.toNat_ofNat_of_lt' hbyte]
    exact hrow
  · rintro ⟨hindex, hrow⟩
    refine ⟨(row, a.sub.toNat), List.mk_mem_zipIdx_iff_getElem?.mpr hrow, ?_⟩
    rw [hindex, UInt8.ofNat_toNat]

theorem addressedRows_ascending {codes : List EntryCode}
    (hsize : ∀ c ∈ codes, c.rows.length ≤ 256)
    (hcodes : (codes.map EntryCode.index).Pairwise (· < ·)) :
    (addressedRows codes).Pairwise fun a b => rank a.1 < rank b.1 := by
  unfold addressedRows
  rw [List.pairwise_flatMap]
  constructor
  · intro c hc
    rw [List.pairwise_map, List.pairwise_iff_getElem]
    intro k l hk hl hkl
    have hsizec := hsize c hc
    rw [List.length_zipIdx] at hk hl
    rw [List.getElem_zipIdx, List.getElem_zipIdx]
    show c.index.toNat * 256 + (UInt8.ofNat (0 + k)).toNat <
      c.index.toNat * 256 + (UInt8.ofNat (0 + l)).toNat
    rw [UInt8.toNat_ofNat_of_lt' (by show 0 + k < 256; omega),
      UInt8.toNat_ofNat_of_lt' (by show 0 + l < 256; omega)]
    omega
  · rw [List.pairwise_map] at hcodes
    refine hcodes.imp fun {c c'} hlt x hx y hy => ?_
    obtain ⟨b, -, rfl⟩ := List.mem_map.mp hx
    obtain ⟨b', -, rfl⟩ := List.mem_map.mp hy
    have hindex : c.index.toNat < c'.index.toNat := UInt16.lt_iff_toNat_lt.mp hlt
    have hsub := (UInt8.ofNat b.2).toNat_lt
    show c.index.toNat * 256 + (UInt8.ofNat b.2).toNat <
      c'.index.toNat * 256 + (UInt8.ofNat b'.2).toNat
    omega

/-! ### The pointers of some entries -/

/-- The pointer with which an alias names the variable behind a row. -/
def PointerDefinition.ofRow (name : String) (row : Row) : PointerDefinition :=
  ⟨row.type.storage, name, row.target⟩

theorem flatMap_pointers (codes : List EntryCode) (aliases : PointerAliases) :
    codes.flatMap (·.pointers aliases) =
      (addressedRows codes).filterMap fun b =>
        (aliases.get? b.1).map fun name => .ofRow name b.2 := by
  unfold addressedRows
  rw [List.filterMap_flatMap]
  refine List.flatMap_congr fun c _ => ?_
  rw [List.filterMap_map]
  rfl

/-- The pointers in the order of the aliases: a map of rows is looked up for each of them. -/
theorem pointers_eq_filterMap_aliases {codes : List EntryCode} {rows : AscendingMap Address Row}
    (hrows : rows.toList = addressedRows codes) (aliases : PointerAliases) :
    codes.flatMap (·.pointers aliases) =
      aliases.toList.filterMap fun b => (rows.get? b.1).map (.ofRow b.2) := by
  have hjoin := congrArg (List.map fun t => PointerDefinition.ofRow t.2.2 t.2.1)
    (rows.filterMap_get?_comm aliases)
  rw [List.map_filterMap, List.map_filterMap, hrows] at hjoin
  rw [flatMap_pointers]
  simp only [Option.map_map] at hjoin
  exact hjoin

namespace Dictionary

variable {d : Dictionary} {r : Resolver} {codes : List EntryCode} {a : Address}

/-- Whether an entry from 0x1000 on has a value at an address. -/
def holdsValueAt (d : Dictionary) (a : Address) : Bool :=
  Profile.commAreaStart ≤ a.index && (d.value? a.index a.sub).isSome

theorem ignoresAlias_eq (d : Dictionary) (a : Address) : d.ignoresAlias a = !d.holdsValueAt a := by
  unfold ignoresAlias holdsValueAt
  rw [Bool.not_and, Option.not_isSome]
  congr 1
  by_cases h : a.index < Profile.commAreaStart
  · simp [h, UInt16.not_le.mpr h]
  · simp [h, UInt16.not_lt.mp h]

section rows

variable (hcodes : d.entryCodes.value r = .ok codes)

include hcodes

theorem length_rows_le : ∀ c ∈ codes, c.rows.length ≤ 256 := by
  intro c hc
  obtain ⟨s, -, hcode⟩ := exists_site_of_mem_codes hcodes hc
  rw [Site.length_rows_of_code hcode]
  exact (Site.size_of_code hcode).2

theorem map_index_ascending : (codes.map EntryCode.index).Pairwise (· < ·) := by
  rw [map_index_of_entryCodes hcodes]
  exact d.listedIndexes_ascending

/-- The rows of all entries by address. -/
def rowMap : AscendingMap Address Row :=
  ⟨addressedRows codes,
    addressedRows_ascending (length_rows_le hcodes) (map_index_ascending hcodes)⟩

theorem get?_rowMap_eq_some_iff {row : Row} :
    (rowMap hcodes).get? a = some row ↔
      ∃ c ∈ codes, c.index = a.index ∧ c.rows[a.sub.toNat]? = some row := by
  rw [AscendingMap.get?_eq_some_iff]
  exact mem_addressedRows_iff (length_rows_le hcodes)

/-- There is a row exactly where there is a value. -/
theorem isSome_get?_rowMap : ((rowMap hcodes).get? a).isSome = d.holdsValueAt a := by
  rw [Bool.eq_iff_iff, Option.isSome_iff_exists]
  unfold holdsValueAt value? Entry.value? Object.get?
  simp only [get?_rowMap_eq_some_iff hcodes, Bool.and_eq_true, decide_eq_true_eq]
  constructor
  · rintro ⟨row, c, hc, hindex, hrow⟩
    obtain ⟨s, hs, hcode⟩ := exists_site_of_mem_codes hcodes hc
    obtain ⟨-, hstart, hget⟩ := mem_sites_iff.mp hs
    have hlt := (List.getElem?_eq_some_iff.mp hrow).1
    rw [Site.length_rows_of_code hcode] at hlt
    rw [Site.index_of_code hcode] at hindex
    rw [hindex] at hstart hget
    refine ⟨hstart, ?_⟩
    rw [hget, Option.bind_some, List.getElem?_eq_getElem hlt]
    rfl
  · rintro ⟨hstart, hvalue⟩
    obtain ⟨value, hvalue⟩ := Option.isSome_iff_exists.mp hvalue
    obtain ⟨e, hget, hvalue⟩ := Option.bind_eq_some_iff.mp hvalue
    obtain ⟨c, hc, hcode, hindex⟩ := exists_code_of_get? hcodes hstart hget
    have hlt := (List.getElem?_eq_some_iff.mp hvalue).1
    rw [← Site.length_rows_of_code hcode] at hlt
    exact ⟨_, c, hc, hindex, List.getElem?_eq_getElem hlt⟩

end rows

end Dictionary

/-! ### What becomes of the aliases -/

/-- An alias is defined by a pointer to the storage type of a row in the subindex table of its
index; the pointer holds the address that the row holds.  The line of the pointer and the lines of
the table say so. -/
def SourceDocument.Defines (source : SourceDocument) (node : String) (b : Address × String)
    (p : PointerDefinition) : Prop :=
  ∃ block rows row, source.blocks.get? b.1.index = some block ∧
    .table (Symbol.table node b.1.index) rows ∈ block.items ∧
    rows[b.1.sub.toNat]? = some row ∧ p = ⟨row.type.storage, b.2, row.target⟩ ∧
    p.text = row.type.storage.spelled ++ "* " ++ b.2 ++ " = &" ++ row.target ++ ";\n" ∧
    source.PrintsAt b.1.index (BlockItem.table (Symbol.table node b.1.index) rows).spelled

/-- Each alias is defined in the source or reported, and not both. -/
structure SourceDocument.SettlesAliases (source : SourceDocument) (d : Dictionary)
    (aliases : PointerAliases) (notices : List Notice) : Prop where
  /-- The pointers define, one by one, the aliases at whose address there is a value. -/
  pointers : List.Forall₂ (source.Defines d.node.name)
    (aliases.toList.filter fun b => d.holdsValueAt b.1) source.pointers
  /-- These aliases ascend by index and then by subindex. -/
  ascending : (aliases.toList.filter fun b => d.holdsValueAt b.1).Pairwise fun b b' =>
    b.1.index < b'.1.index ∨ b.1.index = b'.1.index ∧ b.1.sub < b'.1.sub
  /-- The stage of the aliases reports all others and nothing else. -/
  reports : notices.filter (·.stage? == some .aliases) =
    (aliases.toList.filter fun b => !d.holdsValueAt b.1).map fun b =>
      .staged d.node.name (.aliasIgnored b.1 b.2)
  report_lines : (notices.filter (·.stage? == some .aliases)).map Notice.line =
    (aliases.toList.filter fun b => !d.holdsValueAt b.1).map (ignoredLine d.node.name)
  count_report : ∀ b ∈ aliases.toList,
    notices.count (.staged d.node.name (.aliasIgnored b.1 b.2)) =
      if d.holdsValueAt b.1 then 0 else 1
  /-- The section of pointers is made of their lines and nothing else. -/
  text : ∃ before after, ∀ pointers : List PointerDefinition,
    { source with pointers := pointers }.text =
      before ++ sectionText "Declaration of pointed variables" ++
        String.join (pointers.map PointerDefinition.text) ++ after
  /-- Behind the pointers of the source comes the table of entries. -/
  printsIn : PrintsIn (sectionText "Declaration of pointed variables" ++
    String.join (source.pointers.map PointerDefinition.spelled) ++
      source.navigation.spelledTable source.node.name) source.text

namespace Dictionary

variable {d : Dictionary} {headerName : String} {aliases : PointerAliases} {config : Config}
  {r : Resolver} {codes : List EntryCode} {ranges : List RangeType} {fallbacks : List Block}
  {timers : Nat}

theorem aliasNotices_eq (d : Dictionary) (aliases : PointerAliases) :
    d.aliasNotices aliases =
      (aliases.toList.filter fun b => !d.holdsValueAt b.1).map fun b =>
        .staged d.node.name (.aliasIgnored b.1 b.2) := by
  unfold aliasNotices
  simp only [ignoresAlias_eq]

theorem pointers_documentsOf (hcodes : d.entryCodes.value r = .ok codes)
    (hfallbacks : d.fallbackBlocks.outcome = .ok fallbacks) :
    let source := (d.documentsOf headerName aliases config ranges codes fallbacks timers).1
    List.Forall₂ (source.Defines d.node.name)
      (aliases.toList.filter fun b => d.holdsValueAt b.1) source.pointers := by
  intro source
  have hpointers : source.pointers =
      aliases.toList.filterMap fun b => ((rowMap hcodes).get? b.1).map (.ofRow b.2) := by
    rw [← pointers_eq_filterMap_aliases rfl]
    show (Emission.ofCodes aliases codes).pointers = _
    rw [Emission.ofCodes_eq]
  have hstep := forall₂_filter_filterMap
    (fun b : Address × String => ((rowMap hcodes).get? b.1).map (PointerDefinition.ofRow b.2))
    aliases.toList
  simp only [Option.isSome_map, isSome_get?_rowMap hcodes] at hstep
  rw [hpointers]
  refine hstep.imp fun b p hp => ?_
  obtain ⟨row, hrow, rfl⟩ := Option.map_eq_some_iff.mp hp
  obtain ⟨c, hc, hindex, hrow⟩ := (get?_rowMap_eq_some_iff hcodes).mp hrow
  obtain ⟨s, hs, hcode⟩ := exists_site_of_mem_codes hcodes hc
  have hblock : source.blocks.get? b.1.index = some c.block :=
    (get?_blocks_iff hcodes hfallbacks aliases).mpr (Or.inr ⟨c, hc, hindex, rfl⟩)
  have htable : .table (Symbol.table d.node.name b.1.index) c.rows ∈ c.block.items := by
    rw [← hindex, ← table_of_mem_sites hs hcode]
    exact c.table_mem_items_block
  exact ⟨c.block, c.rows, row, hblock, htable, hrow, rfl,
    (PointerDefinition.ofRow b.2 row).text_eq_spelled,
    SourceDocument.printsAt_of_mem_items hblock htable⟩

/-- The addresses of a map of aliases differ, so each alias stands there once. -/
theorem count_aliasNotices {b : Address × String} (hb : b ∈ aliases.toList) :
    (d.aliasNotices aliases).count (.staged d.node.name (.aliasIgnored b.1 b.2)) =
      if d.holdsValueAt b.1 then 0 else 1 := by
  have hinjective : Function.Injective fun b : Address × String =>
      Notice.staged d.node.name (.aliasIgnored b.1 b.2) := by
    intro b b' heq
    obtain ⟨-, hevent⟩ := Notice.staged.inj heq
    obtain ⟨haddress, hname⟩ := StageEvent.aliasIgnored.inj hevent
    exact Prod.ext haddress hname
  have hnodup : aliases.toList.Nodup := by
    refine aliases.ascending.imp fun {b b'} hlt heq => ?_
    rw [heq] at hlt
    exact Nat.lt_irrefl _ hlt
  have hcount := List.count_map_of_injective
    (aliases.toList.filter fun b => !d.holdsValueAt b.1) _ hinjective b
  rw [aliasNotices_eq, hcount]
  split
  · rename_i hvalue
    apply List.count_eq_zero_of_not_mem
    simp [hvalue]
  · rename_i hvalue
    apply List.count_eq_one_of_mem (hnodup.filter _)
    simp [hb, hvalue]

/-- **Pointer aliases.**  In a generation that succeeds each alias is either defined by one pointer
in the source or reported once, and not both: it is defined when an entry from 0x1000 on has a value
at its address.  The lines of the pointers stand in the order of the addresses. -/
theorem aliases_defined_or_reported {files : DocumentPair}
    (h : (d.generate headerName aliases config).outcome = .ok files) :
    ∃ source header,
      (d.documents headerName aliases config).outcome = .ok (source, header) ∧
      files = ⟨source.text, header.text⟩ ∧
      source.SettlesAliases d aliases (d.generate headerName aliases config).notices := by
  obtain ⟨source, header, hdocuments, hfiles⟩ := generate_outcome_eq_ok_iff.mp h
  obtain ⟨ranges, codes, fallbacks, timers, hvalue, hfallbacks, -, hof⟩ :=
    documents_outcome_eq_ok_iff.mp hdocuments
  obtain ⟨r, -, hcodes⟩ := rangesAndCodes_value_eq_ok_iff.mp hvalue
  have hreports := d.filter_notices_generate headerName aliases config
  refine ⟨source, header, hdocuments, hfiles.symm, ?_, ?_, ?_, ?_, ?_, ?_,
    source.printsIn_pointers⟩
  · rw [show source = _ from congrArg Prod.fst hof.symm]
    exact pointers_documentsOf hcodes hfallbacks
  · refine (aliases.ascending.filter _).imp fun {b b'} hlt => ?_
    have hrank : b.1.index.toNat * 256 + b.1.sub.toNat <
        b'.1.index.toNat * 256 + b'.1.sub.toNat := hlt
    have hsub := b.1.sub.toNat_lt
    have hsub' := b'.1.sub.toNat_lt
    rw [UInt16.lt_iff_toNat_lt, UInt8.lt_iff_toNat_lt, ← UInt16.toNat_inj]
    omega
  · rw [hreports, aliasNotices_eq]
  · rw [hreports, aliasNotices_eq, List.map_map]
    exact List.map_congr_left fun b _ => Notice.line_aliasIgnored d.node.name b
  · intro b hb
    have hcount := count_aliasNotices (d := d) hb
    rw [← hreports] at hcount
    rw [← hcount, List.count_filter]
    rfl
  · obtain ⟨before, after, htext⟩ := source.exists_text_eq
    exact ⟨before ++ SourceDocument.dictionaryHeading ++
      String.join (source.blocks.values.map Block.text), after, htext source.blocks⟩

/-- Names for two values of a drive, for a subindex that its speeds do not have, and for a bound in
the type area. -/
def driveAliases : PointerAliases :=
  .ofList [(⟨0x2002, 1⟩, "unitName"), (⟨0x2001, 2⟩, "fast"), (⟨0x2001, 3⟩, "fastest"),
    (⟨0x0040, 3⟩, "limit")]

theorem aliases_defined_or_reported_drive :
    ∃ files source header,
      (drive.generate "Drive.h" driveAliases {}).outcome = .ok files ∧
      (drive.documents "Drive.h" driveAliases {}).outcome = .ok (source, header) ∧
      source.SettlesAliases drive driveAliases
        (drive.generate "Drive.h" driveAliases {}).notices ∧
      source.pointers.length = 2 ∧
      (drive.generate "Drive.h" driveAliases {}).notices.filter (·.stage? == some .aliases) =
        [.staged "Drive" (.aliasIgnored ⟨0x0040, 3⟩ "limit"),
          .staged "Drive" (.aliasIgnored ⟨0x2001, 3⟩ "fastest")] := by
  obtain ⟨files, h⟩ := exists_eq_ok_of_isOk
    (by decide +kernel : (drive.generate "Drive.h" driveAliases {}).outcome.isOk = true)
  obtain ⟨source, header, hdocuments, -, hsettled⟩ := aliases_defined_or_reported h
  refine ⟨files, source, header, h, hdocuments, hsettled, ?_, ?_⟩
  · rw [← hsettled.pointers.length_eq]
    decide
  · rw [hsettled.reports]
    decide

end Dictionary
end CanopenTables
