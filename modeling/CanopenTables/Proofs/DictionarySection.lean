import CanopenTables.Proofs.TableLookup

/-!
# The blocks of the object dictionary section

Two stages fill the section.  The entries put their blocks there, in ascending order; then come the
fallbacks, in an order of their own.  The blocks are kept by index, so they are written in ascending
order all the same.

* A fallback is made for an entry that the **whole dictionary** lacks, so it never meets a block
  that an entry has put there (`get?_blocks_iff`).
* A fallback is a block and **nothing else**: the navigation tables and the callbacks know only the
  entries of the dictionary.

Main statement: `section_holds_blocks`.
-/

namespace CanopenTables

theorem Emission.blocks_withFallbacks (em : Emission) (fallbacks : List Block) :
    (em.withFallbacks fallbacks).blocks =
      em.blocks.insertAll (fallbacks.map fun b => (b.index, b)) := by
  unfold withFallbacks AscendingMap.insertAll
  rw [List.foldl_map]

namespace Dictionary

variable {d : Dictionary} {x : Index}

/-! ### Fallbacks -/

theorem missingIndexes_nodup (d : Dictionary) : d.missingIndexes.Nodup := by
  have hindexes : Fallback.indexes.Nodup := by decide
  exact hindexes.filter _

theorem map_index_of_fallbackBlocks {fallbacks : List Block}
    (h : d.fallbackBlocks.outcome = .ok fallbacks) :
    fallbacks.map Block.index = d.missingIndexes := by
  have hindexes := map_eq_map_of_forall₂ (f := id) (g := Block.index)
    (fallbackBlocks_outcome_eq_ok_iff.mp h) fun i b hb => (Fallback.index_of_block hb).symm
  rw [← hindexes, List.map_id]

/-- An index that is free has the name of the well-known entry there. -/
theorem entryName?_of_not_contains (h : d.contains x = false) :
    d.entryName? x = Profile.entryName? x := by
  have hget : d.get? x = none := Option.not_isSome_iff_eq_none.mp (Bool.eq_false_iff.mp h)
  unfold entryName?
  rw [hget]

theorem exists_entryName_of_mem_indexes (h : x ∈ Fallback.indexes) :
    ∃ name, Profile.entryName? x = some name := by
  have hall : (Fallback.indexes.all fun i => (Profile.entryName? i).isSome) = true := by decide
  exact Option.isSome_iff_exists.mp (List.all_eq_true.mp hall x h)

/-! ### All blocks -/

theorem mem_sites_iff {s : Site} :
    s ∈ d.sites ↔
      s.dictionary = d ∧ Profile.commAreaStart ≤ s.index ∧ d.get? s.index = some s.entry := by
  have hle (i : Index) : i ≤ 0xFFFF := UInt16.le_iff_toNat_le.mpr (Nat.le_of_lt_succ i.toNat_lt)
  constructor
  · intro hs
    obtain ⟨b, hb, rfl⟩ := List.mem_map.mp hs
    obtain ⟨hmem, hrange⟩ := List.mem_filter.mp hb
    have hstart : Profile.commAreaStart ≤ b.1 := by
      simpa [hle] using hrange
    exact ⟨rfl, hstart, AscendingMap.get?_eq_some_iff.mpr hmem⟩
  · rintro ⟨rfl, hstart, hget⟩
    have hmem : (s.index, s.entry) ∈ s.dictionary.entries.toList :=
      AscendingMap.get?_eq_some_iff.mp hget
    have hrange : (s.index, s.entry) ∈ s.dictionary.entriesIn Profile.commAreaStart 0xFFFF :=
      List.mem_filter.mpr ⟨hmem, by simp [hstart, hle]⟩
    exact List.mem_map.mpr ⟨(s.index, s.entry), hrange, rfl⟩

section blocks

variable {r : Resolver} {codes : List EntryCode} {fallbacks : List Block} {b : Block}
  (hcodes : d.entryCodes.value r = .ok codes)
  (hfallbacks : d.fallbackBlocks.outcome = .ok fallbacks) (aliases : PointerAliases)

include hcodes

theorem exists_code_of_get? {e : Entry} (hstart : Profile.commAreaStart ≤ x)
    (hget : d.get? x = some e) :
    ∃ c ∈ codes, (Site.mk d x e).code.value r = .ok c ∧ c.index = x := by
  have hsite : (⟨d, x, e⟩ : Site) ∈ d.sites := mem_sites_iff.mpr ⟨rfl, hstart, hget⟩
  obtain ⟨c, hc, hcode⟩ := exists_code_of_mem_sites hcodes hsite
  exact ⟨c, hc, hcode, Site.index_of_code hcode⟩

theorem get?_blocks_ofCodes_iff :
    (Emission.ofCodes aliases codes).blocks.get? x = some b ↔
      ∃ c ∈ codes, c.index = x ∧ c.block = b := by
  rw [Emission.ofCodes_eq]
  exact Emission.get?_ofList_codes EntryCode.block (nodup_map_index_of_entryCodes hcodes)

theorem contains_of_mem_entryCodes {c : EntryCode} (hc : c ∈ codes) :
    d.contains c.index = true := by
  have hlisted : c.index ∈ d.listedIndexes :=
    map_index_of_entryCodes hcodes ▸ List.mem_map_of_mem hc
  exact (mem_listedIndexes_iff.mp hlisted).2

theorem get?_blocks_ofCodes_of_not_contains (h : d.contains x = false) :
    (Emission.ofCodes aliases codes).blocks.get? x = none := by
  refine Option.eq_none_iff_forall_ne_some.mpr fun b hb => ?_
  obtain ⟨c, hc, rfl, -⟩ := (get?_blocks_ofCodes_iff hcodes aliases).mp hb
  rw [contains_of_mem_entryCodes hcodes hc] at h
  cases h

theorem get?_callbacks_ofCodes_of_not_contains (h : d.contains x = false) :
    (Emission.ofCodes aliases codes).callbacks.get? x = none := by
  refine Option.eq_none_iff_forall_ne_some.mpr fun a ha => ?_
  rw [Emission.ofCodes_eq] at ha
  obtain ⟨c, hc, rfl, -⟩ :=
    (Emission.get?_ofList_codes _ (nodup_map_index_of_entryCodes hcodes)).mp ha
  rw [contains_of_mem_entryCodes hcodes hc] at h
  cases h

include hfallbacks

/-- The blocks are those of the entries and the fallbacks, side by side. -/
theorem get?_blocks_iff :
    ((Emission.ofCodes aliases codes).withFallbacks fallbacks).blocks.get? x = some b ↔
      (b ∈ fallbacks ∧ b.index = x) ∨ ∃ c ∈ codes, c.index = x ∧ c.block = b := by
  have hkeys : (fallbacks.map fun b => (b.index, b)).map Prod.fst = d.missingIndexes := by
    rw [List.map_map, ← map_index_of_fallbackBlocks hfallbacks]
    rfl
  -- no fallback meets a block of an entry
  have hfree : ∀ i ∈ (fallbacks.map fun b => (b.index, b)).map Prod.fst,
      (Emission.ofCodes aliases codes).blocks.get? i = none := by
    intro i hi
    rw [hkeys] at hi
    exact get?_blocks_ofCodes_of_not_contains hcodes aliases (mem_missingIndexes_iff.mp hi).2
  rw [Emission.blocks_withFallbacks,
    AscendingMap.get?_insertAll_eq_some_iff (hkeys ▸ d.missingIndexes_nodup) _ hfree,
    get?_blocks_ofCodes_iff hcodes aliases, List.mem_map]
  refine or_congr_left ?_
  constructor
  · rintro ⟨b', hb', h⟩
    cases h
    exact ⟨hb', rfl⟩
  · rintro ⟨hb, rfl⟩
    exact ⟨b, hb, rfl⟩

theorem index_of_get?_blocks
    (hb : ((Emission.ofCodes aliases codes).withFallbacks fallbacks).blocks.get? x = some b) :
    b.index = x := by
  rcases (get?_blocks_iff hcodes hfallbacks aliases).mp hb with ⟨-, h⟩ | ⟨c, -, h, rfl⟩
  · exact h
  · exact h

/-- There is a block for each entry from 0x1000 on, and for each entry that the stack needs. -/
theorem exists_get?_blocks_iff :
    (∃ b, ((Emission.ofCodes aliases codes).withFallbacks fallbacks).blocks.get? x = some b) ↔
      (Profile.commAreaStart ≤ x ∧ d.contains x = true) ∨ x ∈ Fallback.indexes := by
  have hfallback : x ∈ fallbacks.map Block.index ↔ x ∈ d.missingIndexes := by
    rw [map_index_of_fallbackBlocks hfallbacks]
  have hcode : x ∈ codes.map EntryCode.index ↔ x ∈ d.listedIndexes := by
    rw [map_index_of_entryCodes hcodes]
  simp only [get?_blocks_iff hcodes hfallbacks aliases]
  rw [← mem_listedIndexes_iff]
  constructor
  · rintro ⟨b, ⟨hmem, rfl⟩ | ⟨c, hc, rfl, -⟩⟩
    · exact Or.inr (mem_missingIndexes_iff.mp (hfallback.mp (List.mem_map_of_mem hmem))).1
    · exact Or.inl (hcode.mp (List.mem_map_of_mem hc))
  · intro hx
    by_cases hlisted : x ∈ d.listedIndexes
    · obtain ⟨c, hc, rfl⟩ := List.mem_map.mp (hcode.mpr hlisted)
      exact ⟨c.block, Or.inr ⟨c, hc, rfl, rfl⟩⟩
    · have hneeded : x ∈ Fallback.indexes := hx.resolve_left hlisted
      have harea := (Fallback.inCommArea_of_mem hneeded).1
      have hmissing : d.contains x = false := by
        rw [mem_listedIndexes_iff] at hlisted
        simpa [harea] using hlisted
      obtain ⟨b, hb, rfl⟩ := List.mem_map.mp
        (hfallback.mpr (mem_missingIndexes_iff.mpr ⟨hneeded, hmissing⟩))
      exact ⟨b, Or.inl ⟨hb, rfl⟩⟩

theorem exists_fallback_of_not_contains (hx : x ∈ Fallback.indexes)
    (hmissing : d.contains x = false) :
    ∃ name b, Profile.entryName? x = some name ∧ Fallback.block d.node x name = .ok b ∧
      ((Emission.ofCodes aliases codes).withFallbacks fallbacks).blocks.get? x = some b := by
  obtain ⟨name, hname⟩ := exists_entryName_of_mem_indexes hx
  obtain ⟨b, hb, hblock⟩ :=
    exists_mem_right_of_forall₂ (fallbackBlocks_outcome_eq_ok_iff.mp hfallbacks)
      (mem_missingIndexes_iff.mpr ⟨hx, hmissing⟩)
  rw [entryName?_of_not_contains hmissing, hname] at hblock
  refine ⟨name, b, hname, hblock, (get?_blocks_iff hcodes hfallbacks aliases).mpr ?_⟩
  exact Or.inl ⟨hb, Fallback.index_of_block hblock⟩

end blocks

theorem not_mem_navigation (hx : x ∉ d.listedIndexes) (node : String)
    (callbacks : Index → Option String) :
    (∀ row ∈ (Navigation.of node d.listedIndexes callbacks).rows, row.index ≠ x) ∧
      ∀ c ∈ (Navigation.of node d.listedIndexes callbacks).cases, c.index ≠ x := by
  constructor
  · rintro row hrow rfl
    obtain ⟨i, hi, rfl⟩ := List.mem_map.mp hrow
    exact hx hi
  · rintro c hc rfl
    exact hx (List.mem_of_getElem? (Navigation.mem_cases_iff.mp hc).1)

end Dictionary

/-! ### The section -/

/-- The blocks and the pointers stand one behind the other, each under the heading of their section;
the text before and after does not depend on them. -/
theorem SourceDocument.exists_text_eq (source : SourceDocument) :
    ∃ before after, ∀ (blocks : AscendingMap Index Block) (pointers : List PointerDefinition),
      { source with blocks := blocks, pointers := pointers }.text =
        before ++ SourceDocument.dictionaryHeading ++ String.join (blocks.values.map Block.text) ++
          sectionText "Declaration of pointed variables" ++
            String.join (pointers.map PointerDefinition.text) ++ after := by
  let before := "\n" ++ source.banner ++ "\n" ++ "\n#include \"" ++ source.headerName ++ "\"\n" ++
    sectionText "Declaration of mapped variables" ++
    String.join (source.definitions.map MappedDefinition.text) ++
    sectionText "Declaration of value range types" ++ source.ranges.text ++
    sectionText "The node id" ++ source.identityText ++ source.timersText
  let after := source.indexTableText ++ source.scanText ++ source.transmitText ++
    source.navigation.quickIndex.text source.node.name ++ source.nodeDataText
  refine ⟨before, after, fun blocks pointers => ?_⟩
  -- the parts around the two sections are the same in both documents
  let changed : SourceDocument := { source with blocks := blocks, pointers := pointers }
  have hidentity : changed.identityText = source.identityText := rfl
  have htimers : changed.timersText = source.timersText := rfl
  have htable : changed.indexTableText = source.indexTableText := rfl
  have hscan : changed.scanText = source.scanText := rfl
  have htransmit : changed.transmitText = source.transmitText := rfl
  have hdata : changed.nodeDataText = source.nodeDataText := rfl
  show changed.text = _
  unfold SourceDocument.text
  rw [hidentity, htimers, htable, hscan, htransmit, hdata]
  simp only [before, after, ← String.append_assoc, changed]

/-- The object dictionary section of a source document holds the blocks of a dictionary, whose
entries are laid out with the answers of a resolver and add to an emission. -/
structure SourceDocument.HoldsBlocks (source : SourceDocument) (d : Dictionary) (r : Resolver)
    (emission : Emission) : Prop where
  /-- Between its heading and the next section stand the blocks and nothing else; the text around
  them does not depend on the blocks. -/
  text : ∃ before after, ∀ blocks : AscendingMap Index Block,
    { source with blocks := blocks }.text =
      before ++ SourceDocument.dictionaryHeading ++ String.join (blocks.values.map Block.text) ++
        sectionText "Declaration of pointed variables" ++ after
  /-- The lines of the blocks stand there one after the other. -/
  printsIn : PrintsIn (SourceDocument.dictionaryHeading ++
    String.join (source.blocks.values.map Block.spelled) ++
      sectionText "Declaration of pointed variables") source.text
  /-- There is one block for each index, in ascending order. -/
  ascending : (source.blocks.values.map Block.index).Pairwise (· < ·)
  mem_indexes_iff : ∀ x, x ∈ source.blocks.values.map Block.index ↔
    (Profile.commAreaStart ≤ x ∧ d.contains x = true) ∨ x ∈ Fallback.indexes
  index_of_get? : ∀ x b, source.blocks.get? x = some b → b.index = x
  /-- The block of an entry is what laying out this entry has given. -/
  of_entry : ∀ x e, Profile.commAreaStart ≤ x → d.get? x = some e →
    ∃ c, (⟨d, x, e⟩ : Site).code.value r = .ok c ∧ emission.blocks.get? x = some c.block ∧
      source.blocks.get? x = some c.block
  /-- An entry that is missing has its fallback, under the name that the profile gives it. -/
  of_missing : ∀ x ∈ Fallback.indexes, d.contains x = false →
    ∃ name b, Profile.entryName? x = some name ∧ Fallback.block d.node x name = .ok b ∧
      source.blocks.get? x = some b
  /-- The navigation tables and the callbacks leave the fallbacks out. -/
  unlisted : ∀ x ∈ Fallback.indexes, d.contains x = false →
    (∀ row ∈ source.navigation.rows, row.index ≠ x) ∧
      (∀ c ∈ source.navigation.cases, c.index ≠ x) ∧ emission.callbacks.get? x = none

theorem map_index_values {m : AscendingMap Index Block}
    (h : ∀ x b, m.get? x = some b → b.index = x) : m.values.map Block.index = m.keys := by
  unfold AscendingMap.values AscendingMap.keys
  rw [List.map_map]
  refine List.map_congr_left fun p hp => ?_
  exact h p.1 p.2 (AscendingMap.get?_eq_some_iff.mpr hp)

namespace Dictionary

variable {d : Dictionary} {headerName : String} {aliases : PointerAliases} {config : Config}
  {r : Resolver} {codes : List EntryCode} {ranges : List RangeType} {fallbacks : List Block}
  {timers : Nat}

theorem holdsBlocks_documentsOf (hcodes : d.entryCodes.value r = .ok codes)
    (hfallbacks : d.fallbackBlocks.outcome = .ok fallbacks) :
    (d.documentsOf headerName aliases config ranges codes fallbacks timers).1.HoldsBlocks d r
      (Emission.ofCodes aliases codes) := by
  let source := (d.documentsOf headerName aliases config ranges codes fallbacks timers).1
  have hindex : ∀ x b, source.blocks.get? x = some b → b.index = x :=
    fun _ _ hb => index_of_get?_blocks hcodes hfallbacks aliases hb
  refine
    { text := ?_
      printsIn := source.printsIn_blocks
      ascending := ?_
      mem_indexes_iff := fun x => ?_
      index_of_get? := hindex
      of_entry := fun x e hstart he => ?_
      of_missing := fun x hx hmissing =>
        exists_fallback_of_not_contains hcodes hfallbacks aliases hx hmissing
      unlisted := fun x hx hmissing => ?_ }
  · obtain ⟨before, after, htext⟩ := source.exists_text_eq
    refine ⟨before, String.join (source.pointers.map PointerDefinition.text) ++ after,
      fun blocks => ?_⟩
    rw [← String.append_assoc]
    exact htext blocks source.pointers
  · show (source.blocks.values.map Block.index).Pairwise (· < ·)
    rw [map_index_values hindex]
    exact source.blocks.keys_ascending.imp UInt16.lt_iff_toNat_lt.mpr
  · show x ∈ source.blocks.values.map Block.index ↔ _
    rw [map_index_values hindex, AscendingMap.mem_keys_iff, Option.isSome_iff_exists]
    exact exists_get?_blocks_iff hcodes hfallbacks aliases
  · obtain ⟨c, hc, hcode, hcindex⟩ := exists_code_of_get? hcodes hstart he
    exact ⟨c, hcode, (get?_blocks_ofCodes_iff hcodes aliases).mpr ⟨c, hc, hcindex, rfl⟩,
      (get?_blocks_iff hcodes hfallbacks aliases).mpr (Or.inr ⟨c, hc, hcindex, rfl⟩)⟩
  · have hunlisted : x ∉ d.listedIndexes := by
      rw [mem_listedIndexes_iff, hmissing]
      simp
    obtain ⟨hrows, hcases⟩ := not_mem_navigation hunlisted d.node.name
      fun i => (((Emission.ofCodes aliases codes).withFallbacks fallbacks).callbacks.get? i).join
    exact ⟨hrows, hcases, get?_callbacks_ofCodes_of_not_contains hcodes aliases hmissing⟩

/-- **The object dictionary section.**  The fallbacks of a dictionary can always be made.  In a
generation that succeeds the section holds, in strictly ascending order, one block for each entry
from 0x1000 on, which is the block that this entry emits, and one for each entry that the stack
needs and the dictionary lacks. -/
theorem section_holds_blocks (d : Dictionary) (headerName : String) (aliases : PointerAliases)
    (config : Config) :
    (∃ fallbacks, d.fallbackBlocks.outcome = .ok fallbacks) ∧
    ∀ files, (d.generate headerName aliases config).outcome = .ok files →
      ∃ source header ranges r emission,
        (d.documents headerName aliases config).outcome = .ok (source, header) ∧
        files = ⟨source.text, header.text⟩ ∧
        (d.rangeTypes.run (Resolver.new d.node.defaultStringSize)).outcome = .ok (ranges, r) ∧
        d.emitted aliases = .ok emission ∧
        source.HoldsBlocks d r emission := by
  refine ⟨d.exists_fallbackBlocks, fun files h => ?_⟩
  obtain ⟨source, header, hdocuments, hfiles⟩ := generate_outcome_eq_ok_iff.mp h
  obtain ⟨ranges, codes, fallbacks, timers, hvalue, hfallbacks, -, hof⟩ :=
    documents_outcome_eq_ok_iff.mp hdocuments
  obtain ⟨r, hranges, hcodes⟩ := rangesAndCodes_value_eq_ok_iff.mp hvalue
  refine ⟨source, header, ranges, r, Emission.ofCodes aliases codes, hdocuments, hfiles.symm,
    hranges, ?_, ?_⟩
  · rw [emitted_of_rangeTypes hranges, hcodes]
    rfl
  · rw [show source = _ from congrArg Prod.fst hof.symm]
    exact holdsBlocks_documentsOf hcodes hfallbacks

/-- A node that sends its heartbeat and names its synchronisation, next to entries of its own. -/
def beacon : Dictionary :=
  { node := { name := "Beacon" }
    entries := .ofList
      [(0x1004, channel "Spare"), (0x1005, channel "SYNC COB ID"),
        (0x1017, .ofVariable "Producer Heartbeat Time"
          ⟨"Producer Heartbeat Time", 0x0006, .readWrite, false, true⟩ (.unsigned 500)),
        (0x2000, channel "Lamp")] }

theorem section_holds_blocks_beacon :
    ∃ files source header r emission,
      (beacon.generate "Beacon.h" .empty {}).outcome = .ok files ∧
      (beacon.documents "Beacon.h" .empty {}).outcome = .ok (source, header) ∧
      source.HoldsBlocks beacon r emission ∧
      (∃ c, (⟨beacon, 0x1005, channel "SYNC COB ID"⟩ : Site).code.value r = .ok c ∧
        source.blocks.get? 0x1005 = some c.block) ∧
      (∃ b, Fallback.block beacon.node 0x1006 "Communication / Cycle Period" = .ok b ∧
        source.blocks.get? 0x1006 = some b) ∧
      0x1004 ∈ source.blocks.values.map Block.index ∧
      0x1007 ∉ source.blocks.values.map Block.index := by
  obtain ⟨files, h⟩ := exists_eq_ok_of_isOk
    (by decide +kernel : (beacon.generate "Beacon.h" .empty {}).outcome.isOk = true)
  obtain ⟨source, header, ranges, r, emission, hdocuments, -, -, -, hholds⟩ :=
    (section_holds_blocks beacon "Beacon.h" .empty {}).2 files h
  obtain ⟨c, hc, -, hblock⟩ := hholds.of_entry 0x1005 (channel "SYNC COB ID") (by decide) rfl
  obtain ⟨name, b, hname, hb, hfallback⟩ := hholds.of_missing 0x1006 (by decide) (by decide)
  obtain rfl : "Communication / Cycle Period" = name := Option.some.inj hname
  refine ⟨files, source, header, r, emission, h, hdocuments, hholds, ⟨c, hc, hblock⟩,
    ⟨b, hb, hfallback⟩, ?_, ?_⟩
  · exact (hholds.mem_indexes_iff 0x1004).mpr (Or.inl ⟨by decide, by decide⟩)
  · rw [hholds.mem_indexes_iff 0x1007]
    decide

end Dictionary
end CanopenTables
