import CanopenTables.Proofs.TableRows

/-!
# Callback arrays

An entry of which some subindex reports changes has a callback array in its block, and the switch
hands this array out when it finds the entry.  The two are written by different stages: the array
with the entry, under one name for the mapped areas and another for the rest, and the assignment
with the navigation tables, from a map that holds the names by index.

* The block of an entry has **at most one** callback array and **one** table, and the array has a
  place for each row of the table (`Site.callbacks_of_code`, `Site.places_of_callbackArray`).
* The case of an index takes the name from the map of the emission, in which an index stands for
  **its own entry** only (`dispatch_of_mem_codes`).

Main statement: `callbacks_wired`.
-/

namespace CanopenTables

/-! ### Arrays and tables in blocks -/

/-- The callback array that a part of a block is, if it is one. -/
def BlockItem.callbackArray? : BlockItem → Option CallbackArray
  | callbacks name places => some ⟨name, places⟩
  | _ => none

/-- The rows of the subindex table that a part of a block is, if it is one. -/
def BlockItem.rows? : BlockItem → Option (List Row)
  | table _ rows => some rows
  | _ => none

namespace Block

/-- The callback arrays of a block. -/
def callbackArrays (b : Block) : List CallbackArray := b.items.filterMap BlockItem.callbackArray?

/-- The subindex tables of a block. -/
def tables (b : Block) : List (List Row) := b.items.filterMap BlockItem.rows?

variable {b : Block}

theorem mem_items_of_callbackArrays {a : CallbackArray} (h : b.callbackArrays = [a]) :
    .callbacks a.name a.places ∈ b.items := by
  have hmem : a ∈ b.callbackArrays := by simp [h]
  obtain ⟨item, hitem, heq⟩ := List.mem_filterMap.mp hmem
  cases item with
  | callbacks name places =>
    cases heq
    exact hitem
  | _ => cases heq

theorem exists_mem_items_of_tables {rows : List Row} (h : b.tables = [rows]) :
    ∃ name, .table name rows ∈ b.items := by
  have hmem : rows ∈ b.tables := by simp [h]
  obtain ⟨item, hitem, heq⟩ := List.mem_filterMap.mp hmem
  cases item with
  | table name rows' =>
    cases heq
    exact ⟨name, hitem⟩
  | _ => cases heq

end Block

theorem SourceDocument.printsAt_of_tables {source : SourceDocument} {x : Index} {b : Block}
    {rows : List Row} (hblock : source.blocks.get? x = some b) (h : b.tables = [rows]) :
    ∃ name, source.PrintsAt x (BlockItem.table name rows).spelled := by
  obtain ⟨name, hmem⟩ := Block.exists_mem_items_of_tables h
  exact ⟨name, printsAt_of_mem_items hblock hmem⟩

namespace EntryCode

variable (c : EntryCode)

/-- What is picked from a block without its variables comes from the callback array and the
table. -/
theorem filterMap_items_block {β : Type} (f : BlockItem → Option β)
    (hhighest : ∀ storage name value, f (.highest storage name value) = none)
    (hlocal : ∀ v : LocalVariable, f v.item = none) :
    c.block.items.filterMap f =
      (c.callbacks.map fun a => BlockItem.callbacks a.name a.places).toList.filterMap f ++
        [BlockItem.table c.table c.rows].filterMap f := by
  have hfirst : (c.shape.highest.map fun h =>
      BlockItem.highest h.storage h.name h.value).toList.filterMap f = [] := by
    apply List.filterMap_eq_nil_iff.mpr
    intro item hitem
    obtain ⟨h, -, rfl⟩ := Option.map_eq_some_iff.mp (Option.mem_toList.mp hitem)
    exact hhighest h.storage h.name h.value
  have hlocals : (c.shape.locals.map LocalVariable.item).filterMap f = [] := by
    apply List.filterMap_eq_nil_iff.mpr
    intro item hitem
    obtain ⟨v, -, rfl⟩ := List.mem_map.mp hitem
    exact hlocal v
  unfold block
  simp only [List.filterMap_append, hfirst, hlocals, List.nil_append]

theorem callbackArrays_block : c.block.callbackArrays = c.callbacks.toList := by
  unfold Block.callbackArrays
  rw [filterMap_items_block]
  · cases c.callbacks with
    | none => rfl
    | some a => rfl
  · intro storage name value
    rfl
  · intro v
    cases v with
    | single v => rfl
    | elements array => rfl

theorem tables_block : c.block.tables = [c.rows] := by
  unfold Block.tables
  rw [filterMap_items_block]
  · cases c.callbacks with
    | none => rfl
    | some a => rfl
  · intro storage name value
    rfl
  · intro v
    cases v with
    | single v => rfl
    | elements array => rfl

end EntryCode

namespace Site

variable {s : Site} {r : Resolver} {c : EntryCode}

theorem callbacks_of_code (hcode : s.code.value r = .ok c) :
    c.callbacks = s.callbackArray c.rows.length := by
  have hlength := length_rows_of_code hcode
  obtain ⟨values, hvalues, shape, -, rows, -, rfl⟩ := code_value_eq_ok_iff.mp hcode
  obtain ⟨rfl, -⟩ := values_eq_ok_iff.mp hvalues
  rw [hlength]

theorem isSome_callbackArray (s : Site) (places : Nat) :
    (s.callbackArray places).isSome = true ↔ ∃ sub ∈ s.entry.subEntries, sub.callback = true := by
  rw [← List.any_eq_true]
  show _ ↔ s.entry.hasCallbacks = true
  unfold callbackArray
  cases s.entry.hasCallbacks with
  | false => simp
  | true => simp

theorem places_of_callbackArray {places : Nat} {a : CallbackArray}
    (h : s.callbackArray places = some a) : a.places = places := by
  unfold callbackArray at h
  split at h
  · cases h
    rfl
  · cases h

end Site

/-! ### Cases of the switch -/

/-- The switch and the section agree on the callbacks of an entry: `c` is its case and `b` its
block. -/
structure SourceDocument.WiresCallbacks (source : SourceDocument) (x : Index) (e : Entry)
    (c : DispatchCase) (b : Block) : Prop where
  /-- The index has one case, and its line is the only one of the routine that is labelled by the
  index. -/
  dispatch : source.navigation.cases.filter (·.index == x) = [c]
  line : (source.navigation.cases.map DispatchCase.spelled).filter (DispatchCase.isLabelled x) =
    [c.spelled]
  printsIn : PrintsIn (source.navigation.spelledSwitch source.node.name) source.text
  block : source.blocks.get? x = some b
  /-- The case assigns callbacks when some subindex reports changes. -/
  assigned_iff : c.callbacks.isSome = true ↔ ∃ sub ∈ e.subEntries, sub.callback = true
  /-- It assigns the only array of the block, which has a place for each row of the table. -/
  array : ∀ name, c.callbacks = some name →
    ∃ a rows, b.callbackArrays = [a] ∧ b.tables = [rows] ∧ Symbol.callbacks a.name = name ∧
      a.places = rows.length ∧
      source.PrintsAt x (BlockItem.callbacks a.name a.places).spelled ∧
      ∃ table, source.PrintsAt x (BlockItem.table table rows).spelled
  no_array : c.callbacks = none → b.callbackArrays = []

namespace Dictionary

variable {d : Dictionary} {headerName : String} {aliases : PointerAliases} {config : Config}

/-- The case of an entry holds the name of the entry's own callback array. -/
theorem dispatch_of_mem_codes {r : Resolver} {codes : List EntryCode} (headerName : String)
    (aliases : PointerAliases) (config : Config) (ranges : List RangeType) (fallbacks : List Block)
    (timers : Nat) (hcodes : d.entryCodes.value r = .ok codes) {c : EntryCode} (hc : c ∈ codes) :
    ∃ position,
      (d.documentsOf headerName aliases config ranges codes fallbacks
        timers).1.navigation.cases.filter (·.index == c.index) =
          [⟨c.index, position, c.callbacks.map fun a => Symbol.callbacks a.name⟩] := by
  let emission := Emission.ofCodes aliases codes
  have hname : emission.callbacks.get? c.index =
      some (c.callbacks.map fun a => Symbol.callbacks a.name) := by
    show (Emission.ofCodes aliases codes).callbacks.get? c.index = _
    rw [Emission.ofCodes_eq,
      Emission.get?_ofList_codes _ (nodup_map_index_of_entryCodes hcodes)]
    exact ⟨c, hc, rfl, rfl⟩
  have hlisted : c.index ∈ d.listedIndexes := by
    rw [← map_index_of_entryCodes hcodes]
    exact List.mem_map_of_mem hc
  obtain ⟨before, after, hsplit⟩ := List.append_of_mem hlisted
  have hascending := d.listedIndexes_ascending
  refine ⟨before.length, ?_⟩
  show (Navigation.of d.node.name d.listedIndexes
    fun i => (emission.callbacks.get? i).join).cases.filter _ = _
  rw [hsplit] at hascending ⊢
  rw [Navigation.filter_cases_of_split hascending, hname]
  rfl

/-- The case of an entry and the block of its code agree. -/
theorem wiresCallbacks_of_code {r : Resolver} {codes : List EntryCode} (headerName : String)
    (aliases : PointerAliases) (config : Config) (ranges : List RangeType) {fallbacks : List Block}
    (timers : Nat) (hcodes : d.entryCodes.value r = .ok codes)
    (hfallbacks : d.fallbackBlocks.outcome = .ok fallbacks) {x : Index} {e : Entry}
    {c : EntryCode} (hc : c ∈ codes) (hcode : (Site.mk d x e).code.value r = .ok c) :
    ∃ dispatch, (d.documentsOf headerName aliases config ranges codes fallbacks
      timers).1.WiresCallbacks x e dispatch c.block := by
  have hindex : c.index = x := Site.index_of_code hcode
  have harray := Site.callbacks_of_code hcode
  obtain ⟨position, hdispatch⟩ :=
    dispatch_of_mem_codes headerName aliases config ranges fallbacks timers hcodes hc
  rw [hindex] at hdispatch
  let source := (d.documentsOf headerName aliases config ranges codes fallbacks timers).1
  have hblock : source.blocks.get? x = some c.block :=
    (get?_blocks_iff hcodes hfallbacks aliases).mpr (Or.inr ⟨c, hc, hindex, rfl⟩)
  refine ⟨⟨x, position, c.callbacks.map fun a => Symbol.callbacks a.name⟩, ?_⟩
  refine
    { dispatch := hdispatch
      line := ?_
      printsIn := ((PrintsIn.refl _).append_left _).trans source.printsIn_navigation
      block := hblock
      assigned_iff := ?_
      array := ?_
      no_array := ?_ }
  · rw [DispatchCase.filter_spelled, hdispatch, List.map_singleton]
  · rw [Option.isSome_map, harray]
    exact Site.isSome_callbackArray _ _
  · intro name hname
    obtain ⟨a, ha, rfl⟩ := Option.map_eq_some_iff.mp hname
    have hsingle : c.block.callbackArrays = [a] := by
      rw [c.callbackArrays_block, ha]
      rfl
    rw [harray] at ha
    exact ⟨a, c.rows, hsingle, c.tables_block, rfl, Site.places_of_callbackArray ha,
      SourceDocument.printsAt_of_mem_items hblock (Block.mem_items_of_callbackArrays hsingle),
      SourceDocument.printsAt_of_tables hblock c.tables_block⟩
  · intro hnone
    rw [c.callbackArrays_block, Option.map_eq_none_iff.mp hnone]
    rfl

/-- **Callbacks.**  In a generation that succeeds, the case of an entry assigns callbacks exactly
when some subindex of the entry reports changes.  What it assigns is the callback array of the
entry's own block, which has as many places as the subindex table has rows; the block of an entry
that reports nothing has no callback array.  Case, array and table show this in their lines. -/
theorem callbacks_wired {files : DocumentPair}
    (h : (d.generate headerName aliases config).outcome = .ok files) :
    ∃ source header,
      (d.documents headerName aliases config).outcome = .ok (source, header) ∧
      files = ⟨source.text, header.text⟩ ∧
      ∀ x e, Profile.commAreaStart ≤ x → d.get? x = some e →
        ∃ c b, source.WiresCallbacks x e c b := by
  obtain ⟨source, header, ranges, r, codes, fallbacks, timers, hdocuments, hfiles, -, hcodes,
    hfallbacks, rfl⟩ := exists_stages_of_generate h
  refine ⟨_, header, hdocuments, hfiles, ?_⟩
  intro x e hstart hget
  have hsite : (⟨d, x, e⟩ : Site) ∈ d.sites := mem_sites_iff.mpr ⟨rfl, hstart, hget⟩
  obtain ⟨c, hc, hcode⟩ := exists_code_of_mem_sites hcodes hsite
  obtain ⟨dispatch, hwires⟩ := wiresCallbacks_of_code headerName aliases config ranges timers
    hcodes hfallbacks hc hcode
  exact ⟨dispatch, c.block, hwires⟩

theorem callbacks_wired_drive :
    ∃ source header b a,
      (drive.documents "Drive.h" .empty {}).outcome = .ok (source, header) ∧
      source.navigation.cases.filter (·.index == 0x2001) =
        [⟨0x2001, 2, some "_1st_speeds_callbacks"⟩] ∧
      source.blocks.get? 0x2001 = some b ∧ b.callbackArrays = [a] ∧
      Symbol.callbacks a.name = "_1st_speeds_callbacks" ∧
      ∃ rows, b.tables = [rows] ∧ a.places = rows.length := by
  obtain ⟨files, source, header, h, hdocuments, hdrive⟩ := exists_documents_drive
  obtain ⟨source', header', hdocuments', -, hwired⟩ := callbacks_wired h
  cases hdocuments.symm.trans hdocuments'
  obtain ⟨e, he⟩ := Option.isSome_iff_exists.mp (by decide : (drive.get? 0x2001).isSome = true)
  obtain ⟨c, b, hspeeds⟩ := hwired 0x2001 e (by decide) he
  have hsingle : source.navigation.cases.filter (·.index == 0x2001) =
      [⟨0x2001, 2, some "_1st_speeds_callbacks"⟩] := by
    rw [hdrive.cases]
    rfl
  obtain rfl : c = ⟨0x2001, 2, some "_1st_speeds_callbacks"⟩ :=
    List.singleton_inj.mp (hspeeds.dispatch.symm.trans hsingle)
  obtain ⟨a, rows, harray, htable, hname, hplaces, -⟩ := hspeeds.array _ rfl
  exact ⟨source, header, b, a, hdocuments, hsingle, hspeeds.block, harray, hname, rows, htable,
    hplaces⟩

end Dictionary
end CanopenTables
