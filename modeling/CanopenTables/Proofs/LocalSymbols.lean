import CanopenTables.Proofs.CallbackArrays
import CanopenTables.Proofs.DictionarySection
import CanopenTables.Proofs.NumberTexts
import CanopenTables.Proofs.ShapeTargets

/-!
# Symbols of blocks

A block defines symbols that begin with the name of the node and hold its index, and some of them
end in text from the dictionary.  The name of the node is free text as well, and only the callback
array of an entry has it made into an identifier.

* **As it stands.**  Behind the same name, the three stems differ in their second character, and
  behind equal stems there are four digits; so the index can be read off whatever follows
  (`index_eq_of_stemmed`).
* **As an identifier.**  The end of a name survives in its identifier, so callback arrays tell their
  indexes too (`index_eq_of_identifier`).  An identifier that equals a symbol with the node's name
  as it stands has left that name unchanged (`index_eq_of_callbacks`).

Main statement: `local_symbols_disjoint`.
-/

namespace CanopenTables

namespace Symbol

/-! ### Digits -/

theorem isWordChar_of_mem_digits {i : Index} :
    ∀ c ∈ (digits i).toList, Text.isWordChar c = true :=
  fun _ => Numeral.isWordChar_of_mem_upperHex

/-! ### Stems -/

/-- What stands between the name of the node and the index. -/
inductive Stem where
  | object
  | highestSubIndex
  | table
  deriving DecidableEq, Repr

namespace Stem

def text : Stem → String
  | object => "_obj"
  | highestSubIndex => "_highestSubIndex_obj"
  | table => "_Index"

def initial : Stem → Char
  | object => 'o'
  | highestSubIndex => 'h'
  | table => 'I'

theorem getElem?_text_append (stem : Stem) (rest : List Char) :
    (stem.text.toList ++ rest)[1]? = some stem.initial := by
  cases stem with
  | object => rfl
  | highestSubIndex => rfl
  | table => rfl

theorem initial_injective {stem stem' : Stem} (h : stem.initial = stem'.initial) :
    stem = stem' := by
  cases stem <;> cases stem' <;> first | rfl | exact absurd h (by decide)

theorem head?_text (stem : Stem) : stem.text.toList.head? = some '_' := by
  cases stem with
  | object => rfl
  | highestSubIndex => rfl
  | table => rfl

end Stem

/-- A name, a stem, an index and what follows. -/
def stemmed (name : String) (stem : Stem) (i : Index) (tail : String) : String :=
  name ++ (stem.text ++ (digits i ++ tail))

/-- Whatever follows, a symbol tells its index. -/
theorem index_eq_of_stemmed {name : String} {stem stem' : Stem} {i j : Index} {tail tail' : String}
    (h : stemmed name stem i tail = stemmed name stem' j tail') : i = j := by
  have hlist := congrArg String.toList h
  unfold stemmed at hlist
  simp only [String.toList_append, List.append_cancel_left_eq] at hlist
  have hstem : stem = stem' := by
    have hinitial := congrArg (fun cs => cs[1]?) hlist
    simp only [Stem.getElem?_text_append] at hinitial
    exact Stem.initial_injective (Option.some.inj hinitial)
  subst hstem
  have hdigits := List.append_cancel_left hlist
  have hlength : (digits i).toList.length = (digits j).toList.length := by
    rw [length_digits, length_digits]
  exact digits_injective (String.toList_inj.mp (List.append_inj_left hdigits hlength))

/-! ### Callback arrays -/

theorem index_eq_of_identifier {node : String} {i j : Index}
    (h : Text.identifier (table node i) = Text.identifier (table node j)) : i = j := by
  have hends (i : Index) :
      ∃ front, (Text.identifier (table node i)).toList = front ++ (digits i).toList := by
    refine Text.exists_identifier_append (node ++ "_Index") (fun hempty => ?_)
      isWordChar_of_mem_digits
    have hlength := length_digits i
    rw [hempty] at hlength
    cases hlength
  obtain ⟨front, hi⟩ := hends i
  obtain ⟨front', hj⟩ := hends j
  rw [h, hj] at hi
  have hlength : (digits j).toList.length = (digits i).toList.length := by
    rw [length_digits, length_digits]
  exact (digits_injective (String.toList_inj.mp (List.append_inj_right' hi hlength))).symm

theorem isWordChar_of_mem_callbacks {name : String} :
    ∀ c ∈ (callbacks (Text.identifier name)).toList, Text.isWordChar c = true := by
  unfold callbacks
  rw [String.toList_append]
  exact List.forall_mem_append.mpr
    ⟨Text.isWordChar_of_mem_identifier name, List.all_eq_true.mp (by decide)⟩

/-- A name of word characters goes into the identifier as it stands, up to a leading digit. -/
theorem callbacks_identifier_eq {node : String} (h : ∀ c ∈ node.toList, Text.isWordChar c = true)
    (i : Index) : callbacks (Text.identifier (table node i)) =
      stemmed (Text.guardDigit node) .table i "_callbacks" := by
  have htable : ∀ c ∈ (table node i).toList, Text.isWordChar c = true := by
    unfold table
    rw [String.toList_append, String.toList_append]
    exact List.forall_mem_append.mpr
      ⟨List.forall_mem_append.mpr ⟨h, List.all_eq_true.mp (by decide)⟩, isWordChar_of_mem_digits⟩
  unfold callbacks Text.identifier
  rw [Text.joinedWords_eq_self htable]
  unfold table stemmed
  rw [String.append_assoc, Text.guardDigit_append_underscore node rfl]
  simp only [String.append_assoc]
  rfl

/-- Identifiers do not begin with a digit, so an equal symbol has a name that needs no guard. -/
theorem index_eq_of_callbacks {node : String} {stem : Stem} {i j : Index} {tail : String}
    (h : callbacks (Text.identifier (table node i)) = stemmed node stem j tail) : i = j := by
  have hnode : ∀ c ∈ node.toList, Text.isWordChar c = true := by
    intro c hc
    have hmem : c ∈ (callbacks (Text.identifier (table node i))).toList := by
      rw [h, stemmed, String.toList_append]
      exact List.mem_append_left _ hc
    exact isWordChar_of_mem_callbacks c hmem
  rw [callbacks_identifier_eq hnode] at h
  have hguard : Text.guardDigit node = node := by
    have hguarded := congrArg Text.guardDigit h
    unfold stemmed at h hguarded
    rw [Text.guardDigit_append_underscore _ Stem.table.head?_text, Text.guardDigit_guardDigit,
      Text.guardDigit_append_underscore _ stem.head?_text, h, String.append_left_inj] at hguarded
    exact hguarded.symm
  rw [hguard] at h
  exact index_eq_of_stemmed h

end Symbol

/-! ### The symbols of an index -/

/-- The symbols that the block of an index may define, for a name of the node. -/
inductive IsLocalSymbol (node : String) (i : Index) : String → Prop
  | object : IsLocalSymbol node i (Symbol.object node i)
  | member (words : String) : IsLocalSymbol node i (Symbol.member node i words)
  | highestSubIndex : IsLocalSymbol node i (Symbol.highestSubIndex node i)
  | table : IsLocalSymbol node i (Symbol.table node i)
  /-- The callback array of an entry. -/
  | callbacks : IsLocalSymbol node i (Symbol.callbacks (Text.identifier (Symbol.table node i)))
  /-- The callback array of a fallback. -/
  | fallbackCallbacks : IsLocalSymbol node i (Symbol.callbacks (Symbol.table node i))

namespace IsLocalSymbol

variable {node n : String} {i j : Index}

/-- Only the callback array of an entry does not have the name of the node as it stands. -/
theorem eq_stemmed_or_eq_callbacks (h : IsLocalSymbol node i n) :
    (∃ stem tail, n = Symbol.stemmed node stem i tail) ∨
      n = Symbol.callbacks (Text.identifier (Symbol.table node i)) := by
  cases h with
  | object =>
    refine Or.inl ⟨.object, "", ?_⟩
    simp [Symbol.object, Symbol.stemmed, Symbol.Stem.text, String.append_assoc]
  | member words =>
    refine Or.inl ⟨.object, "_" ++ words, ?_⟩
    simp [Symbol.member, Symbol.object, Symbol.stemmed, Symbol.Stem.text, String.append_assoc]
  | highestSubIndex =>
    refine Or.inl ⟨.highestSubIndex, "", ?_⟩
    simp [Symbol.highestSubIndex, Symbol.stemmed, Symbol.Stem.text, String.append_assoc]
  | table =>
    refine Or.inl ⟨.table, "", ?_⟩
    simp [Symbol.table, Symbol.stemmed, Symbol.Stem.text, String.append_assoc]
  | callbacks => exact Or.inr rfl
  | fallbackCallbacks =>
    refine Or.inl ⟨.table, "_callbacks", ?_⟩
    simp [Symbol.callbacks, Symbol.table, Symbol.stemmed, Symbol.Stem.text, String.append_assoc]

/-- A symbol belongs to one index only. -/
theorem index_eq (h : IsLocalSymbol node i n) (h' : IsLocalSymbol node j n) : i = j := by
  rcases h.eq_stemmed_or_eq_callbacks with ⟨stem, tail, rfl⟩ | rfl
  · rcases h'.eq_stemmed_or_eq_callbacks with ⟨stem', tail', heq⟩ | heq
    · exact Symbol.index_eq_of_stemmed heq
    · exact (Symbol.index_eq_of_callbacks heq.symm).symm
  · rcases h'.eq_stemmed_or_eq_callbacks with ⟨stem', tail', heq⟩ | heq
    · exact Symbol.index_eq_of_callbacks heq
    · exact Symbol.index_eq_of_identifier ((String.append_left_inj _).mp heq)

end IsLocalSymbol

/-! ### The symbols of a block -/

/-- The symbols that a block defines under the name of the node.  The callback array of an entry
whose variables stand at file scope is not among them: it has its name from the entry. -/
def Block.localSymbols (b : Block) : List String :=
  (b.items.filter fun item => !(Profile.isMapped b.index && item.callbackArray?.isSome)).map
    BlockItem.name

/-- The block of an entry that is not mapped defines no other symbols. -/
theorem Block.localSymbols_eq_names {b : Block} (h : Profile.isMapped b.index = false) :
    b.localSymbols = b.names := by
  unfold localSymbols names
  rw [List.filter_eq_self.mpr]
  intro item _
  rw [h]
  rfl

theorem SourceDocument.printsAt_of_mem_localSymbols {source : SourceDocument} {x : Index}
    {b : Block} (hb : source.blocks.get? x = some b) {n : String} (hn : n ∈ b.localSymbols) :
    source.PrintsAt x n := by
  obtain ⟨item, hitem, rfl⟩ := List.mem_map.mp hn
  obtain ⟨b', hb', hprints, hblock⟩ := printsAt_of_mem_items hb (List.mem_filter.mp hitem).1
  exact ⟨b', hb', item.printsIn_name.trans hprints, hblock⟩

namespace Site

variable {s : Site} {r : Resolver}

theorem isLocalSymbol_of_laidOut {c : ShapeCode} (h : s.LaidOut r c) {v : LocalVariable}
    (hv : v ∈ c.locals) : IsLocalSymbol s.node s.index v.item.name := by
  cases h with
  | scalar =>
    unfold scalarLayout at hv
    split at hv
    · cases hv
    · rw [List.mem_singleton.mp hv]
      exact .object
  | record =>
    change v ∈ (s.recordLayout _ _ _ _).locals at hv
    unfold recordLayout at hv
    split at hv
    · cases hv
    · rw [List.mem_singleton.mp hv]
      exact .object
  | @array _ _ _ _ members _ _ _ _ _ hmembers =>
    change v ∈ (members.foldl ShapeCode.append {}).locals at hv
    rw [ShapeCode.foldl_append _ (highest_eq_none_of_members hmembers)] at hv
    obtain ⟨member, hmember, hv⟩ := List.mem_flatMap.mp hv
    obtain ⟨k, sub, type, literal, -, rfl⟩ := exists_memberLayout_of_mem hmembers hmember
    unfold memberLayout at hv
    dsimp only at hv
    split at hv
    · cases hv
    · rw [List.mem_singleton.mp hv]
      exact .member _

theorem name_of_callbackArray {places : Nat} {a : CallbackArray}
    (h : s.callbackArray places = some a) (hmapped : s.isMapped = false) :
    a.name = Text.identifier (Symbol.table s.node s.index) := by
  unfold callbackArray at h
  split at h
  · simp only [hmapped, Bool.false_eq_true, if_false, Option.some.injEq] at h
    rw [← h]
  · cases h

theorem isLocalSymbol_of_code {c : EntryCode} (hcode : s.code.value r = .ok c) :
    ∀ n ∈ c.block.localSymbols, IsLocalSymbol s.node s.index n := by
  intro n hn
  obtain ⟨item, hitem, rfl⟩ := List.mem_map.mp hn
  obtain ⟨hmem, hkeep⟩ := List.mem_filter.mp hitem
  have hlaid := laidOut_of_code hcode
  unfold EntryCode.block at hmem
  simp only [List.mem_append, List.mem_singleton] at hmem
  rcases hmem with ((hhighest | hlocal) | hcallbacks) | rfl
  · obtain ⟨h, hh, rfl⟩ := Option.map_eq_some_iff.mp (Option.mem_toList.mp hhighest)
    rcases highest_of_laidOut hlaid with ⟨-, hnone⟩ | ⟨-, storage, n, -, hsome⟩
    · rw [hnone] at hh
      cases hh
    · rw [hsome] at hh
      cases hh
      exact .highestSubIndex
  · obtain ⟨v, hv, rfl⟩ := List.mem_map.mp hlocal
    exact isLocalSymbol_of_laidOut hlaid hv
  · obtain ⟨a, ha, rfl⟩ := Option.map_eq_some_iff.mp (Option.mem_toList.mp hcallbacks)
    have hmapped : s.isMapped = false := by
      have hindex : c.block.index = s.index := index_of_code hcode
      rw [hindex] at hkeep
      simpa [BlockItem.callbackArray?, isMapped] using hkeep
    rw [callbacks_of_code hcode] at ha
    show IsLocalSymbol s.node s.index (Symbol.callbacks a.name)
    rw [name_of_callbackArray ha hmapped]
    exact .callbacks
  · obtain ⟨values, -, shape, -, rows, -, rfl⟩ := code_value_eq_ok_iff.mp hcode
    exact .table

end Site

namespace Fallback

variable {node : Node} {i : Index}

theorem isLocalSymbol_of_items {items : List BlockItem} (h : Fallback.items node i = .ok items) :
    ∀ item ∈ items, IsLocalSymbol node.name i item.name := by
  have hword (storage : Storage) (value comment : String) :
      ∀ item ∈ [word node.name i storage value comment],
        IsLocalSymbol node.name i item.name := by
    rw [List.forall_mem_singleton]
    exact .object
  unfold Fallback.items at h
  dsimp only at h
  split_ifs at h with herrors hsync hemergency hconsumer hproducer hfactor
  · subst herrors
    cases h
    simp only [errorFieldItems, List.forall_mem_cons]
    exact ⟨.highestSubIndex, .object, .fallbackCallbacks, .table, List.forall_mem_nil _⟩
  · cases h
    exact hword _ _ _
  · cases h
    exact hword _ _ _
  · cases h
    simp only [List.forall_mem_cons]
    exact ⟨.highestSubIndex, .object, List.forall_mem_nil _⟩
  · cases h
    exact hword _ _ _
  · cases h
    exact hword _ _ _

theorem isLocalSymbol_of_block {name : String} {b : Block}
    (h : Fallback.block node i name = .ok b) :
    ∀ n ∈ b.localSymbols, IsLocalSymbol node.name i n := by
  obtain ⟨items, hitems, rfl⟩ := block_eq_ok_iff.mp h
  intro n hn
  obtain ⟨item, hitem, rfl⟩ := List.mem_map.mp hn
  exact isLocalSymbol_of_items hitems item (List.mem_filter.mp hitem).1

end Fallback

namespace Dictionary

variable {d : Dictionary} {headerName : String} {aliases : PointerAliases} {config : Config}

theorem isLocalSymbol_of_documents {source : SourceDocument} {header : HeaderDocument}
    (h : (d.documents headerName aliases config).outcome = .ok (source, header)) {x : Index}
    {b : Block} (hb : source.blocks.get? x = some b) :
    b.index = x ∧ ∀ n ∈ b.localSymbols, IsLocalSymbol d.node.name x n := by
  obtain ⟨ranges, codes, fallbacks, timers, hvalue, hfallbacks, -, hof⟩ :=
    documents_outcome_eq_ok_iff.mp h
  obtain ⟨r, -, hcodes⟩ := rangesAndCodes_value_eq_ok_iff.mp hvalue
  rw [show source = _ from congrArg Prod.fst hof.symm] at hb
  rcases (get?_blocks_iff hcodes hfallbacks aliases).mp hb with ⟨hmem, rfl⟩ | ⟨c, hc, rfl, rfl⟩
  · obtain ⟨i, -, hblock⟩ :=
      exists_mem_left_of_forall₂ (fallbackBlocks_outcome_eq_ok_iff.mp hfallbacks) hmem
    refine ⟨rfl, ?_⟩
    rw [Fallback.index_of_block hblock]
    exact Fallback.isLocalSymbol_of_block hblock
  · obtain ⟨s, hs, hcode⟩ := exists_site_of_mem_codes hcodes hc
    obtain ⟨rfl, -, -⟩ := mem_sites_iff.mp hs
    refine ⟨rfl, ?_⟩
    rw [Site.index_of_code hcode]
    exact Site.isLocalSymbol_of_code hcode

/-- **Local symbols.**  In a generation that succeeds, the symbols of each block have its index, and
so no symbol is defined by the blocks of two indexes, whatever the node and the subindexes are
called.  Only callback arrays of mapped entries are left aside, which are named after their
entries. -/
theorem local_symbols_disjoint {files : DocumentPair}
    (h : (d.generate headerName aliases config).outcome = .ok files) :
    ∃ source header, (d.documents headerName aliases config).outcome = .ok (source, header) ∧
      files = ⟨source.text, header.text⟩ ∧
      (∀ x b, source.blocks.get? x = some b →
        (∀ n ∈ b.localSymbols, IsLocalSymbol d.node.name x n ∧ source.PrintsAt x n) ∧
        (Profile.isMapped x = false → b.localSymbols = b.names)) ∧
      ∀ x y b b', x ≠ y → source.blocks.get? x = some b → source.blocks.get? y = some b' →
        b.localSymbols.Disjoint b'.localSymbols := by
  obtain ⟨source, header, hdocuments, hfiles⟩ := generate_outcome_eq_ok_iff.mp h
  refine ⟨source, header, hdocuments, hfiles.symm, fun x b hb => ?_, ?_⟩
  · obtain ⟨rfl, hsymbols⟩ := isLocalSymbol_of_documents hdocuments hb
    exact ⟨fun n hn => ⟨hsymbols n hn, SourceDocument.printsAt_of_mem_localSymbols hb hn⟩,
      Block.localSymbols_eq_names⟩
  · intro x y b b' hne hb hb' n hn hn'
    have hx := (isLocalSymbol_of_documents hdocuments hb).2 n hn
    have hy := (isLocalSymbol_of_documents hdocuments hb').2 n hn'
    exact hne (hx.index_eq hy)

/-- A beacon whose name is no identifier. -/
def firstBeacon : Dictionary := { beacon with node := { name := "1. Beacon" } }

theorem local_symbols_disjoint_beacon :
    ∃ files source header b b',
      (firstBeacon.generate "Beacon.h" .empty {}).outcome = .ok files ∧
      (firstBeacon.documents "Beacon.h" .empty {}).outcome = .ok (source, header) ∧
      source.blocks.get? 0x1003 = some b ∧ source.blocks.get? 0x1017 = some b' ∧
      b.localSymbols = ["1. Beacon_highestSubIndex_obj1003", "1. Beacon_obj1003",
        "1. Beacon_Index1003_callbacks", "1. Beacon_Index1003"] ∧
      b'.localSymbols = ["1. Beacon_obj1017", "_1_Beacon_Index1017_callbacks",
        "1. Beacon_Index1017"] ∧
      b.localSymbols.Disjoint b'.localSymbols := by
  obtain ⟨files, h⟩ := exists_eq_ok_of_isOk
    (by decide +kernel : (firstBeacon.generate "Beacon.h" .empty {}).outcome.isOk = true)
  obtain ⟨source, header, hdocuments, -, -, hdisjoint⟩ := local_symbols_disjoint h
  have hseen : (firstBeacon.documents "Beacon.h" .empty {}).outcome.toOption.map
      (fun p => ((p.1.blocks.get? 0x1003).map Block.localSymbols,
        (p.1.blocks.get? 0x1017).map Block.localSymbols)) =
      some (some ["1. Beacon_highestSubIndex_obj1003", "1. Beacon_obj1003",
          "1. Beacon_Index1003_callbacks", "1. Beacon_Index1003"],
        some ["1. Beacon_obj1017", "_1_Beacon_Index1017_callbacks", "1. Beacon_Index1017"]) := by
    decide +kernel
  rw [hdocuments] at hseen
  obtain ⟨hfallback, hentry⟩ := Prod.mk.inj (Option.some.inj hseen)
  obtain ⟨b, hb, hsymbols⟩ := Option.map_eq_some_iff.mp hfallback
  obtain ⟨b', hb', hsymbols'⟩ := Option.map_eq_some_iff.mp hentry
  exact ⟨files, source, header, b, b', h, hdocuments, hb, hb', hsymbols, hsymbols',
    hdisjoint 0x1003 0x1017 b b' (by decide) hb hb'⟩

end Dictionary
end CanopenTables
