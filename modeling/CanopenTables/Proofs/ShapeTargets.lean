import CanopenTables.Proofs.ValueLines

/-!
# Rows and the shape of their entry

The shape of an entry is decided twice.  What it defines goes by its values and the flag of
identical subindexes; what its rows point at goes by the flags alone.  An entry can hold any flags,
so the two may differ.

* **From subindex 1 on they agree.**  Both ask for identical subindexes, and the name of a member
  ends in a word character, so it cannot be taken for an element (`isSubscripted_iff`).
* **At subindex 0 they may differ.**  The row asks whether the entry is flagged to have several
  subindexes, the definitions whether it holds a sequence (`namesHighest_iff`,
  `holdsHighest_iff`).

Main statement: `rowsFit_iff`, which says when rows and definitions agree.
-/

namespace CanopenTables

/-! ### Names apart -/

namespace Text

/-- A text that ends in a word character. -/
def EndsInWordChar (s : String) : Prop :=
  ∃ c, s.toList.getLast? = some c ∧ isWordChar c = true

theorem endsInWordChar_of_forall {s : String} (hne : s ≠ "")
    (h : ∀ c ∈ s.toList, isWordChar c = true) : EndsInWordChar s := by
  have hlist : s.toList ≠ [] := fun hnil => hne (String.toList_eq_nil_iff.mp hnil)
  exact ⟨_, List.getLast?_eq_some_getLast hlist, h _ (List.getLast_mem hlist)⟩

theorem endsInWordChar_append (a : String) {b : String} (h : EndsInWordChar b) :
    EndsInWordChar (a ++ b) := by
  obtain ⟨c, hlast, hword⟩ := h
  refine ⟨c, ?_, hword⟩
  rw [String.toList_append, List.getLast?_append, hlast]
  rfl

theorem guardDigit_append_underscore (base : String) {word : String}
    (h : word.toList.head? = some '_') (rest : String) :
    guardDigit (base ++ (word ++ rest)) = guardDigit base ++ (word ++ rest) := by
  apply guardDigit_append
  unfold beginsWithDigit
  rw [String.toList_append, List.head?_append, h]
  rfl

end Text

namespace Symbol

theorem element_ne_of_endsInWordChar {s : String} (h : Text.EndsInWordChar s) (array : String)
    (position : Nat) : s ≠ element array position := by
  rintro rfl
  obtain ⟨c, hlast, hword⟩ := h
  have hbracket : (element array position).toList.getLast? = some ']' := by
    unfold element
    rw [String.toList_append, List.getLast?_append]
    rfl
  rw [hbracket] at hlast
  cases hlast
  exact absurd hword (by decide)

/-- The two names of an entry differ in length, with a guard or without. -/
theorem guardDigit_object_ne_highestSubIndex (node : String) (i : Index) :
    Text.guardDigit (object node i) ≠ Text.guardDigit (highestSubIndex node i) := by
  have hobject : Text.guardDigit (object node i) =
      Text.guardDigit node ++ ("_obj" ++ digits i) := by
    unfold object
    rw [String.append_assoc, Text.guardDigit_append_underscore node rfl]
  have hhighest : Text.guardDigit (highestSubIndex node i) =
      Text.guardDigit node ++ ("_highestSubIndex_obj" ++ digits i) := by
    unfold highestSubIndex
    rw [String.append_assoc, Text.guardDigit_append_underscore node rfl]
  rw [hobject, hhighest]
  intro heq
  have hlength := congrArg String.length heq
  simp only [String.length_append] at hlength
  have hshort : "_obj".length = 4 := rfl
  have hlong : "_highestSubIndex_obj".length = 20 := rfl
  omega

end Symbol

/-! ### What rows name and what entries define -/

/-- The variable of the highest subindex that a part of a block defines, if it defines one. -/
def BlockItem.highest? : BlockItem → Option HighestSubIndex
  | highest storage name n => some ⟨storage, name, n⟩
  | _ => none

/-- The variables of a block that hold a highest subindex. -/
def Block.highestSubIndexes (b : Block) : List HighestSubIndex :=
  b.items.filterMap BlockItem.highest?

theorem EntryCode.highestSubIndexes_block (c : EntryCode) :
    c.block.highestSubIndexes = c.shape.highest.toList := by
  have hlocals : (c.shape.locals.map LocalVariable.item).filterMap BlockItem.highest? = [] := by
    apply List.filterMap_eq_nil_iff.mpr
    intro item hitem
    obtain ⟨v, -, rfl⟩ := List.mem_map.mp hitem
    cases v with
    | single v => rfl
    | elements array => rfl
  have hcallbacks : (c.callbacks.map fun a =>
      BlockItem.callbacks a.name a.places).toList.filterMap BlockItem.highest? = [] := by
    cases c.callbacks with
    | none => rfl
    | some a => rfl
  unfold Block.highestSubIndexes block
  simp only [List.filterMap_append, hlocals, hcallbacks, List.append_nil]
  cases c.shape.highest with
  | none => rfl
  | some h => rfl

/-- The row points at the variable that holds the highest subindex. -/
def Row.NamesHighest (row : Row) (s : Site) : Prop :=
  row.target = Text.guardDigit (Symbol.highestSubIndex s.node s.index)

/-- The row points at an element of an array. -/
def Row.IsSubscripted (row : Row) : Prop :=
  ∃ array position, row.target = Symbol.element array position

/-- The block defines the variable that holds the highest subindex. -/
def EntryCode.HoldsHighest (c : EntryCode) (s : Site) : Prop :=
  ∃ h ∈ c.block.highestSubIndexes, h.name = Symbol.highestSubIndex s.node s.index

/-- One array is defined for the whole entry, in the block or at file scope. -/
def EntryCode.HasArray (c : EntryCode) : Prop := ∃ array, c.shape.arrays = [array]

namespace Site

variable {s : Site} {r : Resolver}

theorem highest_of_laidOut {c : ShapeCode} (h : s.LaidOut r c) :
    (s.entry.shape = .scalar ∧ c.highest = none) ∨
      (s.entry.shape ≠ .scalar ∧ ∃ storage n,
        s.highestValue s.entry.object.values = .ok n ∧
          c.highest = some ⟨storage, Symbol.highestSubIndex s.node s.index, n⟩) := by
  cases h with
  | scalar hobject =>
    refine Or.inl ⟨Entry.shape_of_single hobject, ?_⟩
    unfold scalarLayout
    split
    · rfl
    · rfl
  | record hobject hidentical _ _ hhighest =>
    refine Or.inr ⟨?_, _, _, ?_, rfl⟩
    · rw [Entry.shape_of_identical hobject hidentical]
      decide
    · rw [hobject]
      exact hhighest
  | array hobject hidentical _ _ hhighest =>
    refine Or.inr ⟨?_, _, _, ?_, rfl⟩
    · rw [Entry.shape_of_not_identical hobject hidentical]
      decide
    · rw [hobject]
      exact hhighest

theorem holdsHighest_iff {c : EntryCode} (hcode : s.code.value r = .ok c) :
    c.HoldsHighest s ↔ s.entry.shape ≠ .scalar := by
  unfold EntryCode.HoldsHighest
  rw [c.highestSubIndexes_block]
  rcases highest_of_laidOut (laidOut_of_code hcode) with
    ⟨hshape, hnone⟩ | ⟨hshape, storage, n, -, hsome⟩
  · simp [hshape, hnone]
  · simp [hshape, hsome]

theorem arrays_eq_nil_of_ne_record {c : ShapeCode} (h : s.LaidOut r c)
    (hshape : s.entry.shape ≠ .record) : c.arrays = [] := by
  cases h with
  | scalar => exact s.arrays_scalarLayout _ _ _
  | record hobject hidentical =>
    exact absurd (Entry.shape_of_identical hobject hidentical) hshape
  | array _ _ _ _ _ hmembers =>
    rw [arrays_sequenceLayout]
    exact arrays_foldl_members hmembers

theorem hasArray_iff {c : EntryCode} (hcode : s.code.value r = .ok c) :
    c.HasArray ↔ s.entry.shape = .record := by
  have hlaid := laidOut_of_code hcode
  constructor
  · rintro ⟨array, harray⟩
    by_contra hshape
    rw [arrays_eq_nil_of_ne_record hlaid hshape] at harray
    cases harray
  · intro hshape
    obtain ⟨array, _, _, harray, -⟩ := exists_array_of_record hlaid hshape
    exact ⟨array, harray⟩

/-! ### Row 0 -/

/-- At file scope the description of subindex 0 can spell the name of the highest subindex. -/
def SpellsHighest (s : Site) : Prop :=
  s.isMapped = true ∧ ∃ sub, s.entry.sub? 0 = some sub ∧
    Text.identifier sub.name = Text.guardDigit (Symbol.highestSubIndex s.node s.index)

theorem namesHighest_iff {row : Row} {sub : SubEntry} {value : Value}
    (hof : row.IsOf s r 0 sub value) :
    row.NamesHighest s ↔ s.entry.hasMultipleSubs = true ∨ s.SpellsHighest := by
  unfold Row.NamesHighest SpellsHighest
  rw [hof.target, targetName, if_pos rfl, hof.description]
  by_cases hmultiple : s.entry.hasMultipleSubs = true
  · simp [hmultiple]
  · by_cases hmapped : s.isMapped = true
    · simp [hmultiple, hmapped, Text.identifier]
    · simp [hmultiple, hmapped, Symbol.guardDigit_object_ne_highestSubIndex]

/-! ### Rows from 1 on -/

theorem endsInWordChar_elementName (hidentical : s.entry.hasIdenticalSubs = false) (k : Nat) :
    Text.EndsInWordChar (Text.guardDigit (s.elementName k)) := by
  have htail : Text.EndsInWordChar ("_" ++ Text.joinedWords (s.subName k)) := by
    apply Text.endsInWordChar_of_forall
    · intro hempty
      have hlength := congrArg String.length hempty
      rw [String.length_append] at hlength
      exact absurd hlength (by simp)
    · rw [String.toList_append]
      exact List.forall_mem_cons.mpr ⟨by decide, fun _ => Text.isWordChar_of_mem_joinedWords⟩
  unfold elementName Symbol.member
  rw [hidentical, if_neg Bool.false_ne_true]
  split
  · rw [String.append_assoc, Text.guardDigit_append_underscore _ rfl]
    exact Text.endsInWordChar_append _ htail
  · rw [String.append_assoc, Text.guardDigit_append_underscore _ rfl]
    exact Text.endsInWordChar_append _ htail

theorem isSubscripted_iff {k : Nat} (hpos : 1 ≤ k) (hlt : k < 256) {row : Row} {sub : SubEntry}
    {value : Value} (hof : row.IsOf s r (UInt8.ofNat k) sub value) :
    row.IsSubscripted ↔ s.entry.hasIdenticalSubs = true := by
  have htarget : row.target = Text.guardDigit (s.elementName k) :=
    hof.target.trans (targetName_of_pos hpos hlt (subEntry_eq_ok_iff.mpr hof.description))
  unfold Row.IsSubscripted
  rw [htarget]
  by_cases hidentical : s.entry.hasIdenticalSubs = true
  · have helement : s.elementName k = Symbol.element s.arrayName (k - 1) := by
      unfold elementName
      rw [if_pos hidentical]
    rw [helement, Symbol.guardDigit_element]
    simp [hidentical]
  · have hends := endsInWordChar_elementName (Bool.eq_false_iff.mpr hidentical) k
    simp only [hidentical, Bool.false_eq_true, iff_false, not_exists]
    exact Symbol.element_ne_of_endsInWordChar hends

/-- Where there is a row from 1 on, the values are a sequence. -/
theorem shape_eq_record_iff (hsize : 2 ≤ s.entry.object.size) :
    s.entry.shape = .record ↔ s.entry.hasIdenticalSubs = true := by
  cases hobject : s.entry.object with
  | single value =>
    rw [hobject] at hsize
    exact absurd hsize (by simp [Object.size, Object.values])
  | sequence values => simp [Entry.shape_of_sequence hobject]

/-! ### The two decisions -/

/-- The rows point at the sort of variable that the shape defines for them. -/
structure RowsFit (s : Site) (c : EntryCode) : Prop where
  first : ∀ row, c.rows[0]? = some row → (row.NamesHighest s ↔ c.HoldsHighest s)
  rest : ∀ k row, 1 ≤ k → c.rows[k]? = some row → (row.IsSubscripted ↔ c.HasArray)

theorem isSubscripted_iff_hasArray {c : EntryCode} (hcode : s.code.value r = .ok c) {k : Nat}
    {row : Row} (hpos : 1 ≤ k) (hrow : c.rows[k]? = some row) :
    row.IsSubscripted ↔ c.HasArray := by
  obtain ⟨hlt, sub, value, hof⟩ := exists_isOf_of_rows hcode hrow
  have hsize : k < c.rows.length := (List.getElem?_eq_some_iff.mp hrow).1
  rw [length_rows_of_code hcode] at hsize
  have hmany : 2 ≤ s.entry.object.size := Nat.lt_of_le_of_lt hpos hsize
  rw [isSubscripted_iff hpos hlt hof, hasArray_iff hcode, shape_eq_record_iff hmany]

/-- What row 0 points at goes by the flags, or by chance. -/
theorem exists_first_row {c : EntryCode} (hcode : s.code.value r = .ok c) :
    ∃ row, c.rows[0]? = some row ∧
      (row.NamesHighest s ↔ s.entry.hasMultipleSubs = true ∨ s.SpellsHighest) := by
  have hlength : 0 < c.rows.length := by
    rw [length_rows_of_code hcode]
    exact List.length_pos_iff.mpr (size_of_code hcode).1
  have hrow := List.getElem?_eq_getElem hlength
  obtain ⟨-, sub, value, hof⟩ := exists_isOf_of_rows hcode hrow
  exact ⟨_, hrow, namesHighest_iff hof⟩

/-- **Rows and shape.**  The block of an entry defines the variable of the highest subindex exactly
for a sequence, and one array stands for the whole entry exactly for a record.  Each row from 1 on
points at an element exactly when there is such an array.  Row 0 points at the highest subindex
exactly when the entry is flagged to have several subindexes, or spells that name; so the rows fit
exactly when this goes with a sequence.  The lines of the block show its parts. -/
theorem rowsFit_iff {c : EntryCode} (hcode : s.code.value r = .ok c) :
    (c.HoldsHighest s ↔ s.entry.shape ≠ .scalar) ∧
      (c.HasArray ↔ s.entry.shape = .record) ∧
      (∀ k row, 1 ≤ k → c.rows[k]? = some row → (row.IsSubscripted ↔ c.HasArray)) ∧
      (∃ row, c.rows[0]? = some row ∧
        (row.NamesHighest s ↔ s.entry.hasMultipleSubs = true ∨ s.SpellsHighest)) ∧
      (s.RowsFit c ↔
        (s.entry.hasMultipleSubs = true ∨ s.SpellsHighest ↔ s.entry.shape ≠ .scalar)) ∧
      c.block.text = c.block.spelled ∧
      PrintsIn (BlockItem.table c.table c.rows).spelled c.block.spelled := by
  have hrest (k : Nat) (row : Row) (hpos : 1 ≤ k) (hrow : c.rows[k]? = some row) :
      row.IsSubscripted ↔ c.HasArray :=
    isSubscripted_iff_hasArray hcode hpos hrow
  obtain ⟨first, hrow, hfirst⟩ := exists_first_row hcode
  refine ⟨holdsHighest_iff hcode, hasArray_iff hcode, hrest, ⟨first, hrow, hfirst⟩, ?_,
    c.block.text_eq_spelled, Block.printsIn_of_mem_items c.table_mem_items_block⟩
  rw [← hfirst, ← holdsHighest_iff hcode]
  constructor
  · intro hfit
    exact hfit.first first hrow
  · intro hagree
    refine ⟨fun row hrow' => ?_, hrest⟩
    cases hrow.symm.trans hrow'
    exact hagree

end Site

namespace Dictionary

theorem rowsFit_iff_sampler :
    ∃ c, (Site.mk sampler 0x2001 samples).code.value (.new 10) = .ok c ∧
      (Site.mk sampler 0x2001 samples).RowsFit c ∧ c.HasArray := by
  obtain ⟨c, hcode⟩ := exists_code_samples
  obtain ⟨-, harray, -, -, hfit, -⟩ := Site.rowsFit_iff hcode
  have hmultiple : samples.hasMultipleSubs = true := by decide
  have hrecord : samples.shape = .record := by decide
  refine ⟨c, hcode, hfit.mpr (iff_of_true (Or.inl hmultiple) ?_), harray.mpr hrecord⟩
  show samples.shape ≠ .scalar
  rw [hrecord]
  decide

/-- A level that is flagged to have several subindexes although it holds one value. -/
def level : Entry :=
  { name := "Level"
    object := .single (.unsigned 75)
    flags := .multiple
    subEntries := [⟨"Level", 0x0005, .readWrite, false, false⟩] }

/-- A node with nothing but the level. -/
def gauge : Dictionary := { node := { name := "Node" }, entries := .ofList [(0x2000, level)] }

/-- Row 0 of the level points at a variable that is not defined anywhere. -/
theorem not_forall_rowsFit :
    ¬ ∀ (d : Dictionary) (s : Site) (ranges : List RangeType) (r : Resolver) (c : EntryCode),
      s ∈ d.sites →
      (d.rangeTypes.run (Resolver.new d.node.defaultStringSize)).outcome = .ok (ranges, r) →
      s.code.value r = .ok c → s.RowsFit c := by
  intro h
  have hget : gauge.get? 0x2000 = some level := by decide +kernel
  have hsite : (⟨gauge, 0x2000, level⟩ : Site) ∈ gauge.sites :=
    mem_sites_iff.mpr ⟨rfl, by decide, hget⟩
  obtain ⟨c, hcode⟩ := exists_eq_ok_of_isOk
    (by decide +kernel : ((Site.mk gauge 0x2000 level).code.value (.new 10)).isOk = true)
  obtain ⟨row, hrow, hnames⟩ := Site.exists_first_row hcode
  have hfit := h gauge ⟨gauge, 0x2000, level⟩ [] (.new 10) c hsite rfl hcode
  have hholds := (hfit.first row hrow).mp (hnames.mpr (Or.inl (by decide)))
  exact absurd rfl ((Site.holdsHighest_iff hcode).mp hholds)

end Dictionary
end CanopenTables
