import CanopenTables.Proofs.Identifiers
import CanopenTables.Proofs.MappedVariables

/-!
# The variables behind the rows

A row of a subindex table holds the address of a variable by name, and the name is put together
twice: once where the variable is defined and once for the row.  The row guards a leading digit at
the end, over the whole name; the definitions guard the parts that come from the dictionary, and
nothing in an entry's block.

Main statement: `targets_eq_names`.  Row by row the target is the guarded name of the variable that
the entry defines there, and at file scope it is that very name.
-/

namespace CanopenTables

/-! ### The names that an entry defines -/

/-- The names of the elements of an array. -/
def ElementArray.names (array : ElementArray) : List String :=
  (List.range array.values.length).map (Symbol.element array.declarator.name)

/-- The names that a local variable gives to subindexes. -/
def LocalVariable.names : LocalVariable → List String
  | single v => [v.declarator.name]
  | elements array => array.names

/-- The array of elements in a local variable, if it is one. -/
def LocalVariable.array? : LocalVariable → Option ElementArray
  | single _ => none
  | elements array => some array

/-- The names that a definition gives to subindexes. -/
def MappedDefinition.names : MappedDefinition → List String
  | scalar _ v => [v.declarator.name]
  | member _ _ v => [v.declarator.name]
  | record _ _ array => array.names

/-- The array of elements in a definition, if it is one. -/
def MappedDefinition.array? : MappedDefinition → Option ElementArray
  | scalar _ _ => none
  | member _ _ _ => none
  | record _ _ array => some array

/-- The names that a declaration gives to subindexes. -/
def MappedDeclaration.names : MappedDeclaration → List String
  | scalar _ d => [d.name]
  | member _ _ d => [d.name]
  | record _ _ d =>
    match d.extent with
    | .fixed length => (List.range length).map (Symbol.element d.name)
    | _ => []

theorem MappedDefinition.names_declaration (m : MappedDefinition) :
    m.declaration.names = m.names := by
  cases m with
  | scalar _ _ => rfl
  | member _ _ _ => rfl
  | record _ _ _ => rfl

namespace ShapeCode

/-- The names that the code defines for the subindexes, in their order. -/
def names (c : ShapeCode) : List String :=
  (c.highest.map (·.name)).toList ++ c.locals.flatMap LocalVariable.names ++
    c.definitions.flatMap MappedDefinition.names

/-- The arrays of elements among the variables. -/
def arrays (c : ShapeCode) : List ElementArray :=
  c.locals.filterMap LocalVariable.array? ++ c.definitions.filterMap MappedDefinition.array?

theorem mem_arrays_append {a b : ShapeCode} {array : ElementArray} :
    array ∈ (a.append b).arrays ↔ array ∈ a.arrays ∨ array ∈ b.arrays := by
  simp only [arrays, append, List.filterMap_append, List.mem_append]
  tauto

theorem mem_arrays_foldl {members : List ShapeCode} {c : ShapeCode} {array : ElementArray} :
    array ∈ (members.foldl append c).arrays ↔
      array ∈ c.arrays ∨ ∃ member ∈ members, array ∈ member.arrays := by
  induction members generalizing c with
  | nil => simp
  | cons member members ih =>
    rw [List.foldl_cons, ih, mem_arrays_append, List.exists_mem_cons_iff, or_assoc]

end ShapeCode

/-! ### The variables that an entry declares -/

/-- The elements of an array, each as a variable of its own. -/
def ElementArray.declarators (array : ElementArray) : List Declarator :=
  array.names.map fun name =>
    ⟨array.declarator.storage, array.declarator.pointer, name, .single⟩

/-- The variables that a part of a block declares for subindexes. -/
def BlockItem.declarators : BlockItem → List Declarator
  | highest storage name _ => [⟨storage, false, name, .single⟩]
  | single v => [v.declarator]
  | elements array => array.declarators
  | zeroElement storage name => [⟨storage, false, Symbol.element name 0, .single⟩]
  | callbacks _ _ => []
  | table _ _ => []

/-- The variables that a definition at file scope declares for subindexes. -/
def MappedDefinition.declarators : MappedDefinition → List Declarator
  | scalar _ v => [v.declarator]
  | member _ _ v => [v.declarator]
  | record _ _ array => array.declarators

/-- A part of a block begins with the variable that it declares. -/
theorem BlockItem.declares {item : BlockItem} {v : Declarator} (hv : v ∈ item.declarators) :
    Declares item.spelled v := by
  unfold spelled
  cases item with
  | highest storage name value =>
    obtain rfl := List.mem_singleton.mp hv
    refine .alone (.of_eq_append (Numeral.decimal value ++ "; /* number of subindex - 1*/\n") ?_)
    unfold Declarator.spelled Extent.spelled
    dsimp only
    simp only [Bool.false_eq_true, if_false, String.append_empty, String.append_assoc]
  | single w =>
    obtain rfl := List.mem_singleton.mp hv
    refine .alone (.of_eq_append (w.value.text ++ ";" ++ w.value.comment ++ "\n") ?_)
    simp only [String.append_assoc]
  | elements array =>
    obtain ⟨name, hname, rfl⟩ := List.mem_map.mp hv
    obtain ⟨k, -, rfl⟩ := List.mem_map.mp hname
    have hsign : " = \n" = " =" ++ " \n" := rfl
    refine .element k (.of_eq_append (" \n" ++ blockIndent ++ "\x7b\n" ++
      dividedLines "                      " array.lines ++ blockIndent ++ "\x7d;\n") ?_)
    dsimp only
    rw [hsign]
    simp only [String.append_assoc]
  | zeroElement storage name =>
    obtain rfl := List.mem_singleton.mp hv
    have hend : "[]=\x7b0\x7d;\n" = "[]=\x7b0\x7d;" ++ "\n" := rfl
    refine .zero (.of_eq_append "\n" ?_)
    dsimp only
    rw [hend]
    simp only [String.append_assoc]
  | callbacks name places => cases hv
  | table name rows => cases hv

theorem MappedDefinition.declares {m : MappedDefinition} {v : Declarator}
    (hv : v ∈ m.declarators) : Declares m.spelled v := by
  unfold spelled
  cases m with
  | scalar i w =>
    obtain rfl := List.mem_singleton.mp hv
    refine .alone (.of_eq_append (w.value.text ++ ";" ++ memberPlace i 0) ?_)
    simp only [String.append_assoc]
  | member i k w =>
    obtain rfl := List.mem_singleton.mp hv
    refine .alone (.of_eq_append (w.value.text ++ ";" ++ memberPlace i k) ?_)
    simp only [String.append_assoc]
  | record i n array =>
    obtain ⟨name, hname, rfl⟩ := List.mem_map.mp hv
    obtain ⟨k, -, rfl⟩ := List.mem_map.mp hname
    refine .element k (.of_eq_append (recordPlace i n ++ "  \x7b\n" ++
      dividedLines "    " array.lines ++ "  \x7d;\n") ?_)
    simp only [String.append_assoc]

def HighestSubIndex.declarator (h : HighestSubIndex) : Declarator :=
  ⟨h.storage, false, h.name, .single⟩

/-- The variables that the code of an entry declares for its subindexes. -/
def ShapeCode.declarators (c : ShapeCode) : List Declarator :=
  (c.highest.map HighestSubIndex.declarator).toList ++
    c.locals.flatMap (fun v => v.item.declarators) ++
      c.definitions.flatMap MappedDefinition.declarators

theorem ElementArray.map_name_declarators (array : ElementArray) :
    array.declarators.map Declarator.name = array.names := by
  unfold declarators
  rw [List.map_map]
  exact List.map_id _

theorem ShapeCode.map_name_declarators (c : ShapeCode) :
    c.declarators.map Declarator.name = c.names := by
  have hlocal (v : LocalVariable) : v.item.declarators.map Declarator.name = v.names := by
    cases v with
    | single v => rfl
    | elements array => exact array.map_name_declarators
  have hmapped (m : MappedDefinition) : m.declarators.map Declarator.name = m.names := by
    cases m with
    | scalar _ _ => rfl
    | member _ _ _ => rfl
    | record _ _ array => exact array.map_name_declarators
  have hhighest : (c.highest.map HighestSubIndex.declarator).toList.map Declarator.name =
      (c.highest.map (·.name)).toList := by
    cases c.highest with
    | none => rfl
    | some h => rfl
  unfold declarators names
  rw [List.map_append, List.map_append, hhighest, List.map_flatMap, List.map_flatMap]
  simp only [hlocal, hmapped]

namespace EntryCode

/-- Callbacks and the table are no variables of subindexes. -/
theorem declarators_block (c : EntryCode) :
    c.block.items.flatMap BlockItem.declarators ++
      c.shape.definitions.flatMap MappedDefinition.declarators = c.shape.declarators := by
  have hcallbacks : ((c.callbacks.map fun a =>
      BlockItem.callbacks a.name a.places).toList.flatMap BlockItem.declarators) = [] := by
    cases c.callbacks with
    | none => rfl
    | some a => rfl
  have hhighest : ((c.shape.highest.map fun h =>
      BlockItem.highest h.storage h.name h.value).toList.flatMap BlockItem.declarators) =
        (c.shape.highest.map HighestSubIndex.declarator).toList := by
    cases c.shape.highest with
    | none => rfl
    | some h => rfl
  unfold block ShapeCode.declarators
  simp only [List.flatMap_append, hcallbacks, hhighest, List.flatMap_map, List.flatMap_singleton,
    BlockItem.declarators, List.append_nil]

theorem declares_of_mem {c : EntryCode} {v : Declarator} (hv : v ∈ c.shape.declarators) :
    Declares c.block.spelled v ∨ ∃ m ∈ c.shape.definitions, Declares m.spelled v := by
  rw [← c.declarators_block, List.mem_append, List.mem_flatMap, List.mem_flatMap] at hv
  rcases hv with ⟨item, hitem, hv⟩ | ⟨m, hm, hv⟩
  · exact Or.inl ((BlockItem.declares hv).mono (Block.printsIn_of_mem_items hitem))
  · exact Or.inr ⟨m, hm, MappedDefinition.declares hv⟩

end EntryCode

/-! ### The names by subindex -/

namespace Site

variable {s : Site} {r : Resolver} {c : ShapeCode}

/-- The declared name of a subindex. -/
def subName (s : Site) (k : Nat) : String :=
  ((s.entry.sub? (UInt8.ofNat k)).map SubEntry.name).getD ""

theorem subName_of_subEntry {k : Nat} {sub : SubEntry} (h : s.subEntry (UInt8.ofNat k) = .ok sub) :
    s.subName k = sub.name := by
  unfold subName
  rw [subEntry_eq_ok_iff.mp h]
  rfl

def arrayName (s : Site) : String :=
  if s.isMapped then Text.identifier s.entry.name else Symbol.object s.node s.index

/-- The name of the variable of a subindex from 1 on. -/
def elementName (s : Site) (k : Nat) : String :=
  if s.entry.hasIdenticalSubs then Symbol.element s.arrayName (k - 1)
  else if s.isMapped then Text.identifier s.entry.name ++ "_" ++ Text.joinedWords (s.subName k)
  else Symbol.member s.node s.index (Text.joinedWords (s.subName k))

/-- The name of the variable of subindex 0. -/
def firstName (s : Site) : String :=
  match s.entry.object with
  | .single _ =>
    if s.isMapped then Text.identifier (s.subName 0) else Symbol.object s.node s.index
  | .sequence _ => Symbol.highestSubIndex s.node s.index

theorem firstName_of_single {value : Value} (h : s.entry.object = .single value) :
    s.firstName =
      if s.isMapped then Text.identifier (s.subName 0) else Symbol.object s.node s.index := by
  unfold firstName
  rw [h]

theorem firstName_of_sequence {values : List Value} (h : s.entry.object = .sequence values) :
    s.firstName = Symbol.highestSubIndex s.node s.index := by
  unfold firstName
  rw [h]

theorem localNames_memberLayout {k : Nat} {sub : SubEntry}
    (hidentical : s.entry.hasIdenticalSubs = false)
    (hsub : s.subEntry (UInt8.ofNat k) = .ok sub) (type : ResolvedType) (literal : Literal) :
    (s.memberLayout (UInt8.ofNat k) sub type literal).locals.flatMap LocalVariable.names =
      if s.isMapped then [] else [s.elementName k] := by
  unfold elementName memberLayout
  rw [hidentical, subName_of_subEntry hsub]
  by_cases hmapped : s.isMapped = true
  · simp [hmapped]
  · simp [hmapped, LocalVariable.names]

theorem mappedNames_memberLayout {k : Nat} {sub : SubEntry}
    (hidentical : s.entry.hasIdenticalSubs = false)
    (hsub : s.subEntry (UInt8.ofNat k) = .ok sub) (type : ResolvedType) (literal : Literal) :
    (s.memberLayout (UInt8.ofNat k) sub type literal).definitions.flatMap
        MappedDefinition.names =
      if s.isMapped then [s.elementName k] else [] := by
  unfold elementName memberLayout
  rw [hidentical, subName_of_subEntry hsub]
  by_cases hmapped : s.isMapped = true
  · simp [hmapped, MappedDefinition.names]
  · simp [hmapped]

section members

variable {values : List (Value × Nat)} {members : List ShapeCode}
  (hidentical : s.entry.hasIdenticalSubs = false)
  (hmembers : List.Forall₂
    (fun (b : Value × Nat) member => (s.memberCode b.1 (UInt8.ofNat b.2)).value r = .ok member)
    values members)

include hidentical hmembers

theorem localNames_of_members :
    (members.flatMap (·.locals)).flatMap LocalVariable.names =
      if s.isMapped then [] else values.map fun b => s.elementName b.2 := by
  have hmember (b : Value × Nat) (member : ShapeCode)
      (hb : (s.memberCode b.1 (UInt8.ofNat b.2)).value r = .ok member) :
      (if s.isMapped then [] else [s.elementName b.2]) =
        member.locals.flatMap LocalVariable.names := by
    obtain ⟨sub, hsub, type, -, literal, -, -, rfl⟩ := memberCode_value_eq_ok_iff.mp hb
    exact (localNames_memberLayout hidentical hsub type literal).symm
  rw [List.flatMap_assoc, ← flatMap_eq_flatMap_of_forall₂ hmembers hmember, List.map_eq_flatMap]
  split
  · simp
  · rfl

theorem mappedNames_of_members :
    (members.flatMap (·.definitions)).flatMap MappedDefinition.names =
      if s.isMapped then values.map fun b => s.elementName b.2 else [] := by
  have hmember (b : Value × Nat) (member : ShapeCode)
      (hb : (s.memberCode b.1 (UInt8.ofNat b.2)).value r = .ok member) :
      (if s.isMapped then [s.elementName b.2] else []) =
        member.definitions.flatMap MappedDefinition.names := by
    obtain ⟨sub, hsub, type, -, literal, -, -, rfl⟩ := memberCode_value_eq_ok_iff.mp hb
    exact (mappedNames_memberLayout hidentical hsub type literal).symm
  rw [List.flatMap_assoc, ← flatMap_eq_flatMap_of_forall₂ hmembers hmember, List.map_eq_flatMap]
  split
  · rfl
  · simp

end members

/-- What an entry defines for its subindexes: the variable of subindex 0, and one name for each
subindex from 1 on. -/
theorem names_of_laidOut (h : s.LaidOut r c) :
    c.names = s.firstName :: (List.range' 1 (s.entry.object.size - 1)).map s.elementName := by
  cases h with
  | @scalar value sub type literal hobject hsub =>
    have hsize : s.entry.object.size = 1 := by rw [hobject]; rfl
    have hname : s.subName 0 = sub.name := subName_of_subEntry (k := 0) hsub
    rw [hsize, firstName_of_single hobject, hname]
    unfold scalarLayout
    by_cases hmapped : s.isMapped = true
    · simp [hmapped, ShapeCode.names, MappedDefinition.names]
    · simp [hmapped, ShapeCode.names, LocalVariable.names]
  | @record values _ _ _ type highest n literals hobject hidentical _ _ _ _ _ _ hliterals =>
    have hsize := Entry.size_of_sequence hobject
    have hlength := length_of_forall₂_zipIdx_tail hliterals
    have hnames : (List.range' 1 (values.length - 1)).map s.elementName =
        (List.range literals.length).map (Symbol.element s.arrayName) := by
      rw [← hlength, List.range'_eq_map_range, List.map_map]
      refine List.map_congr_left fun k _ => ?_
      simp [elementName, hidentical]
    rw [hsize, firstName_of_sequence hobject, hnames]
    unfold sequenceLayout recordLayout arrayName
    by_cases hmapped : s.isMapped = true
    · simp [hmapped, ShapeCode.names, ShapeCode.append, MappedDefinition.names,
        ElementArray.names]
    · simp [hmapped, ShapeCode.names, ShapeCode.append, LocalVariable.names, ElementArray.names]
  | @array values _ countType highest members hobject hidentical _ _ _ hmembers =>
    have hsize := Entry.size_of_sequence hobject
    have hnames : (List.range' 1 (values.length - 1)).map s.elementName =
        (members.flatMap (·.locals)).flatMap LocalVariable.names ++
          (members.flatMap (·.definitions)).flatMap MappedDefinition.names := by
      -- all members stand in the block or all at file scope, so one of the two lists is empty
      rw [localNames_of_members hidentical hmembers, mappedNames_of_members hidentical hmembers,
        ← List.length_tail, ← List.zipIdx_map_snd 1 values.tail, List.map_map]
      split
      · rfl
      · rw [List.append_nil]
        rfl
    rw [hsize, firstName_of_sequence hobject, hnames]
    unfold sequenceLayout
    rw [ShapeCode.foldl_append _ (highest_eq_none_of_members hmembers)]
    simp [ShapeCode.names, ShapeCode.append]

theorem guardDigit_elementName (hmapped : s.isMapped = true) (k : Nat) :
    Text.guardDigit (s.elementName k) = s.elementName k := by
  unfold elementName arrayName
  rw [if_pos hmapped]
  split
  · rw [Symbol.guardDigit_element, Text.identifier, Text.guardDigit_guardDigit]
  · have hb : Text.beginsWithDigit ("_" ++ Text.joinedWords (s.subName k)) = false := by
      rw [Text.beginsWithDigit_append]
      rfl
    rw [String.append_assoc, Text.guardDigit_append _ hb, Text.identifier,
      Text.guardDigit_guardDigit]

/-- In the mapped areas the variables stand at file scope, and their names need no guard. -/
theorem mappedNames_of_laidOut (h : s.LaidOut r c) (hmapped : s.isMapped = true) :
    c.locals.flatMap LocalVariable.names = [] ∧
      (c.definitions.flatMap MappedDefinition.names).map Text.guardDigit =
        c.definitions.flatMap MappedDefinition.names := by
  cases h with
  | scalar =>
    simp [scalarLayout, hmapped, MappedDefinition.names, Text.identifier,
      Text.guardDigit_guardDigit]
  | record =>
    simp [sequenceLayout, recordLayout, hmapped, ShapeCode.append, MappedDefinition.names,
      ElementArray.names, Text.identifier, Symbol.guardDigit_element, Text.guardDigit_guardDigit]
  | @array values _ _ _ members _ hidentical _ _ _ hmembers =>
    unfold sequenceLayout
    rw [ShapeCode.foldl_append _ (highest_eq_none_of_members hmembers)]
    have hlocals := localNames_of_members hidentical hmembers
    have hnames := mappedNames_of_members hidentical hmembers
    rw [if_pos hmapped] at hlocals hnames
    simp [ShapeCode.append, hlocals, hnames, guardDigit_elementName hmapped]

/-! ### The array of a record -/

def recordArray (s : Site) (type : ResolvedType) (literals : List Literal) : ElementArray :=
  ⟨⟨type.storage, type.size.isSome, s.arrayName, .asFilled⟩, literals⟩

theorem definitions_recordLayout (hmapped : s.isMapped = true) (values : List Value)
    (type : ResolvedType) (n : Nat) (literals : List Literal) :
    (s.recordLayout values type n literals).definitions =
      [.record s.index n (s.recordArray type literals)] := by
  simp [recordLayout, recordArray, arrayName, hmapped]

theorem locals_recordLayout (hunmapped : s.isMapped = false) (values : List Value)
    (type : ResolvedType) (n : Nat) (literals : List Literal) :
    (s.recordLayout values type n literals).locals =
      [.elements (s.recordArray type literals)] := by
  simp [recordLayout, recordArray, arrayName, hunmapped]

theorem arrays_recordLayout (s : Site) (values : List Value) (type : ResolvedType) (n : Nat)
    (literals : List Literal) :
    (s.recordLayout values type n literals).arrays = [s.recordArray type literals] := by
  unfold recordLayout recordArray arrayName
  split
  · rfl
  · rfl

theorem arrays_scalarLayout (s : Site) (sub : SubEntry) (type : ResolvedType) (literal : Literal) :
    (s.scalarLayout sub type literal).arrays = [] := by
  unfold scalarLayout
  split
  · rfl
  · rfl

theorem arrays_memberLayout (s : Site) (k : SubIndex) (sub : SubEntry) (type : ResolvedType)
    (literal : Literal) : (s.memberLayout k sub type literal).arrays = [] := by
  unfold memberLayout
  split
  · rfl
  · rfl

theorem arrays_foldl_members {values : List (Value × Nat)} {members : List ShapeCode}
    (h : List.Forall₂
      (fun (b : Value × Nat) member => (s.memberCode b.1 (UInt8.ofNat b.2)).value r = .ok member)
      values members) : (members.foldl ShapeCode.append {}).arrays = [] := by
  apply List.eq_nil_iff_forall_not_mem.mpr
  intro array harray
  obtain ⟨member, hmember, harray⟩ :=
    (ShapeCode.mem_arrays_foldl.mp harray).resolve_left List.not_mem_nil
  obtain ⟨k, sub, type, literal, -, rfl⟩ := exists_memberLayout_of_mem h hmember
  rw [arrays_memberLayout] at harray
  cases harray

theorem arrays_sequenceLayout (s : Site) (storage : Storage) (n : Nat) (elements : ShapeCode) :
    (s.sequenceLayout storage n elements).arrays = elements.arrays :=
  rfl

/-- An array of elements has one element for each subindex from 1 on, under that subindex's
name. -/
theorem arrays_of_laidOut (h : s.LaidOut r c) {array : ElementArray} (harray : array ∈ c.arrays) :
    array.values.length = s.entry.object.size - 1 ∧
      ∀ k, s.elementName k = Symbol.element array.declarator.name (k - 1) := by
  cases h with
  | scalar =>
    rw [arrays_scalarLayout] at harray
    cases harray
  | record hobject hidentical _ _ _ _ _ _ hliterals =>
    rw [arrays_sequenceLayout, arrays_recordLayout, List.mem_singleton] at harray
    subst harray
    refine ⟨?_, fun k => ?_⟩
    · rw [Entry.size_of_sequence hobject]
      exact length_of_forall₂_zipIdx_tail hliterals
    · unfold elementName
      rw [if_pos hidentical]
      rfl
  | array _ _ _ _ _ hmembers =>
    rw [arrays_sequenceLayout, arrays_foldl_members hmembers] at harray
    cases harray

/-! ### The names in the rows -/

theorem targetName_of_pos {k : Nat} (hk : 1 ≤ k) (hlt : k < 256) {sub : SubEntry}
    (hsub : s.subEntry (UInt8.ofNat k) = .ok sub) :
    s.targetName (UInt8.ofNat k) sub = Text.guardDigit (s.elementName k) := by
  have htoNat : (UInt8.ofNat k).toNat = k := UInt8.toNat_ofNat_of_lt' hlt
  have hne : UInt8.ofNat k ≠ 0 := by
    intro h
    rw [h] at htoNat
    have h0 : (0 : UInt8).toNat = 0 := rfl
    omega
  unfold targetName elementName arrayName
  rw [if_neg hne, htoNat, subName_of_subEntry hsub]
  by_cases hidentical : s.entry.hasIdenticalSubs = true
  · by_cases hmapped : s.isMapped = true
    · simp only [hidentical, hmapped, if_true, Text.identifier, Symbol.guardDigit_element,
        Text.guardDigit_guardDigit]
    · simp [hidentical, hmapped]
  · simp [hidentical]

/-- Only the flags tell a row of subindex 0 what the entry is; those of a built entry do not
mislead. -/
theorem hasMultipleSubs_of_isBuilt {e : Entry} (hbuilt : e.IsBuilt) :
    e.hasMultipleSubs =
      match e.object with
      | .single _ => false
      | .sequence _ => true := by
  cases hbuilt with
  | ofVariable => exact (by decide : StructureFlags.ofVariable.contains .multiple = false)
  | ofRecord => exact (by decide : StructureFlags.ofRecord.contains .multiple = true)
  | ofArray => exact (by decide : StructureFlags.ofArray.contains .multiple = true)

theorem targetName_zero (hbuilt : s.entry.IsBuilt) {sub : SubEntry}
    (hsub : s.subEntry 0 = .ok sub) : s.targetName 0 sub = Text.guardDigit s.firstName := by
  have hname : s.subName 0 = sub.name := subName_of_subEntry (k := 0) hsub
  have hmultiple := hasMultipleSubs_of_isBuilt hbuilt
  unfold targetName
  rw [if_pos rfl, hmultiple]
  cases hobject : s.entry.object with
  | single value =>
    rw [firstName_of_single hobject, hname, if_neg Bool.false_ne_true]
    by_cases hmapped : s.isMapped = true
    · simp only [hmapped, if_true, Text.identifier, Text.guardDigit_guardDigit]
    · simp [hmapped]
  | sequence values => rw [firstName_of_sequence hobject, if_pos rfl]

theorem targets_of_rows {values : List Value} {rows : List Row}
    (hbuilt : s.entry.IsBuilt) (hne : values ≠ []) (hsize : values.length ≤ 256)
    (h : (s.rows values).value r = .ok rows) :
    rows.map Row.target =
      (s.firstName :: (List.range' 1 (values.length - 1)).map s.elementName).map
        Text.guardDigit := by
  have hrow {value : Value} {k : SubIndex} {row : Row}
      (hrow : (s.row values value k).value r = .ok row) :
      ∃ sub, s.subEntry k = .ok sub ∧ row.target = s.targetName k sub := by
    obtain ⟨sub, hsub, _, -, _, -, rfl⟩ := row_value_eq_ok_iff.mp hrow
    exact ⟨sub, hsub, rfl⟩
  have hrows := rows_value_eq_ok_iff.mp h
  obtain ⟨value, tail, rfl⟩ := List.exists_cons_of_ne_nil hne
  rw [List.zipIdx_cons] at hrows
  obtain ⟨first, rest, hfirst, hrest, rfl⟩ := List.forall₂_cons_left_iff.mp hrows
  obtain ⟨sub, hsub, hfirst⟩ := hrow (k := 0) hfirst
  -- up to 256 values no subindex wraps round to 0, where a row is named differently
  have hbounds : ∀ b ∈ tail.zipIdx 1, 1 ≤ b.2 ∧ b.2 < 256 := by
    intro b hb
    have hle := List.le_snd_of_mem_zipIdx hb
    have hlt := List.snd_lt_add_of_mem_zipIdx hb
    rw [List.length_cons] at hsize
    omega
  have htargets : (tail.zipIdx 1).map (fun b => Text.guardDigit (s.elementName b.2)) =
      rest.map Row.target := by
    refine map_eq_map_of_forall₂ ((List.forall₂_and_left _ _).mpr ⟨hbounds, hrest⟩) ?_
    rintro b row ⟨⟨hpos, hlt⟩, hb⟩
    obtain ⟨sub, hsub, hb⟩ := hrow hb
    rw [hb, targetName_of_pos hpos hlt hsub]
  rw [List.map_cons, List.map_cons, hfirst, targetName_zero hbuilt hsub, ← htargets,
    List.length_cons, Nat.add_sub_cancel, ← List.zipIdx_map_snd 1 tail, List.map_map, List.map_map]
  rfl

theorem targets_of_code {c : EntryCode} (hbuilt : s.entry.IsBuilt)
    (h : s.code.value r = .ok c) :
    c.rows.map Row.target = c.shape.names.map Text.guardDigit := by
  have hshape := laidOut_of_code h
  obtain ⟨values, hvalues, shape, -, rows, hrows, rfl⟩ := code_value_eq_ok_iff.mp h
  obtain ⟨rfl, hne, hsize⟩ := values_eq_ok_iff.mp hvalues
  rw [targets_of_rows hbuilt hne hsize hrows, names_of_laidOut hshape]
  rfl

end Site

namespace Dictionary

variable {d : Dictionary} {r : Resolver} {codes : List EntryCode}

/-- **Rows name defined variables.**  In a dictionary of built entries each row of a subindex table
points at the guarded name of the variable that its entry defines for the subindex.  In the mapped
areas the definitions need no guard: a row has the very name that source and header have.  Where
the variable is an element of an array, its place is within the array's first values.  The rows
stand in the lines of the block, and each name in a line of the block or of a definition that
declares it. -/
theorem targets_eq_names (hbuilt : d.IsBuilt) (h : d.entryCodes.value r = .ok codes) :
    ∀ c ∈ codes,
      c.rows.map Row.target = c.shape.names.map Text.guardDigit ∧
      (Profile.isMapped c.index = true →
        c.rows.map Row.target =
          (c.shape.highest.map fun v => Text.guardDigit v.name).toList ++
            c.shape.definitions.flatMap MappedDefinition.names ∧
        c.shape.declarations.flatMap MappedDeclaration.names =
          c.shape.definitions.flatMap MappedDefinition.names) ∧
      (∀ array ∈ c.shape.arrays, ∀ k, 1 ≤ k → k < c.rows.length →
        k - 1 < array.values.length ∧
          c.shape.names[k]? = some (Symbol.element array.declarator.name (k - 1))) ∧
      PrintsIn (BlockItem.table c.table c.rows).spelled c.block.text ∧
      (∀ name ∈ c.shape.names, ∃ v : Declarator, v.name = name ∧
        (Declares c.block.text v ∨ ∃ m ∈ c.shape.definitions, Declares m.text v)) ∧
      c.shape.declarations.map MappedDeclaration.text =
        c.shape.definitions.map MappedDefinition.spelledExtern := by
  intro c hc
  obtain ⟨s, hs, hcode⟩ := exists_mem_left_of_forall₂ (entryCodes_value_eq_ok_iff.mp h) hc
  have hshape := Site.laidOut_of_code hcode
  have htargets := Site.targets_of_code (hbuilt.entry_of_mem_sites hs) hcode
  have hnames := Site.names_of_laidOut hshape
  refine ⟨htargets, fun hmapped => ⟨?_, ?_⟩, fun array harray k hpos hlt => ?_, ?_,
    fun name hname => ?_, ?_⟩
  · rw [Site.index_of_code hcode] at hmapped
    obtain ⟨hlocals, hguard⟩ := Site.mappedNames_of_laidOut hshape hmapped
    rw [htargets, ShapeCode.names, hlocals, List.append_nil, List.map_append, hguard]
    cases c.shape.highest with
    | none => rfl
    | some v => rfl
  · rw [Site.declarations_of_laidOut hshape, List.flatMap_map]
    exact List.flatMap_congr fun m _ => m.names_declaration
  · obtain ⟨hlength, helement⟩ := Site.arrays_of_laidOut hshape harray
    have hrows : c.rows.length = c.shape.names.length := by
      rw [← List.length_map Row.target, htargets, List.length_map]
    rw [hrows, hnames, List.length_cons, List.length_map, List.length_range'] at hlt
    refine ⟨by omega, ?_⟩
    obtain ⟨j, rfl⟩ := Nat.exists_eq_add_of_le' hpos
    rw [hnames, List.getElem?_cons_succ, List.getElem?_map,
      List.getElem?_range' (by omega), Option.map_some, helement]
    congr 2
    omega
  · rw [Block.text_eq_spelled]
    exact Block.printsIn_of_mem_items c.table_mem_items_block
  · rw [← c.shape.map_name_declarators] at hname
    obtain ⟨v, hv, rfl⟩ := List.mem_map.mp hname
    simp only [Block.text_eq_spelled, MappedDefinition.text_eq_spelled]
    exact ⟨v, rfl, c.declares_of_mem hv⟩
  · rw [Site.declarations_of_laidOut hshape, List.map_map]
    exact List.map_congr_left fun m _ => m.text_declaration

/-- The resolver that the ranges of `drive` leave. -/
def driveResolver : Resolver :=
  (Resolver.new 10).register "UNSIGNED8[0-100]"
    ⟨.unsigned 8, none, .valueRange (.numbered 1), true⟩

theorem targets_eq_names_drive :
    ∃ codes, drive.entryCodes.value driveResolver = .ok codes ∧
      codes.map (fun c => c.rows.map Row.target) =
        [["Drive_obj1000"], ["Setpoint"],
          ["Drive_highestSubIndex_obj2001", "_1st_speeds[0]", "_1st_speeds[1]"],
          ["Drive_highestSubIndex_obj2002", "Unit_Name", "Unit_Image"]] ∧
      codes.map (fun c => c.shape.names.map Text.guardDigit) =
        codes.map fun c => c.rows.map Row.target := by
  have htargets : (drive.entryCodes.value driveResolver).toOption.map
      (List.map fun c => c.rows.map Row.target) =
        some [["Drive_obj1000"], ["Setpoint"],
          ["Drive_highestSubIndex_obj2001", "_1st_speeds[0]", "_1st_speeds[1]"],
          ["Drive_highestSubIndex_obj2002", "Unit_Name", "Unit_Image"]] := by
    decide +kernel
  cases h : drive.entryCodes.value driveResolver with
  | error e =>
    rw [h] at htargets
    cases htargets
  | ok codes =>
    rw [h] at htargets
    refine ⟨codes, rfl, Option.some.inj htargets, ?_⟩
    exact List.map_congr_left fun c hc => (targets_eq_names isBuilt_drive h c hc).1.symm

end Dictionary
end CanopenTables
