import CanopenTables.Proofs.Acceptance
import CanopenTables.Proofs.TargetNames

/-!
# Declared variables

The code of an entry declares one variable for each of its subindexes, in their order: variables of
their own, or elements of an array, in the block or at file scope.  `ShapeCode.declarators` lists
them under the names of `ShapeCode.names`.

`Site.Declares` says how a variable follows from a type, and `exists_declares_of_laidOut` that each
variable does.  The type is that of the subindex's own value, except in a record, whose elements
share the description of subindex 1 and one type for all their values, and for the highest subindex,
whose type is resolved for no value at all.  In an entry that a constructor builds the description
is always that of the subindex itself (`Site.Backs`, `exists_backs_of_laidOut`).
-/

namespace CanopenTables

/-- The variables that a source document declares for the subindexes of an index: those of its
block, followed by those at file scope. -/
def SourceDocument.declaratorsAt (source : SourceDocument) (x : Index) : List Declarator :=
  ((source.blocks.get? x).map fun b => b.items.flatMap BlockItem.declarators).getD [] ++
    (source.definitions.filter fun m => m.address.index = x).flatMap MappedDefinition.declarators

namespace SourceDocument

variable {source : SourceDocument} {x : Index}

theorem declaratorsAt_of_items {items : List BlockItem}
    (h : (source.blocks.get? x).map Block.items = some items) :
    source.declaratorsAt x = items.flatMap BlockItem.declarators ++
      (source.definitions.filter fun m => m.address.index = x).flatMap
        MappedDefinition.declarators := by
  obtain ⟨b, hb, rfl⟩ := Option.map_eq_some_iff.mp h
  unfold declaratorsAt
  rw [hb]
  rfl

theorem declares_of_mem_declaratorsAt {v : Declarator} (hv : v ∈ source.declaratorsAt x) :
    Declares source.text v := by
  rcases List.mem_append.mp hv with hv | hv
  · cases hb : source.blocks.get? x with
    | none =>
      rw [hb] at hv
      cases hv
    | some b =>
      rw [hb] at hv
      obtain ⟨item, hitem, hv⟩ := List.mem_flatMap.mp hv
      obtain ⟨b', -, hprints, hblock⟩ := printsAt_of_mem_items hb hitem
      exact (BlockItem.declares hv).mono (hprints.trans hblock)
  · obtain ⟨m, hm, hv⟩ := List.mem_flatMap.mp hv
    have hline : PrintsIn m.spelled
        (String.join (source.definitions.map MappedDefinition.spelled)) :=
      .join_of_mem (List.mem_map_of_mem (List.mem_filter.mp hm).1)
    have hlines := ((hline.append_left _).append_right _).trans source.printsIn_definitions
    exact (MappedDefinition.declares hv).mono hlines

end SourceDocument

namespace ShapeCode

/-- Code that stands all in the block or all at file scope declares its variables part by part. -/
theorem declarators_append {a b : ShapeCode} (hb : b.highest = none)
    (h : a.definitions = [] ∨ b.locals = []) :
    (a.append b).declarators = a.declarators ++ b.declarators := by
  unfold declarators append
  rw [hb]
  rcases h with h | h
  · simp [h]
  · simp [h]

theorem declarators_foldl {members : List ShapeCode}
    (hhighest : ∀ member ∈ members, member.highest = none)
    (h : (∀ member ∈ members, member.definitions = []) ∨ ∀ member ∈ members, member.locals = []) :
    (members.foldl append {}).declarators = members.flatMap declarators := by
  rw [foldl_append members hhighest]
  rcases h with h | h
  · have hdefinitions : members.flatMap (·.definitions) = [] := List.flatMap_eq_nil_iff.mpr h
    simp only [declarators, hdefinitions, Option.map_none, Option.toList_none, List.nil_append,
      List.append_nil, List.flatMap_nil, List.flatMap_assoc]
    apply List.flatMap_congr
    intro member hmember
    simp [declarators, hhighest member hmember, h member hmember]
  · have hlocals : members.flatMap (·.locals) = [] := List.flatMap_eq_nil_iff.mpr h
    simp only [declarators, hlocals, Option.map_none, Option.toList_none, List.nil_append,
      List.flatMap_nil, List.flatMap_assoc]
    apply List.flatMap_congr
    intro member hmember
    simp [declarators, hhighest member hmember, h member hmember]

end ShapeCode

theorem Entry.IsBuilt.sub?_eq_of_identical {e : Entry} (h : e.IsBuilt)
    (hidentical : e.hasIdenticalSubs = true) {k : SubIndex} (hk : 0 < k.toNat) :
    e.sub? k = e.sub? 1 := by
  cases h with
  | ofVariable name sub value =>
    exact absurd hidentical (by decide : ¬ StructureFlags.ofVariable.contains .identical = true)
  | ofRecord name count element values =>
    rw [Entry.sub?_ofRecord hk, Entry.sub?_ofRecord (k := 1) (by decide)]
  | ofArray name subs values =>
    rw [Entry.hasIdenticalSubs_ofArray] at hidentical
    cases hidentical

theorem Entry.IsBuilt.hasIdenticalSubs_of_shape {e : Entry} (h : e.IsBuilt)
    (hshape : e.shape ≠ .record) : e.hasIdenticalSubs = false := by
  cases h with
  | ofVariable name sub value =>
    exact (by decide : StructureFlags.ofVariable.contains .identical = false)
  | ofRecord name count element values =>
    rw [Entry.shape_of_sequence rfl, Entry.hasIdenticalSubs_ofRecord, if_pos rfl] at hshape
    exact absurd rfl hshape
  | ofArray name subs values => exact Entry.hasIdenticalSubs_ofArray name subs values

namespace Site

variable {s : Site} {r : Resolver} {c : ShapeCode}

theorem declarators_scalarLayout (s : Site) (sub : SubEntry) (type : ResolvedType)
    (literal : Literal) :
    ∃ name, (s.scalarLayout sub type literal).declarators =
      [⟨type.storage, false, name, .ofSize type.size⟩] := by
  unfold scalarLayout
  split
  · exact ⟨_, rfl⟩
  · exact ⟨_, rfl⟩

theorem declarators_memberLayout (s : Site) (k : SubIndex) (sub : SubEntry) (type : ResolvedType)
    (literal : Literal) :
    ∃ name, (s.memberLayout k sub type literal).declarators =
      [⟨type.storage, false, name, .ofSize type.size⟩] := by
  unfold memberLayout
  split
  · exact ⟨_, rfl⟩
  · exact ⟨_, rfl⟩

theorem declarators_recordLayout (s : Site) (values : List Value) (type : ResolvedType) (n : Nat)
    (literals : List Literal) :
    (s.recordLayout values type n literals).declarators =
      (s.recordArray type literals).declarators := by
  unfold recordLayout recordArray arrayName
  split
  · simp [ShapeCode.declarators, MappedDefinition.declarators]
  · simp [ShapeCode.declarators, LocalVariable.item, BlockItem.declarators]

/-- The elements of a record are pointers when they have a size. -/
theorem of_mem_declarators_recordArray {type : ResolvedType} {literals : List Literal}
    {v : Declarator} (hv : v ∈ (s.recordArray type literals).declarators) :
    v.storage = type.storage ∧ v.pointer = type.size.isSome ∧ v.extent = .single := by
  obtain ⟨name, -, rfl⟩ := List.mem_map.mp hv
  exact ⟨rfl, rfl, rfl⟩

/-- All members of an array stand at file scope, or all stand in the block. -/
theorem declarators_foldl_members {values : List (Value × Nat)} {members : List ShapeCode}
    (h : List.Forall₂
      (fun (b : Value × Nat) member => (s.memberCode b.1 (UInt8.ofNat b.2)).value r = .ok member)
      values members) :
    (members.foldl ShapeCode.append {}).declarators = members.flatMap ShapeCode.declarators := by
  have hside : ∀ member ∈ members,
      if s.isMapped then member.locals = [] else member.definitions = [] := by
    intro member hmember
    obtain ⟨k, sub, type, literal, -, rfl⟩ := exists_memberLayout_of_mem h hmember
    unfold memberLayout
    split
    · rfl
    · rfl
  apply ShapeCode.declarators_foldl (highest_eq_none_of_members h)
  by_cases hmapped : s.isMapped = true
  · exact Or.inr fun member hmember => by simpa [hmapped] using hside member hmember
  · exact Or.inl fun member hmember => by simpa [hmapped] using hside member hmember

theorem forall₂_declarators_members {values : List (Value × Nat)} {members : List ShapeCode}
    (h : List.Forall₂
      (fun (b : Value × Nat) member => (s.memberCode b.1 (UInt8.ofNat b.2)).value r = .ok member)
      values members) :
    List.Forall₂
      (fun (b : Value × Nat) (v : Declarator) => ∃ sub type,
        s.subEntry (UInt8.ofNat b.2) = .ok sub ∧ (s.resolve sub [b.1]).value r = .ok type ∧
          v.storage = type.storage ∧ v.pointer = false ∧ v.extent = .ofSize type.size)
      values (members.foldl ShapeCode.append {}).declarators := by
  rw [declarators_foldl_members h]
  induction h with
  | nil => exact .nil
  | @cons b member values members hb _ ih =>
    obtain ⟨sub, hsub, type, htype, literal, -, -, rfl⟩ := memberCode_value_eq_ok_iff.mp hb
    obtain ⟨name, hname⟩ := s.declarators_memberLayout (UInt8.ofNat b.2) sub type literal
    rw [List.flatMap_cons, hname]
    exact .cons ⟨sub, type, hsub, htype, rfl, rfl, rfl⟩ ih

theorem length_declarators_of_laidOut (h : s.LaidOut r c) (hne : s.entry.object.values ≠ []) :
    c.declarators.length = s.entry.object.size := by
  have hpos : 0 < s.entry.object.size := List.length_pos_iff.mpr hne
  rw [← List.length_map Declarator.name, c.map_name_declarators, names_of_laidOut h,
    List.length_cons, List.length_map, List.length_range']
  omega

/-! ### The types behind the variables -/

/-- The subindex whose description the type of a variable is taken from: the elements of a record
share that of subindex 1. -/
def typingSub (s : Site) (k : Nat) : SubIndex :=
  if 1 ≤ k ∧ s.entry.hasIdenticalSubs = true then 1 else UInt8.ofNat k

theorem typingSub_of_not_identical (h : s.entry.hasIdenticalSubs = false) (k : Nat) :
    s.typingSub k = UInt8.ofNat k := by
  unfold typingSub
  rw [h, if_neg]
  exact fun hand => nomatch hand.2

/-- The variable of a subindex is declared with a type that the description it is typed by has for
some values. -/
structure Declares (s : Site) (r : Resolver) (k : Nat) (v : Declarator) (sub : SubEntry)
    (candidates : List Value) (type : ResolvedType) : Prop where
  description : s.entry.sub? (s.typingSub k) = some sub
  resolve : (s.resolve sub candidates).value r = .ok type
  storage : v.storage = type.storage
  pointer : v.pointer = true ↔ s.entry.shape = .record ∧ 1 ≤ k ∧ type.size.isSome = true
  extent : v.extent = .single ∨ v.extent = .ofSize type.size
  single : s.entry.shape = .scalar ∨ (s.entry.shape = .array ∧ 1 ≤ k) →
    ∃ value, s.entry.object.values[k]? = some value ∧ candidates = [value] ∧
      v.extent = .ofSize type.size

theorem highest_recordLayout (s : Site) (values : List Value) (type : ResolvedType) (n : Nat)
    (literals : List Literal) : (s.recordLayout values type n literals).highest = none := by
  unfold recordLayout
  split
  · rfl
  · rfl

theorem declarators_sequenceLayout (s : Site) (storage : Storage) (n : Nat) {elements : ShapeCode}
    (h : elements.highest = none) :
    (s.sequenceLayout storage n elements).declarators =
      ⟨storage, false, Symbol.highestSubIndex s.node s.index, .single⟩ :: elements.declarators := by
  unfold sequenceLayout
  rw [ShapeCode.declarators_append h (Or.inl rfl)]
  rfl

/-- The variables of a sequence are that of the highest subindex, whose type depends on no value,
and those of its elements. -/
theorem exists_declares_of_sequenceLayout (hshape : s.entry.shape ≠ .scalar) {count : SubEntry}
    {countType : ResolvedType} (hcount : s.subEntry 0 = .ok count)
    (hcountType : (s.resolve count []).value r = .ok countType) {elements : ShapeCode}
    (hnone : elements.highest = none)
    (helements : ∀ j v, elements.declarators[j]? = some v →
      ∃ sub candidates type, s.Declares r (j + 1) v sub candidates type)
    {n k : Nat} {v : Declarator}
    (hv : (s.sequenceLayout countType.storage n elements).declarators[k]? = some v) :
    ∃ sub candidates type, s.Declares r k v sub candidates type := by
  rw [declarators_sequenceLayout s _ _ hnone] at hv
  cases k with
  | zero =>
    cases hv
    refine ⟨count, [], countType, subEntry_eq_ok_iff.mp hcount, hcountType, rfl, ?_, Or.inl rfl, ?_⟩
    · simp
    · simp [hshape]
  | succ j => exact helements j v hv

theorem declares_scalarLayout {value : Value} {sub : SubEntry} {type : ResolvedType}
    (literal : Literal) (hobject : s.entry.object = .single value)
    (hsub : s.subEntry 0 = .ok sub) (htype : (s.resolve sub [value]).value r = .ok type) {k : Nat}
    {v : Declarator} (hv : (s.scalarLayout sub type literal).declarators[k]? = some v) :
    s.Declares r k v sub [value] type := by
  have hshape : s.entry.shape = .scalar := Entry.shape_of_single hobject
  have hvalues : s.entry.object.values = [value] := by
    rw [hobject]
    rfl
  obtain ⟨name, hdeclarators⟩ := s.declarators_scalarLayout sub type literal
  rw [hdeclarators] at hv
  cases k with
  | zero =>
    cases hv
    refine ⟨subEntry_eq_ok_iff.mp hsub, htype, rfl, ?_, Or.inr rfl, fun _ => ⟨value, ?_, rfl, rfl⟩⟩
    · simp [hshape]
    · rw [hvalues, List.getElem?_cons_zero]
  | succ j => cases hv

/-- All elements of a record have the type of the description at subindex 1. -/
theorem declares_recordLayout {values candidates : List Value} {sub : SubEntry}
    {type : ResolvedType} (n : Nat) (literals : List Literal) (hshape : s.entry.shape = .record)
    (hidentical : s.entry.hasIdenticalSubs = true) (hsub : s.subEntry 1 = .ok sub)
    (htype : (s.resolve sub candidates).value r = .ok type) {j : Nat} {v : Declarator}
    (hv : (s.recordLayout values type n literals).declarators[j]? = some v) :
    s.Declares r (j + 1) v sub candidates type := by
  have htyping : s.typingSub (j + 1) = 1 := if_pos ⟨Nat.le_add_left 1 j, hidentical⟩
  rw [declarators_recordLayout] at hv
  obtain ⟨hstorage, hpointer, hextent⟩ :=
    of_mem_declarators_recordArray (List.mem_of_getElem? hv)
  refine ⟨?_, htype, hstorage, ?_, Or.inl hextent, ?_⟩
  · rw [htyping]
    exact subEntry_eq_ok_iff.mp hsub
  · simp [hshape, hpointer]
  · simp [hshape]

/-- Each member of an array has a type of its own description, for its own value. -/
theorem exists_declares_of_members {members : List ShapeCode} (hshape : s.entry.shape = .array)
    (hidentical : s.entry.hasIdenticalSubs = false)
    (hmembers : List.Forall₂
      (fun (b : Value × Nat) member => (s.memberCode b.1 (UInt8.ofNat b.2)).value r = .ok member)
      (s.entry.object.values.tail.zipIdx 1) members) {j : Nat} {v : Declarator}
    (hv : (members.foldl ShapeCode.append {}).declarators[j]? = some v) :
    ∃ sub candidates type, s.Declares r (j + 1) v sub candidates type := by
  obtain ⟨value, hvalue, sub, type, hsub, htype, hstorage, hpointer, hextent⟩ :=
    getElem?_of_forall₂_zipIdx_tail (forall₂_declarators_members hmembers) hv
  refine ⟨sub, [value], type, ?_, htype, hstorage, ?_, Or.inr hextent,
    fun _ => ⟨value, hvalue, rfl, hextent⟩⟩
  · rw [typingSub_of_not_identical hidentical]
    exact subEntry_eq_ok_iff.mp hsub
  · simp [hshape, hpointer]

theorem exists_declares_of_laidOut (h : s.LaidOut r c) {k : Nat} {v : Declarator}
    (hv : c.declarators[k]? = some v) :
    ∃ sub candidates type, s.Declares r k v sub candidates type := by
  cases h with
  | @scalar value sub type literal hobject hsub htype =>
    exact ⟨sub, [value], type, declares_scalarLayout literal hobject hsub htype hv⟩
  | @record values _ sub _ type _ n literals hobject hidentical hcount hcountType _ hsub htype =>
    have hshape : s.entry.shape = .record := Entry.shape_of_identical hobject hidentical
    refine exists_declares_of_sequenceLayout (by simp [hshape]) hcount hcountType
      (s.highest_recordLayout values type n literals) (fun j v hv => ?_) hv
    exact ⟨sub, values.tail, type,
      declares_recordLayout n literals hshape hidentical hsub htype hv⟩
  | @array values _ _ _ members hobject hidentical hcount hcountType _ hmembers =>
    have hshape : s.entry.shape = .array := Entry.shape_of_not_identical hobject hidentical
    have hvalues : s.entry.object.values = values := by
      rw [hobject]
      rfl
    have hnone : (members.foldl ShapeCode.append {}).highest = none := by
      rw [ShapeCode.foldl_append _ (highest_eq_none_of_members hmembers)]
    rw [← hvalues] at hmembers
    exact exists_declares_of_sequenceLayout (by simp [hshape]) hcount hcountType hnone
      (fun _ _ hv => exists_declares_of_members hshape hidentical hmembers hv) hv

/-- A variable is declared for a subindex, with a type that the subindex has for some values.  A
variable that stands for its subindex alone has the type that fits its value. -/
structure Backs (s : Site) (r : Resolver) (k : Nat) (v : Declarator) (sub : SubEntry)
    (candidates : List Value) (type : ResolvedType) : Prop where
  subEntry : s.subEntry (UInt8.ofNat k) = .ok sub
  resolve : (s.resolve sub candidates).value r = .ok type
  storage : v.storage = type.storage
  pointer : v.pointer = true ↔ s.entry.shape = .record ∧ 1 ≤ k ∧ type.size.isSome = true
  single : s.entry.shape = .scalar ∨ (s.entry.shape = .array ∧ 1 ≤ k) →
    ∃ value, s.entry.object.values[k]? = some value ∧ candidates = [value] ∧
      v.extent = .ofSize type.size

/-- An entry that a constructor builds describes the elements of a record all alike, so a variable
is typed by the description of its own subindex. -/
theorem sub?_typingSub (hbuilt : s.entry.IsBuilt) {k : Nat} (hk : k < 256) :
    s.entry.sub? (s.typingSub k) = s.entry.sub? (UInt8.ofNat k) := by
  unfold typingSub
  split
  · rename_i hshared
    have htoNat : (UInt8.ofNat k).toNat = k := UInt8.toNat_ofNat_of_lt' hk
    exact (hbuilt.sub?_eq_of_identical hshared.2 (by omega)).symm
  · rfl

/-- The variable of a subindex has a type of the subindex. -/
theorem exists_backs_of_laidOut (hbuilt : s.entry.IsBuilt) (h : s.LaidOut r c)
    (hlength : c.declarators.length ≤ 256) {k : Nat} {v : Declarator}
    (hv : c.declarators[k]? = some v) :
    ∃ sub candidates type, s.Backs r k v sub candidates type := by
  obtain ⟨sub, candidates, type, hdeclares⟩ := exists_declares_of_laidOut h hv
  have hk : k < 256 := Nat.lt_of_lt_of_le (List.getElem?_eq_some_iff.mp hv).1 hlength
  refine ⟨sub, candidates, type, ?_, hdeclares.resolve, hdeclares.storage, hdeclares.pointer,
    hdeclares.single⟩
  rw [subEntry_eq_ok_iff, ← sub?_typingSub hbuilt hk]
  exact hdeclares.description

/-! ### Names that need no guard -/

/-- Behind a name that does not begin with a digit no guard is needed. -/
theorem guardDigit_names_of_laidOut (h : s.LaidOut r c)
    (hnode : Text.beginsWithDigit s.node = false) :
    ∀ name ∈ c.names, Text.guardDigit name = name := by
  have happend {rest : String} (hrest : Text.beginsWithDigit rest = false) :
      Text.guardDigit (s.node ++ rest) = s.node ++ rest := by
    rw [Text.guardDigit_append _ hrest, Text.guardDigit_eq_self hnode]
  have hobject (rest : String) : Text.guardDigit (Symbol.object s.node s.index ++ rest) =
      Symbol.object s.node s.index ++ rest := by
    unfold Symbol.object
    simp only [String.append_assoc]
    apply happend
    rw [Text.beginsWithDigit_append]
    rfl
  have hfirst : Text.guardDigit s.firstName = s.firstName := by
    unfold firstName
    split
    · split
      · exact Text.guardDigit_guardDigit _
      · simpa using hobject ""
    · unfold Symbol.highestSubIndex
      rw [String.append_assoc]
      apply happend
      rw [Text.beginsWithDigit_append]
      rfl
  have helement (k : Nat) : Text.guardDigit (s.elementName k) = s.elementName k := by
    by_cases hmapped : s.isMapped = true
    · exact guardDigit_elementName hmapped k
    · unfold elementName arrayName Symbol.element Symbol.member
      simp only [hmapped, if_false, Bool.false_eq_true, String.append_assoc]
      split
      · exact hobject _
      · exact hobject _
  rw [names_of_laidOut h]
  intro name hname
  rcases List.mem_cons.mp hname with rfl | hname
  · exact hfirst
  · obtain ⟨k, -, rfl⟩ := List.mem_map.mp hname
    exact helement k

end Site
end CanopenTables
