import CanopenTables.Proofs.Documents
import CanopenTables.Proofs.PrintedLines

/-!
# Mapped variables

The entries of the mapped areas become variables at file scope, defined in the source and declared
in the header.  Definitions, declarations and the number of both are written side by side; here they
are shown to belong to one list.

* The declarations are what the definitions **call for** (`declarations_of_laidOut`), and both
  documents print the list, one in definitions and the other in lines that declare them.
* The definitions stand at the subindexes of the mapped entries in **ascending order**
  (`addresses_of_entryCodes`).
* The variables are **counted** one by one, and the count comes to the number of definitions
  (`mappedCount_of_laidOut`).

Main statement: `declarations_match_definitions`.
-/

namespace CanopenTables

/-- The declaration that a definition calls for: the same declarator, in which an array of elements
is as long as its first values. -/
def MappedDefinition.declaration : MappedDefinition → MappedDeclaration
  | scalar index v => .scalar index v.declarator
  | member index sub v => .member index sub v.declarator
  | record index count array =>
    .record index count { array.declarator with extent := .fixed array.values.length }

/-- What is printed for a declaration depends on the definition that calls for it. -/
theorem MappedDefinition.text_declaration (m : MappedDefinition) :
    m.declaration.text = m.spelledExtern := by
  unfold MappedDeclaration.text declaration spelledExtern
  cases m with
  | scalar i v =>
    dsimp only
    rw [v.declarator.text_eq_spelled]
  | member i k v =>
    dsimp only
    rw [v.declarator.text_eq_spelled]
  | record i n array =>
    dsimp only
    rw [Declarator.text_eq_spelled]

/-- The place of a definition in the dictionary; a record begins at subindex 1. -/
def MappedDefinition.address : MappedDefinition → Address
  | scalar index _ => ⟨index, 0⟩
  | member index sub _ => ⟨index, sub⟩
  | record index _ _ => ⟨index, 1⟩

namespace Entry

/-- The subindexes at which an entry of the mapped areas has a definition. -/
def mappedSubs (e : Entry) : List SubIndex :=
  match e.shape with
  | .scalar => [0]
  | .record => [1]
  | .array => (List.range' 1 (e.object.size - 1)).map UInt8.ofNat

/-- The number of definitions of an entry of the mapped areas. -/
def mappedCount (e : Entry) : Nat :=
  match e.shape with
  | .scalar => 1
  | .record => 1
  | .array => e.object.size - 1

theorem length_mappedSubs (e : Entry) : e.mappedSubs.length = e.mappedCount := by
  unfold mappedSubs mappedCount
  cases e.shape with
  | scalar => rfl
  | record => rfl
  | array => simp

/-- The subindexes of at most 256 values are told apart by their bytes. -/
theorem mappedSubs_ascending {e : Entry} (h : e.object.size ≤ 256) :
    e.mappedSubs.Pairwise fun k l => k.toNat < l.toNat := by
  unfold mappedSubs
  cases e.shape with
  | scalar => simp
  | record => simp
  | array =>
    rw [List.pairwise_map]
    refine List.Pairwise.imp_of_mem (fun {k l} hk hl hkl => ?_) List.pairwise_lt_range'
    rw [List.mem_range'_1] at hk hl
    rw [UInt8.toNat_ofNat_of_lt' (by show k < 256; omega),
      UInt8.toNat_ofNat_of_lt' (by show l < 256; omega)]
    exact hkl

theorem shape_of_single {e : Entry} {value : Value} (h : e.object = .single value) :
    e.shape = .scalar := by
  unfold shape
  rw [h]

theorem size_of_sequence {e : Entry} {values : List Value} (h : e.object = .sequence values) :
    e.object.size = values.length := by
  rw [h]
  rfl

theorem shape_of_sequence {e : Entry} {values : List Value} (h : e.object = .sequence values) :
    e.shape = if e.hasIdenticalSubs then .record else .array := by
  unfold shape
  rw [h]

theorem shape_of_identical {e : Entry} {values : List Value} (h : e.object = .sequence values)
    (hidentical : e.hasIdenticalSubs = true) : e.shape = .record := by
  rw [shape_of_sequence h, if_pos hidentical]

theorem shape_of_not_identical {e : Entry} {values : List Value}
    (h : e.object = .sequence values) (hidentical : e.hasIdenticalSubs = false) :
    e.shape = .array := by
  rw [shape_of_sequence h, hidentical, if_neg Bool.false_ne_true]

end Entry

namespace Site

variable {s : Site} {r : Resolver} {c : ShapeCode}

theorem highest_eq_none_of_members {values : List (Value × Nat)} {members : List ShapeCode}
    (h : List.Forall₂
      (fun (b : Value × Nat) member => (s.memberCode b.1 (UInt8.ofNat b.2)).value r = .ok member)
      values members) : ∀ member ∈ members, member.highest = none := by
  intro member hmember
  obtain ⟨k, sub, type, literal, -, rfl⟩ := exists_memberLayout_of_mem h hmember
  unfold memberLayout
  split
  · rfl
  · rfl

theorem declarations_memberLayout (s : Site) (k : SubIndex) (sub : SubEntry) (type : ResolvedType)
    (literal : Literal) :
    (s.memberLayout k sub type literal).declarations =
      (s.memberLayout k sub type literal).definitions.map MappedDefinition.declaration := by
  unfold memberLayout
  split
  · rfl
  · rfl

theorem addresses_memberLayout (s : Site) (k : SubIndex) (sub : SubEntry) (type : ResolvedType)
    (literal : Literal) :
    (s.memberLayout k sub type literal).definitions.map MappedDefinition.address =
      if s.isMapped then [⟨s.index, k⟩] else [] := by
  unfold memberLayout
  split
  · rfl
  · rfl

theorem declarations_of_laidOut (h : s.LaidOut r c) :
    c.declarations = c.definitions.map MappedDefinition.declaration := by
  cases h with
  | scalar =>
    unfold scalarLayout
    split
    · rfl
    · rfl
  | @record values _ _ _ type _ n literals _ _ _ _ _ _ _ _ hliterals =>
    have hlength := length_of_forall₂_zipIdx_tail hliterals
    show (s.recordLayout values type n literals).declarations =
      (s.recordLayout values type n literals).definitions.map _
    unfold recordLayout
    split
    · simp [MappedDefinition.declaration, hlength]
    · rfl
  | array _ _ _ _ _ hmembers =>
    unfold sequenceLayout
    rw [ShapeCode.foldl_append _ (highest_eq_none_of_members hmembers)]
    simp only [ShapeCode.append, List.nil_append, List.map_flatMap]
    refine List.flatMap_congr fun member hmember => ?_
    obtain ⟨k, sub, type, literal, -, rfl⟩ := exists_memberLayout_of_mem hmembers hmember
    exact s.declarations_memberLayout _ sub type literal

theorem mappedCount_of_laidOut (h : s.LaidOut r c) : c.mappedCount = c.definitions.length := by
  cases h with
  | scalar =>
    unfold scalarLayout
    split
    · rfl
    · rfl
  | @record values _ _ _ type _ n literals =>
    show 0 + (s.recordLayout values type n literals).mappedCount =
      (s.recordLayout values type n literals).definitions.length
    unfold recordLayout
    split
    · rfl
    · rfl
  | array _ _ _ _ _ hmembers =>
    unfold sequenceLayout
    rw [ShapeCode.foldl_append _ (highest_eq_none_of_members hmembers)]
    simp only [ShapeCode.append, List.nil_append, List.length_flatMap, Nat.zero_add]
    refine congrArg List.sum (List.map_congr_left fun member hmember => ?_)
    obtain ⟨k, sub, type, literal, -, rfl⟩ := exists_memberLayout_of_mem hmembers hmember
    unfold memberLayout
    split
    · rfl
    · rfl

theorem addresses_of_laidOut (h : s.LaidOut r c) :
    c.definitions.map MappedDefinition.address =
      if s.isMapped then s.entry.mappedSubs.map (Address.mk s.index) else [] := by
  cases h with
  | scalar hobject =>
    rw [Entry.mappedSubs, Entry.shape_of_single hobject]
    unfold scalarLayout
    split
    · rfl
    · rfl
  | @record values _ _ _ type _ n literals hobject hidentical =>
    rw [Entry.mappedSubs, Entry.shape_of_identical hobject hidentical]
    show (s.recordLayout values type n literals).definitions.map _ = _
    unfold recordLayout
    split
    · rfl
    · rfl
  | @array values _ _ _ members hobject hidentical _ _ _ hmembers =>
    have hsize := Entry.size_of_sequence hobject
    rw [Entry.mappedSubs, Entry.shape_of_not_identical hobject hidentical]
    unfold sequenceLayout
    rw [ShapeCode.foldl_append _ (highest_eq_none_of_members hmembers)]
    simp only [ShapeCode.append, List.nil_append, List.map_flatMap]
    have hmember (b : Value × Nat) (member : ShapeCode)
        (hb : (s.memberCode b.1 (UInt8.ofNat b.2)).value r = .ok member) :
        (if s.isMapped then [Address.mk s.index (UInt8.ofNat b.2)] else []) =
          member.definitions.map MappedDefinition.address := by
      obtain ⟨sub, -, type, -, literal, -, -, rfl⟩ := memberCode_value_eq_ok_iff.mp hb
      exact (s.addresses_memberLayout _ sub type literal).symm
    rw [← flatMap_eq_flatMap_of_forall₂ hmembers hmember, hsize]
    split
    · rw [← List.map_eq_flatMap, List.map_map, ← List.length_tail,
        ← List.zipIdx_map_snd 1 values.tail, List.map_map]
      rfl
    · simp

end Site

namespace Dictionary

variable {d : Dictionary} {r : Resolver} {codes : List EntryCode}

theorem declarations_of_entryCodes (h : d.entryCodes.value r = .ok codes) :
    codes.flatMap (·.shape.declarations) =
      (codes.flatMap (·.shape.definitions)).map MappedDefinition.declaration := by
  rw [List.map_flatMap]
  refine List.flatMap_congr fun c hc => ?_
  obtain ⟨s, -, hs⟩ := exists_site_of_mem_codes h hc
  exact Site.declarations_of_laidOut (Site.laidOut_of_code hs)

theorem mappedCount_of_entryCodes (aliases : PointerAliases)
    (h : d.entryCodes.value r = .ok codes) :
    (Emission.ofCodes aliases codes).mappedCount =
      (codes.flatMap (·.shape.definitions)).length := by
  rw [Emission.ofCodes_eq, List.length_flatMap]
  refine congrArg List.sum (List.map_congr_left fun c hc => ?_)
  obtain ⟨s, -, hs⟩ := exists_site_of_mem_codes h hc
  exact Site.mappedCount_of_laidOut (Site.laidOut_of_code hs)

theorem entriesIn_userArea (d : Dictionary) :
    d.entriesIn Profile.userAreaStart Profile.userAreaEnd =
      (d.entriesIn Profile.commAreaStart 0xFFFF).filter fun b => Profile.isMapped b.1 := by
  unfold entriesIn
  rw [List.filter_filter]
  refine List.filter_congr fun b _ => ?_
  have hb := b.1.toNat_lt
  rw [Bool.eq_iff_iff]
  simp only [Profile.isMapped, Profile.userAreaStart, Profile.userAreaEnd, Profile.commAreaStart,
    Bool.and_eq_true, decide_eq_true_eq, UInt16.le_iff_toNat_le, UInt16.reduceToNat]
  omega

/-- The definitions of all entries stand at the mapped subindexes of the mapped entries. -/
theorem addresses_of_entryCodes (h : d.entryCodes.value r = .ok codes) :
    (codes.flatMap (·.shape.definitions)).map MappedDefinition.address =
      (d.entriesIn Profile.userAreaStart Profile.userAreaEnd).flatMap fun b =>
        b.2.mappedSubs.map (Address.mk b.1) := by
  have hsite (s : Site) (c : EntryCode) (hs : s.code.value r = .ok c) :
      (if s.isMapped then s.entry.mappedSubs.map (Address.mk s.index) else []) =
        c.shape.definitions.map MappedDefinition.address :=
    (Site.addresses_of_laidOut (Site.laidOut_of_code hs)).symm
  rw [List.map_flatMap,
    ← flatMap_eq_flatMap_of_forall₂ (entryCodes_value_eq_ok_iff.mp h) hsite, entriesIn_userArea]
  unfold sites
  rw [List.flatMap_map]
  -- an entry that is not mapped contributes nothing on the left and is filtered out on the right
  generalize d.entriesIn Profile.commAreaStart 0xFFFF = entries
  induction entries with
  | nil => rfl
  | cons b entries ih =>
    rw [List.flatMap_cons, ih, List.filter_cons]
    show (if Profile.isMapped b.1 then _ else _) ++ _ = _
    split
    · rw [List.flatMap_cons]
    · rfl

/-- Indexes ascend from entry to entry, and subindexes within an entry. -/
theorem mappedAddresses_ascending (h : d.entryCodes.value r = .ok codes) :
    ((d.entriesIn Profile.userAreaStart Profile.userAreaEnd).flatMap fun b =>
      b.2.mappedSubs.map (Address.mk b.1)).Pairwise fun a b => rank a < rank b := by
  rw [List.pairwise_flatMap]
  constructor
  · intro b hb
    rw [entriesIn_userArea] at hb
    have hsite : (⟨d, b.1, b.2⟩ : Site) ∈ d.sites :=
      List.mem_map.mpr ⟨b, (List.mem_filter.mp hb).1, rfl⟩
    obtain ⟨c, -, hc⟩ := exists_code_of_mem_sites h hsite
    have hsize : b.2.object.size ≤ 256 := (Site.size_of_code hc).2
    rw [List.pairwise_map]
    refine (Entry.mappedSubs_ascending hsize).imp fun {k l} hkl => ?_
    show b.1.toNat * 256 + k.toNat < b.1.toNat * 256 + l.toNat
    omega
  · have hindexes : (d.entriesIn Profile.userAreaStart Profile.userAreaEnd).Pairwise
        fun a b => rank a.1 < rank b.1 := d.entries.ascending.filter _
    refine hindexes.imp fun {a b} hab x hx y hy => ?_
    obtain ⟨k, -, rfl⟩ := List.mem_map.mp hx
    obtain ⟨l, -, rfl⟩ := List.mem_map.mp hy
    have hab' : a.1.toNat < b.1.toNat := hab
    have hk := k.toNat_lt
    show a.1.toNat * 256 + k.toNat < b.1.toNat * 256 + l.toNat
    omega

/-- **Definitions and declarations of mapped variables.**  In a generation that succeeds the
declarations of the header are, one by one and in the same order, those that the definitions of the
source call for, and both are printed line by line in their sections: storage type, star, name and
suffix of a definition stand in the line that declares it, where a record is as long as its first
values.  The definitions ascend by index and subindex and stand at the mapped subindexes of exactly
the entries of the mapped areas: one for a scalar, one for a record, one less than it has values for
an array.  The number in the last report, for which the entries count their variables one by one, is
the number of the definitions. -/
theorem declarations_match_definitions {headerName : String} {aliases : PointerAliases}
    {config : Config} {files : DocumentPair}
    (h : (d.generate headerName aliases config).outcome = .ok files) :
    ∃ source header,
      (d.documents headerName aliases config).outcome = .ok (source, header) ∧
      files = ⟨source.text, header.text⟩ ∧
      header.declarations = source.definitions.map MappedDefinition.declaration ∧
      PrintsIn (sectionText "Declaration of mapped variables" ++
        String.join (source.definitions.map MappedDefinition.spelled) ++
        sectionText "Declaration of value range types") files.source ∧
      PrintsIn ("extern CO_Data " ++ d.node.name ++ "_Data;\n" ++
        String.join (source.definitions.map MappedDefinition.spelledExtern) ++
        "\n#endif // ") files.header ∧
      source.definitions.map MappedDefinition.address =
        ((d.entriesIn Profile.userAreaStart Profile.userAreaEnd).flatMap fun b =>
          b.2.mappedSubs.map (Address.mk b.1)) ∧
      (source.definitions.map MappedDefinition.address).Pairwise (fun a b => rank a < rank b) ∧
      source.definitions.length =
        ((d.entriesIn Profile.userAreaStart Profile.userAreaEnd).map fun b =>
          b.2.mappedCount).sum ∧
      (d.generate headerName aliases config).notices.getLast? =
        some (.staged d.node.name
          (.finished source.navigation.positions.size source.definitions.length)) ∧
      (d.generate headerName aliases config).notices.getLast?.map Notice.line =
        some (finishedLine d.node.name source.navigation.positions.size
          source.definitions.length) := by
  obtain ⟨source, header, hdocuments, rfl⟩ := generate_outcome_eq_ok_iff.mp h
  obtain ⟨ranges, codes, fallbacks, timers, hvalue, -, -, hof⟩ :=
    documents_outcome_eq_ok_iff.mp hdocuments
  obtain ⟨r, -, hcodes⟩ := rangesAndCodes_value_eq_ok_iff.mp hvalue
  have hdefinitions : source.definitions = codes.flatMap (·.shape.definitions) := by
    rw [show source = _ from congrArg Prod.fst hof.symm]
    simp [documentsOf, Emission.withFallbacks, Emission.ofCodes_eq]
  have hdeclarations : header.declarations =
      source.definitions.map MappedDefinition.declaration := by
    rw [hdefinitions, ← declarations_of_entryCodes hcodes,
      show header = _ from congrArg Prod.snd hof.symm]
    simp [documentsOf, Emission.withFallbacks, Emission.ofCodes_eq]
  have haddresses := addresses_of_entryCodes hcodes
  rw [← hdefinitions] at haddresses
  have hlast : (d.generate headerName aliases config).notices.getLast? =
      some (.staged d.node.name
        (.finished source.navigation.positions.size source.definitions.length)) := by
    rw [hdefinitions, ← mappedCount_of_entryCodes aliases hcodes,
      ← getLast?_notices_documents hdocuments hvalue]
    unfold generate
    rw [Reported.notices_bind_of_ok hdocuments]
    simp
  refine ⟨source, header, hdocuments, rfl, hdeclarations, source.printsIn_definitions, ?_,
    haddresses, ?_, ?_, hlast, ?_⟩
  · have hprinted := header.printsIn_declarations
    rw [hdeclarations, List.map_map,
      show MappedDeclaration.text ∘ MappedDefinition.declaration = MappedDefinition.spelledExtern
        from funext MappedDefinition.text_declaration,
      show header.node = d.node.name by rw [show header = _ from congrArg Prod.snd hof.symm]; rfl]
      at hprinted
    exact hprinted
  · rw [haddresses]
    exact mappedAddresses_ascending hcodes
  · rw [← List.length_map MappedDefinition.address, haddresses, List.length_flatMap]
    simp only [List.length_map, Entry.length_mappedSubs]
  · rw [hlast, Option.map_some, Notice.line_finished]

/-- A drive: a device type, a setpoint whose values are limited by a range type, a record of
speeds, and an array of a name and a firmware image. -/
def drive : Dictionary :=
  { node := { name := "Drive" }
    entries := .ofList
      [(0x0040, .ofRange "UNSIGNED8[0-100]" 0x0005 0 100),
        (0x1000, .ofVariable "Device Type" ⟨"Device Type", 0x0007, .readOnly, false, false⟩
          (.unsigned 402)),
        (0x2000, .ofVariable "Setpoint" ⟨"Setpoint", 0x0040, .readWrite, true, false⟩
          (.unsigned 50)),
        (0x2001, .ofRecord "1st speeds" ⟨"Count", 0x0005, .readOnly, false, false⟩
          ⟨"Speed", 0x0006, .readWrite, false, true⟩ [.unsigned 2, .unsigned 10, .unsigned 20]),
        (0x2002, .ofArray "Unit" [⟨"Count", 0x0005, .readOnly, false, false⟩,
            ⟨"Name", 0x0009, .readWrite, true, false⟩, ⟨"Image", 0x000F, .readWrite, false, false⟩]
          [.unsigned 2, .visibleString "pump", .domain [1, 2, 3]])] }

theorem isBuilt_drive : drive.IsBuilt := by
  intro b hb
  have hlisted := AscendingMap.mem_of_mem_toList_ofList (List.mem_filter.mp hb).1
  simp only [List.mem_cons, List.not_mem_nil, or_false] at hlisted
  rcases hlisted with rfl | rfl | rfl | rfl | rfl
  · exact .ofArray _ _ _
  · exact .ofVariable _ _ _
  · exact .ofVariable _ _ _
  · exact .ofRecord _ _ _ _
  · exact .ofArray _ _ _

/-- What the source of `drive` holds: its variables at file scope, the setpoint and the array as
they stand in their blocks, the cases of the switch, and the constants of the ranges. -/
@[mk_iff]
structure IsSourceOfDrive (source : SourceDocument) : Prop where
  definitions : source.definitions =
    [.scalar 0x2000 ⟨⟨.unsigned 8, false, "Setpoint", .single⟩, ⟨"0x32", "\t/* 50 */"⟩⟩,
      .record 0x2001 2 ⟨⟨.unsigned 16, false, "_1st_speeds", .asFilled⟩,
        [⟨"0xA", "\t/* 10 */"⟩, ⟨"0x14", "\t/* 20 */"⟩]⟩,
      .member 0x2002 1 ⟨⟨.unsigned 8, false, "Unit_Name", .fixed 10⟩, ⟨"\"pump\"", ""⟩⟩,
      .member 0x2002 2
        ⟨⟨.unsigned 8, false, "Unit_Image", .fixed 3⟩, ⟨"\"\\x01\\x02\\x03\"", ""⟩⟩]
  setpoint : (source.blocks.get? 0x2000).map Block.items =
    some [.table "Drive_Index2000"
      [⟨.readWrite, true, ⟨.unsigned 8, none, .valueRange (.numbered 1), true⟩,
        .sizeOf (.unsigned 8), "Setpoint"⟩]]
  unit : (source.blocks.get? 0x2002).map Block.items =
    some [.highest (.unsigned 8) "Drive_highestSubIndex_obj2002" 2,
      .table "Drive_Index2002"
        [⟨.readOnly, false, ⟨.unsigned 8, none, .unsigned 8, true⟩, .sizeOf (.unsigned 8),
            "Drive_highestSubIndex_obj2002"⟩,
          ⟨.readWrite, true, ⟨.unsigned 8, some 10, .visibleString, false⟩, .bytes 10,
            "Unit_Name"⟩,
          ⟨.readWrite, false, ⟨.unsigned 8, some 3, .domain, false⟩, .bytes 3, "Unit_Image"⟩]]
  cases : source.navigation.cases =
    [⟨0x1000, 0, none⟩, ⟨0x2000, 1, none⟩, ⟨0x2001, 2, some "_1st_speeds_callbacks"⟩,
      ⟨0x2002, 3, none⟩]
  constants : (source.ranges.constants.map fun c => (c.id, c.value)) =
    [(.errorCount, 0x9F), (.numbered 1, 0x40)]

instance (source : SourceDocument) : Decidable (IsSourceOfDrive source) :=
  decidable_of_iff _ (isSourceOfDrive_iff source).symm

theorem exists_documents_drive :
    ∃ files source header,
      (drive.generate "Drive.h" .empty {}).outcome = .ok files ∧
      (drive.documents "Drive.h" .empty {}).outcome = .ok (source, header) ∧
      IsSourceOfDrive source := by
  have hdrive : (drive.documents "Drive.h" .empty {}).outcome.toOption.any
      (fun p => decide (IsSourceOfDrive p.1)) = true := by
    decide +kernel
  cases hdocuments : (drive.documents "Drive.h" .empty {}).outcome with
  | error e =>
    rw [hdocuments] at hdrive
    cases hdrive
  | ok documents =>
    rw [hdocuments] at hdrive
    exact ⟨_, documents.1, documents.2, generate_outcome_eq_ok_iff.mpr ⟨_, _, hdocuments, rfl⟩,
      rfl, of_decide_eq_true hdrive⟩

theorem declarations_match_definitions_drive :
    ∃ files source header,
      (drive.generate "Drive.h" .empty {}).outcome = .ok files ∧
      (drive.documents "Drive.h" .empty {}).outcome = .ok (source, header) ∧
      header.declarations = source.definitions.map MappedDefinition.declaration ∧
      source.definitions.map MappedDefinition.address =
        [⟨0x2000, 0⟩, ⟨0x2001, 1⟩, ⟨0x2002, 1⟩, ⟨0x2002, 2⟩] ∧
      source.definitions.length = 4 := by
  obtain ⟨files, source, header, h, hdocuments, hdrive⟩ := exists_documents_drive
  obtain ⟨source', header', hdocuments', -, hdeclarations, -⟩ := declarations_match_definitions h
  cases hdocuments.symm.trans hdocuments'
  refine ⟨files, source, header, h, hdocuments, hdeclarations, ?_, ?_⟩
  · rw [hdrive.definitions]
    rfl
  · rw [hdrive.definitions]
    rfl

end Dictionary
end CanopenTables
