import CanopenTables.Proofs.RangeRegistration
import CanopenTables.Proofs.TableRows
import Mathlib.Data.List.Nodup
import Mathlib.Order.Bounds.Defs

/-!
# The ranges that rows name

The section of value ranges numbers the ranges; constants and cases stand there in one order
(`RangeSection.nodup_ids`).  A row of a subindex table can name a range only in two ways: as the
count of the error field, or because the resolver has answered a type name by a range that was
registered (`Site.exists_answer_of_row`).  Either way the section has one case for it, which reads
the value through the storage type of the row: `range_tags_resolve`.  A printed tag is the constant
of one range only (`Kind.eq_of_spelled_eq`), so all this shows in the lines.

Which range a row names is settled by the name of the declared type alone.  It is the range at the
greatest index among those of this name: `range_of_row_is_latest`.  An entry shares its name at its
peril: the bounds that are checked may be those of a namesake
(`not_forall_range_of_row_is_declared`).
-/

namespace CanopenTables

/-! ### Printed tags -/

theorem Numeral.decimal_injective {n m : Nat} (h : Numeral.decimal n = Numeral.decimal m) :
    n = m := by
  have hread := Numeral.readDecimal?_decimal n
  rw [h, Numeral.readDecimal?_decimal] at hread
  exact (Option.some.inj hread).symm

theorem RangeId.spelled_injective {id id' : RangeId} (h : id.spelled = id'.spelled) : id = id' := by
  have hletters (n : Nat) : "valueRange_" ++ Numeral.decimal n ≠ "valueRange_" ++ "EMC" := by
    intro heq
    have hread := Numeral.readDecimal?_decimal n
    have hnone : Numeral.readDecimal? "EMC".toList = none := by decide
    rw [(String.append_right_inj _).mp heq, hnone] at hread
    cases hread
  cases id with
  | errorCount =>
    cases id' with
    | errorCount => rfl
    | numbered m => exact absurd h.symm (hletters m)
  | numbered n =>
    cases id' with
    | errorCount => exact absurd h (hletters n)
    | numbered m =>
      have hdecimal : Numeral.decimal n = Numeral.decimal m := (String.append_right_inj _).mp h
      rw [Numeral.decimal_injective hdecimal]

/-- Only a range has the constant of a range for its tag. -/
theorem Kind.eq_of_spelled_eq {kind : Kind} {id : RangeId} (h : kind.spelled = id.spelled) :
    kind = .valueRange id := by
  obtain ⟨rest, hrest⟩ : ∃ rest : List Char, id.spelled.toList = 'v' :: 'a' :: rest := by
    cases id with
    | errorCount => exact ⟨_, rfl⟩
    | numbered n => exact ⟨_, by rw [RangeId.spelled, String.toList_append]; rfl⟩
  have hchars := (congrArg String.toList h).trans hrest
  cases kind with
  | valueRange id' => exact congrArg valueRange (RangeId.spelled_injective h)
  | unsigned width =>
    rw [spelled, String.toList_append] at hchars
    cases hchars
  | integer width =>
    rw [spelled, String.toList_append] at hchars
    cases hchars
  | real width =>
    rw [spelled, String.toList_append] at hchars
    cases hchars
  | visibleString => cases hchars
  | domain => cases hchars
  | boolean => cases hchars

/-! ### Constants and cases -/

namespace RangeSection

variable {s : RangeSection}

theorem map_id_constants (s : RangeSection) :
    s.constants.map RangeConstant.id = .errorCount :: s.types.map RangeType.id := by
  unfold constants
  rw [List.map_cons, List.map_map]
  rfl

theorem map_id_cases (s : RangeSection) :
    s.cases.map RangeCase.id = .errorCount :: s.types.map RangeType.id := by
  unfold cases
  rw [List.map_cons, List.map_map]
  rfl

section numbered

variable (h : s.types.map RangeType.number = List.range' 1 s.types.length)

include h

theorem nodup_ids : (s.types.map RangeType.id).Nodup := by
  have hids : s.types.map RangeType.id = (List.range' 1 s.types.length).map .numbered := by
    rw [← h, List.map_map]
    rfl
  rw [hids]
  exact List.Nodup.map (fun _ _ heq => RangeId.numbered.inj heq) List.nodup_range'

theorem nodup_errorCount_ids : (RangeId.errorCount :: s.types.map RangeType.id).Nodup := by
  refine List.nodup_cons.mpr ⟨fun hmem => ?_, nodup_ids h⟩
  obtain ⟨t, -, ht⟩ := List.mem_map.mp hmem
  cases ht

theorem filter_cases {c : RangeCase} (hc : c ∈ s.cases) :
    (s.cases.filter fun b => b.id = c.id) = [c] := by
  refine filter_eq_singleton_of_nodup ?_ hc
  rw [map_id_cases]
  exact nodup_errorCount_ids h

theorem filter_constants {c : RangeConstant} (hc : c ∈ s.constants) :
    (s.constants.filter fun b => b.id = c.id) = [c] := by
  refine filter_eq_singleton_of_nodup ?_ hc
  rw [map_id_constants]
  exact nodup_errorCount_ids h

theorem number_le {t : RangeType} (ht : t ∈ s.types) :
    1 ≤ t.number ∧ t.number ≤ s.types.length := by
  have hmem : t.number ∈ s.types.map RangeType.number := List.mem_map_of_mem ht
  rw [h, List.mem_range'_1] at hmem
  omega

end numbered
end RangeSection

/-! ### Rows -/

theorem Family.kind_resolve_ne_valueRange (family : Family) (n longest : Nat) (id : RangeId) :
    (family.resolve n longest).kind ≠ .valueRange id := by
  cases family with
  | unsigned width => exact Kind.noConfusion
  | integer width => exact Kind.noConfusion
  | real width => exact Kind.noConfusion
  | string declared => exact Kind.noConfusion
  | domain => exact Kind.noConfusion
  | boolean => exact Kind.noConfusion

namespace Site

variable {s : Site} {r : Resolver} {c : EntryCode}

/-- The type of a row is what the resolver answers to the declared type, except in the count of the
error field; and if it has no bytes, the row shows the size of its storage type. -/
theorem exists_answer_of_row (hcode : s.code.value r = .ok c) {k : Nat} {row : Row}
    (hrow : c.rows[k]? = some row) :
    ∃ sub name candidates declared, s.entry.sub? (UInt8.ofNat k) = some sub ∧
      s.dictionary.typeName? sub.typeCode = some name ∧
      r.answer name candidates = .ok declared ∧
      (row.type = if s.index = Profile.predefinedErrorField ∧ k = 0 then errorCountType
        else declared) ∧
      (row.type.kind.isByteSequence = false → row.size = .sizeOf row.type.storage) := by
  obtain ⟨value, sub, declared, -, hlt, hsub, hdeclared, htype, hsize⟩ :=
    exists_of_getElem?_rows hcode hrow
  obtain ⟨name, hname, hanswer⟩ := resolve_value_eq_ok_iff.mp hdeclared
  refine ⟨sub, name, _, declared, subEntry_eq_ok_iff.mp hsub, hname, hanswer, ?_,
    fun hkind => size_eq_of_sizeColumn hkind hsize⟩
  by_cases hcount : s.index = Profile.predefinedErrorField ∧ k = 0
  · rw [if_pos hcount, htype, rowType, hcount.2, if_pos ⟨rfl, hcount.1⟩]
  · rw [if_neg hcount, htype, rowType_eq_declared hlt hcount]

end Site

namespace Dictionary

variable {d : Dictionary} {headerName : String} {aliases : PointerAliases} {config : Config}

/-- A row that names a range is the count of the error field or has the type of a range. -/
theorem exists_range_of_row {r : Resolver} {codes : List EntryCode} {ranges : List RangeType}
    {fallbacks : List Block} {timers : Nat} {source : SourceDocument}
    (hranges : d.RangesRegistered ranges r) (hcodes : d.entryCodes.value r = .ok codes)
    (hfallbacks : d.fallbackBlocks.outcome = .ok fallbacks)
    (hsource : source = (d.documentsOf headerName aliases config ranges codes fallbacks timers).1)
    {x : Index} {rows : List Row} (hrows : source.HasRows x rows) {k : Nat} {row : Row}
    (hrow : rows[k]? = some row) {id : RangeId} (hkind : row.type.kind = .valueRange id) :
    row.size = .sizeOf row.type.storage ∧
      ((x = Profile.predefinedErrorField ∧ k = 0 ∧ row.type = errorCountType) ∨
        ∃ t ∈ ranges, row.type = t.resolved) := by
  rcases hasRows_cases hcodes hfallbacks hsource hrows with
    ⟨s, hs, c, -, rfl, hcode, -, rfl⟩ | ⟨rfl, -, rfl, -⟩
  · obtain ⟨sub, name, candidates, declared, -, -, hanswer, htype, hsize⟩ :=
      Site.exists_answer_of_row hcode hrow
    refine ⟨hsize (by rw [hkind]; rfl), ?_⟩
    split at htype
    · rename_i hcount
      exact Or.inl ⟨hcount.1, hcount.2, htype⟩
    · rcases hranges.answer_cases hanswer with ⟨_, -, t, ht, -, -, rfl, -⟩ | ⟨-, hanswer'⟩
      · exact Or.inr ⟨t, ht, htype⟩
      · exfalso
        rw [Resolver.answer_new] at hanswer'
        cases hfamily : Family.classify name with
        | none =>
          rw [hfamily] at hanswer'
          cases hanswer'
        | some family =>
          rw [hfamily] at hanswer'
          rw [htype, ← Except.ok.inj hanswer'] at hkind
          exact family.kind_resolve_ne_valueRange _ _ _ hkind
  · match k with
    | 0 =>
      cases hrow
      exact ⟨rfl, Or.inl ⟨rfl, rfl, rfl⟩⟩
    | 1 =>
      cases hrow
      cases hkind
    | k + 2 => cases hrow

/-- The indexes of the range entries, ascending. -/
def rangeIndexes (d : Dictionary) : List Index := d.rangeEntries.map Prod.fst

theorem rangeIndexes_ascending (d : Dictionary) : d.rangeIndexes.Pairwise (· < ·) := by
  unfold rangeIndexes
  rw [List.pairwise_map]
  exact d.rangeEntries_ascending.imp fun hlt => UInt16.lt_iff_toNat_lt.mpr hlt

theorem mem_rangeIndexes_iff {i : Index} :
    i ∈ d.rangeIndexes ↔
      i ≤ Profile.typeAreaEnd ∧ ∃ e, d.get? i = some e ∧ RangeName.matches? e.name = true := by
  unfold rangeIndexes
  rw [List.mem_map]
  constructor
  · rintro ⟨b, hb, rfl⟩
    obtain ⟨hle, hget, hmatches⟩ := mem_rangeEntries_iff.mp hb
    exact ⟨hle, b.2, hget, hmatches⟩
  · rintro ⟨hle, e, hget, hmatches⟩
    exact ⟨(i, e), mem_rangeEntries_iff.mpr ⟨hle, hget, hmatches⟩, rfl⟩

/-- Numbers and indexes go together. -/
theorem RangesRegistered.map_constants {ranges : List RangeType} {r : Resolver}
    (h : d.RangesRegistered ranges r) (node : String) :
    ((⟨node, ranges⟩ : RangeSection).constants.map fun c => (c.id, c.value)) =
      (.errorCount, 0x9F) :: (d.rangeIndexes.zipIdx 1).map fun b => (.numbered b.2, b.1.toNat) := by
  have hindexes : d.rangeIndexes = ranges.map RangeType.index :=
    map_eq_map_of_forall₂ h.isOf fun b t ht => ht.index.symm
  have hzip : d.rangeIndexes.zipIdx 1 = ranges.map fun t => (t.index, t.number) := by
    rw [hindexes, List.zipIdx_eq_zip_range', List.length_map, ← h.numbers, List.zip_map']
  unfold RangeSection.constants
  rw [hzip, List.map_cons, List.map_map, List.map_map]
  rfl

theorem length_rangeIndexes {ranges : List RangeType} {r : Resolver}
    (h : d.RangesRegistered ranges r) : d.rangeIndexes.length = ranges.length := by
  rw [rangeIndexes, List.length_map, h.isOf.length_eq]

/-- There is one case for a range that a row names, and it reads through the type whose size the row
shows. -/
theorem exists_case_of_row {r : Resolver} {codes : List EntryCode} {ranges : List RangeType}
    {fallbacks : List Block} {timers : Nat} {source : SourceDocument}
    (hranges : d.RangesRegistered ranges r) (hcodes : d.entryCodes.value r = .ok codes)
    (hfallbacks : d.fallbackBlocks.outcome = .ok fallbacks)
    (hsource : source = (d.documentsOf headerName aliases config ranges codes fallbacks timers).1)
    {x : Index} {rows : List Row} (hrows : source.HasRows x rows) {k : Nat} {row : Row}
    (hrow : rows[k]? = some row) {id : RangeId} (hkind : row.type.kind = .valueRange id) :
    ((id = .errorCount ∧ x = Profile.predefinedErrorField ∧ k = 0) ∨
      ∃ j, id = .numbered j ∧ 1 ≤ j ∧ j ≤ ranges.length) ∧
    ∃ c, ((⟨d.node.name, ranges⟩ : RangeSection).cases.filter fun b => b.id = id) = [c] ∧
      row.size = .sizeOf c.storage := by
  obtain ⟨hsize, ⟨hindex, hzero, htype⟩ | ⟨t, ht, htype⟩⟩ :=
    exists_range_of_row hranges hcodes hfallbacks hsource hrows hrow hkind
  · rw [htype] at hkind hsize
    cases hkind
    refine ⟨Or.inl ⟨rfl, hindex, hzero⟩, .errorCount, ?_, hsize⟩
    exact RangeSection.filter_cases hranges.numbers (c := .errorCount) List.mem_cons_self
  · rw [htype] at hkind hsize
    cases hkind
    refine ⟨Or.inr ⟨t.number, rfl, ?_⟩, t.checkCase, ?_, hsize⟩
    · exact RangeSection.number_le (s := ⟨d.node.name, ranges⟩) hranges.numbers ht
    · exact RangeSection.filter_cases hranges.numbers (c := t.checkCase)
        (List.mem_cons_of_mem _ (List.mem_map_of_mem ht))

/-- The line of a row that names a range. -/
def rangeRowSpelled (row : Row) (id : RangeId) (storage : Storage) : String :=
  "\x7b " ++ row.access.token ++ (if row.save then "|TO_BE_SAVE" else "") ++ ", " ++ id.spelled ++
    ", sizeof (" ++ storage.spelled ++ "), (void*)&" ++ row.target ++ " \x7d"

theorem spelled_eq_rangeRowSpelled {row : Row} {id : RangeId} {storage : Storage}
    (hkind : row.type.kind = .valueRange id) (hsize : row.size = .sizeOf storage) :
    row.spelled = rangeRowSpelled row id storage := by
  have hopen : ", sizeof (" = ", " ++ "sizeof (" := rfl
  have hclose : "), (void*)&" = ")" ++ ", (void*)&" := rfl
  unfold Row.spelled rangeRowSpelled
  rw [hkind, hsize, Kind.spelled, hopen, hclose]
  simp only [String.append_assoc]

/-- **Range tags.**  Let `indexes` be those of the entries of the type area that are named like
ranges, ascending.  The constants of the section are the built-in one and the numbers from 1 on,
each with its index for a value, and the cases stand in the same order; the lines of both make up
the section.  A row whose tag is the constant of a range names the built-in one, in row 0 of the
error field, or one of these numbers; there is one case for it, and the row shows the size of the
type through which this case reads the value. -/
theorem range_tags_resolve {files : DocumentPair}
    (h : (d.generate headerName aliases config).outcome = .ok files) :
    ∃ source header,
      (d.documents headerName aliases config).outcome = .ok (source, header) ∧
      files = ⟨source.text, header.text⟩ ∧
      PrintsIn (sectionText "Declaration of value range types" ++ source.ranges.spelled ++
        sectionText "The node id") source.text ∧
      ∃ indexes : List Index, indexes.Pairwise (· < ·) ∧
        (∀ i, i ∈ indexes ↔ i ≤ Profile.typeAreaEnd ∧
          ∃ e, d.get? i = some e ∧ RangeName.matches? e.name = true) ∧
        (source.ranges.constants.map fun c => (c.id, c.value)) =
          (.errorCount, 0x9F) :: (indexes.zipIdx 1).map (fun b => (.numbered b.2, b.1.toNat)) ∧
        source.ranges.cases.map RangeCase.id = source.ranges.constants.map RangeConstant.id ∧
        ∀ x rows, source.HasRows x rows →
          (∃ name, source.PrintsAt x (BlockItem.table name rows).spelled) ∧
          ∀ k row (id : RangeId), rows[k]? = some row → row.type.kind.spelled = id.spelled →
            ((id = .errorCount ∧ x = Profile.predefinedErrorField ∧ k = 0) ∨
              ∃ j, id = .numbered j ∧ 1 ≤ j ∧ j ≤ indexes.length) ∧
            ∃ c, (source.ranges.cases.filter fun b => b.id = id) = [c] ∧
              row.size = .sizeOf c.storage ∧
              row.spelled = rangeRowSpelled row id c.storage ∧
              PrintsIn ("      if (*(" ++ c.storage.spelled ++ "*)value ") c.spelledBody := by
  obtain ⟨source, header, ranges, r, codes, fallbacks, timers, hdocuments, hfiles, hranges, hcodes,
    hfallbacks, hsource⟩ := exists_stages_of_generate h
  have hregistered := rangesRegistered_of_rangeTypes hranges
  have hsection := ranges_documentsOf hsource
  refine ⟨source, header, hdocuments, hfiles, source.printsIn_ranges, d.rangeIndexes,
    d.rangeIndexes_ascending, fun i => mem_rangeIndexes_iff, ?_, ?_, ?_⟩
  · rw [hsection]
    exact hregistered.map_constants d.node.name
  · rw [RangeSection.map_id_cases, RangeSection.map_id_constants]
  intro x rows hrows
  refine ⟨hrows.printsAt, fun k row id hrow htag => ?_⟩
  have hkind : row.type.kind = .valueRange id := Kind.eq_of_spelled_eq htag
  have hchecked := exists_case_of_row hregistered hcodes hfallbacks hsource hrows hrow hkind
  rw [← hsection, ← length_rangeIndexes hregistered] at hchecked
  obtain ⟨hid, c, hcase, hsize⟩ := hchecked
  exact ⟨hid, c, hcase, hsize, spelled_eq_rangeRowSpelled hkind hsize, c.printsIn_body⟩

theorem range_tags_resolve_drive :
    ∃ source header,
      (drive.documents "Drive.h" .empty {}).outcome = .ok (source, header) ∧
      (source.ranges.constants.map fun c => (c.id, c.value)) =
        [(.errorCount, 0x9F), (.numbered 1, 0x40)] ∧
      ∀ x rows, source.HasRows x rows → ∀ k row (id : RangeId), rows[k]? = some row →
        row.type.kind.spelled = id.spelled →
          id = .errorCount ∧ x = Profile.predefinedErrorField ∧ k = 0 ∨ id = .numbered 1 := by
  obtain ⟨files, source, header, h, hdocuments, hdrive⟩ := exists_documents_drive
  obtain ⟨source', header', hdocuments', -, -, indexes, -, -, hconstants, -, hrows⟩ :=
    range_tags_resolve h
  cases hdocuments.symm.trans hdocuments'
  have hlength : indexes.length = 1 := by
    have hcount := congrArg List.length (hconstants.symm.trans hdrive.constants)
    simpa using hcount
  refine ⟨source, header, hdocuments, hdrive.constants, fun x rows htable k row id hrow htag => ?_⟩
  obtain ⟨hid, -⟩ := (hrows x rows htable).2 k row id hrow htag
  refine hid.imp_right ?_
  rintro ⟨j, rfl, hpos, hle⟩
  rw [RangeId.numbered.injEq]
  omega

/-! ### The range of a row -/

/-- The data type of a subindex is declared to be a range of the type area. -/
structure DeclaresRange (d : Dictionary) (x : Index) (k : SubIndex) (code : UInt16) (t : Entry) :
    Prop where
  sub : (d.sub? x k).map SubEntry.typeCode = some code
  standard : Profile.typeName? code = none
  area : code ≤ Profile.typeAreaEnd
  get : d.get? code = some t
  name : RangeName.matches? t.name = true

/-- The indexes of the entries of the type area that have a name. -/
def namesakes (d : Dictionary) (name : String) : Set Index :=
  {i | i ≤ Profile.typeAreaEnd ∧ ∃ e, d.get? i = some e ∧ e.name = name}

theorem DeclaresRange.typeName {x : Index} {k : SubIndex} {code : UInt16} {t : Entry}
    (h : d.DeclaresRange x k code t) : d.typeName? code = some t.name := by
  have harea : Profile.inTypeArea code = true := decide_eq_true h.area
  unfold typeName?
  rw [h.standard, harea, if_pos rfl, h.get, Option.map_some]

/-- The answer to the name of a range is the range at the greatest index that has this name. -/
theorem RangesRegistered.answer_latest {ranges : List RangeType} {r : Resolver}
    (h : d.RangesRegistered ranges r) {x : Index} {k : SubIndex} {code : UInt16} {t : Entry}
    (hdeclared : d.DeclaresRange x k code t) {candidates : List Value} {type : ResolvedType}
    (hanswer : r.answer t.name candidates = .ok type) :
    ∃ i e, ∃ range ∈ ranges, IsGreatest (d.namesakes t.name) i ∧ d.get? i = some e ∧
      range.IsOf i e ∧ type = range.resolved := by
  rcases h.answer_cases hanswer with ⟨b, hb, range, hrange, hof, hname, rfl, hlatest⟩ | ⟨hother, -⟩
  · obtain ⟨hle, hget, -⟩ := mem_rangeEntries_iff.mp hb
    refine ⟨b.1, b.2, range, hrange, ⟨⟨hle, b.2, hget, hname⟩, ?_⟩, hget, hof, rfl⟩
    rintro j ⟨hj, e, hget', hname'⟩
    have hmatches : RangeName.matches? e.name = true := by
      rw [hname']
      exact hdeclared.name
    exact hlatest (j, e) (mem_rangeEntries_iff.mpr ⟨hj, hget', hmatches⟩) hname'
  · have hmem : (code, t) ∈ d.rangeEntries :=
      mem_rangeEntries_iff.mpr ⟨hdeclared.area, hdeclared.get, hdeclared.name⟩
    exact absurd rfl (hother _ hmem)

end Dictionary

/-- A row is checked by a range: it shows the tag of the range, and the section has one constant and
one case for it. -/
structure SourceDocument.ChecksBy (source : SourceDocument) (row : Row) (range : RangeType) :
    Prop where
  kind : row.type.kind = .valueRange range.id
  constant : (source.ranges.constants.filter fun b => b.id = range.id) = [range.constant]
  checkCase : (source.ranges.cases.filter fun b => b.id = range.id) = [range.checkCase]

theorem SourceDocument.checksBy_of_mem {source : SourceDocument} {row : Row} {range : RangeType}
    (hnumbers : source.ranges.types.map RangeType.number =
      List.range' 1 source.ranges.types.length)
    (hrange : range ∈ source.ranges.types) (htype : row.type = range.resolved) :
    source.ChecksBy row range := by
  refine ⟨?_, ?_, ?_⟩
  · rw [htype]
    rfl
  · exact RangeSection.filter_constants hnumbers (c := range.constant)
      (List.mem_cons_of_mem _ (List.mem_map_of_mem hrange))
  · exact RangeSection.filter_cases hnumbers (c := range.checkCase)
      (List.mem_cons_of_mem _ (List.mem_map_of_mem hrange))

namespace Dictionary

variable {d : Dictionary} {headerName : String} {aliases : PointerAliases} {config : Config}

/-- A row whose declared type is a range has the type of the range at the greatest index that has
the same name. -/
theorem exists_latest_of_row {r : Resolver} {codes : List EntryCode} {ranges : List RangeType}
    {fallbacks : List Block} {timers : Nat} {source : SourceDocument}
    (hranges : d.RangesRegistered ranges r) (hcodes : d.entryCodes.value r = .ok codes)
    (hfallbacks : d.fallbackBlocks.outcome = .ok fallbacks)
    (hsource : source = (d.documentsOf headerName aliases config ranges codes fallbacks timers).1)
    {x : Index} {rows : List Row} (hrows : source.HasRows x rows) {k : Nat} {row : Row}
    (hrow : rows[k]? = some row) (hcount : ¬ (x = Profile.predefinedErrorField ∧ k = 0))
    {code : UInt16} {t : Entry} (hdeclared : d.DeclaresRange x (UInt8.ofNat k) code t) :
    ∃ i e, ∃ range ∈ ranges, IsGreatest (d.namesakes t.name) i ∧ d.get? i = some e ∧
      range.IsOf i e ∧ row.type = range.resolved := by
  obtain ⟨sub, hsub, hcode⟩ := Option.map_eq_some_iff.mp hdeclared.sub
  rcases hasRows_cases hcodes hfallbacks hsource hrows with
    ⟨s, hs, c, -, rfl, hs', -, rfl⟩ | ⟨-, hfree, -⟩
  · obtain ⟨rfl, -, hget⟩ := mem_sites_iff.mp hs
    obtain ⟨sub', name, candidates, declared, hsub', hname, hanswer, htype, -⟩ :=
      Site.exists_answer_of_row hs' hrow
    rw [if_neg hcount] at htype
    rw [sub?, hget, Option.bind_some, hsub'] at hsub
    cases hsub
    rw [hcode, hdeclared.typeName] at hname
    cases hname
    rw [htype]
    exact hranges.answer_latest hdeclared hanswer
  · have hnone : d.get? x = none := Option.not_isSome_iff_eq_none.mp (Bool.eq_false_iff.mp hfree)
    rw [sub?, hnone] at hsub
    cases hsub

/-- **The range of a row.**  A row whose declared type is a range of the type area is checked by the
range at the greatest index that has the same name: the constant has this index for its value, and
the case compares with the values at subindexes 2 and 3 of this entry.  So it is the declared range
itself exactly when no namesake stands behind it.  Rows, constants and cases stand in the text line
by line. -/
theorem range_of_row_is_latest {files : DocumentPair}
    (h : (d.generate headerName aliases config).outcome = .ok files) :
    ∃ source header,
      (d.documents headerName aliases config).outcome = .ok (source, header) ∧
      files = ⟨source.text, header.text⟩ ∧
      PrintsIn (sectionText "Declaration of value range types" ++ source.ranges.spelled ++
        sectionText "The node id") source.text ∧
      (∀ x rows, source.HasRows x rows →
        ∃ name, source.PrintsAt x (BlockItem.table name rows).spelled) ∧
      ∀ x rows k row code t, source.HasRows x rows → rows[k]? = some row →
        ¬ (x = Profile.predefinedErrorField ∧ k = 0) →
        d.DeclaresRange x (UInt8.ofNat k) code t →
          ∃ i range, IsGreatest (d.namesakes t.name) i ∧ source.ChecksBy row range ∧
            range.constant.value = i.toNat ∧
            (d.value? i 2).bind Bound.ofValue? = some range.minimum ∧
            (d.value? i 3).bind Bound.ofValue? = some range.maximum ∧
            (range.constant.value = code.toNat ↔ ∀ j ∈ d.namesakes t.name, j ≤ code) := by
  obtain ⟨source, header, ranges, r, codes, fallbacks, timers, hdocuments, hfiles, hranges, hcodes,
    hfallbacks, hsource⟩ := exists_stages_of_generate h
  have hregistered := rangesRegistered_of_rangeTypes hranges
  have hsection := ranges_documentsOf hsource
  refine ⟨source, header, hdocuments, hfiles, source.printsIn_ranges,
    fun x rows hrows => hrows.printsAt, ?_⟩
  intro x rows k row code t hrows hrow hcount hdeclared
  obtain ⟨i, e, range, hrange, hgreatest, hget, hof, htype⟩ :=
    exists_latest_of_row hregistered hcodes hfallbacks hsource hrows hrow hcount hdeclared
  have hvalue : range.constant.value = i.toNat := congrArg UInt16.toNat hof.index
  have hchecks : source.ChecksBy row range := by
    apply SourceDocument.checksBy_of_mem
    · rw [hsection]
      exact hregistered.numbers
    · rw [hsection]
      exact hrange
    · exact htype
  refine ⟨i, range, hgreatest, hchecks, hvalue, ?_, ?_, ?_⟩
  · rw [value?, hget]
    exact hof.minimum
  · rw [value?, hget]
    exact hof.maximum
  · rw [hvalue, UInt16.toNat_inj]
    constructor
    · rintro rfl
      exact hgreatest.2
    · intro hlast
      refine UInt16.le_antisymm (hlast i hgreatest.1) (hgreatest.2 ?_)
      exact ⟨hdeclared.area, t, hdeclared.get, rfl⟩

theorem range_of_row_is_latest_drive :
    ∃ source header rows row range,
      (drive.documents "Drive.h" .empty {}).outcome = .ok (source, header) ∧
      source.HasRows 0x2000 rows ∧ rows[0]? = some row ∧ source.ChecksBy row range ∧
      range.constant.value = 0x40 ∧ range.minimum = .integer 0 ∧ range.maximum = .integer 100 := by
  obtain ⟨files, source, header, h, hdocuments, hdrive⟩ := exists_documents_drive
  obtain ⟨source', header', hdocuments', -, -, -, hrows⟩ := range_of_row_is_latest h
  cases hdocuments.symm.trans hdocuments'
  have htable := SourceDocument.hasRows_of_items hdrive.setpoint List.mem_cons_self
  have hdeclared : drive.DeclaresRange 0x2000 (UInt8.ofNat 0) 0x40
      (.ofRange "UNSIGNED8[0-100]" 0x0005 0 100) :=
    ⟨by decide, by decide, by decide, by decide, by decide⟩
  obtain ⟨i, range, -, hchecks, hvalue, hminimum, hmaximum, howns⟩ :=
    hrows 0x2000 _ 0 _ 0x40 _ htable rfl (by decide) hdeclared
  have hlast : ∀ j ∈ drive.namesakes "UNSIGNED8[0-100]", j ≤ 0x40 := by
    rintro j ⟨hle, e, hget, hname⟩
    have hmem : j ∈ drive.rangeIndexes :=
      mem_rangeIndexes_iff.mpr ⟨hle, e, hget, by rw [hname]; decide⟩
    rw [(by decide : drive.rangeIndexes = [0x40]), List.mem_singleton] at hmem
    rw [hmem]
    exact UInt16.le_refl _
  have hown : range.constant.value = (0x40 : UInt16).toNat := howns.mpr hlast
  obtain rfl : i = 0x40 := UInt16.toNat_inj.mp (hvalue.symm.trans hown)
  exact ⟨source, header, _, _, range, hdocuments, htable, rfl, hchecks, hown,
    (Option.some.inj hminimum).symm, (Option.some.inj hmaximum).symm⟩

/-- Two ranges with one name, of which the second is narrower, and a level of the first. -/
def twins : Dictionary :=
  { node := { name := "Node" }
    entries := .ofList
      [(0x0040, .ofRange "UNSIGNED8[0-100]" 0x0005 0 100),
        (0x0041, .ofRange "UNSIGNED8[0-100]" 0x0005 0 50),
        (0x2000, .ofVariable "Level" ⟨"Level", 0x0040, .readWrite, false, false⟩
          (.unsigned 75))] }

/-- A level of the first range is checked by its narrower namesake. -/
theorem not_forall_range_of_row_is_declared :
    ¬ ∀ (d : Dictionary) (headerName : String) (aliases : PointerAliases) (config : Config)
        (source : SourceDocument) (header : HeaderDocument),
      (d.documents headerName aliases config).outcome = .ok (source, header) →
      ∀ x rows k row code t, source.HasRows x rows → rows[k]? = some row →
        ¬ (x = Profile.predefinedErrorField ∧ k = 0) →
        d.DeclaresRange x (UInt8.ofNat k) code t →
          ∃ constant ∈ source.ranges.constants,
            row.type.kind = .valueRange constant.id ∧ constant.value = code.toNat := by
  intro h
  obtain ⟨⟨source, header⟩, hdocuments⟩ := exists_eq_ok_of_isOk
    (by decide +kernel : (twins.documents "Node.h" .empty {}).outcome.isOk = true)
  have hlevel : (twins.documents "Node.h" .empty {}).outcome.toOption.map
      (fun p => ((p.1.blocks.get? 0x2000).map Block.items,
        p.1.ranges.constants.map fun c => (c.id, c.value))) =
        some (some [.table "Node_Index2000"
          [⟨.readWrite, false, ⟨.unsigned 8, none, .valueRange (.numbered 2), true⟩,
            .sizeOf (.unsigned 8), "Level"⟩]],
          [(.errorCount, 0x9F), (.numbered 1, 0x40), (.numbered 2, 0x41)]) := by
    decide +kernel
  rw [hdocuments] at hlevel
  obtain ⟨hitems, hconstants⟩ := Prod.mk.inj (Option.some.inj hlevel)
  have htable := SourceDocument.hasRows_of_items hitems List.mem_cons_self
  have hdeclared : twins.DeclaresRange 0x2000 (UInt8.ofNat 0) 0x40
      (.ofRange "UNSIGNED8[0-100]" 0x0005 0 100) :=
    ⟨by decide, by decide, by decide, by decide, by decide⟩
  obtain ⟨constant, hmem, hkind, hvalue⟩ := h twins "Node.h" .empty {} source header hdocuments
    0x2000 _ 0 _ 0x40 _ htable rfl (by decide) hdeclared
  have hpair : (constant.id, constant.value) ∈
      [(RangeId.errorCount, 0x9F), (.numbered 1, 0x40), (.numbered 2, 0x41)] := by
    rw [← hconstants]
    exact List.mem_map_of_mem hmem
  rw [← Kind.valueRange.inj hkind, hvalue] at hpair
  exact absurd hpair (by decide)

end Dictionary
end CanopenTables
