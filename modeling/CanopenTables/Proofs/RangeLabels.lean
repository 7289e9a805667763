import CanopenTables.Proofs.RangeTags

/-!
# The labels of the check routine

The check routine is told by a byte which range a value belongs to, and a switch enters the case
whose constant has this value.  The constant of a range is the index of its entry, so the labels are
0x9F for the built-in range and, in ascending order, the indexes of the range entries.

* Two labels are equal only if a range entry lies **at 0x9F**; C refuses such a switch.
* A range entry **beyond 0xFF** has a label that is no byte, and its case is never entered.

The type area reaches up to 0x260, so there can be entries of both sorts
(`not_forall_labels_apart`).  In all other dictionaries every case can be entered:
`range_cases_entered_iff`.
-/

namespace CanopenTables

namespace RangeSection

variable {s : RangeSection}

/-- The label that a range has in the switch: the value of its constant. -/
def label? (s : RangeSection) (id : RangeId) : Option Nat :=
  (s.constants.find? fun k => k.id = id).map RangeConstant.value

/-- The cases that have the label of a byte.  The switch enters them if there is one. -/
def entered (s : RangeSection) (typeValue : UInt8) : List RangeCase :=
  s.cases.filter fun c => s.label? c.id = some typeValue.toNat

/-- A case that can be entered has a byte for a label, and no other case has the same. -/
theorem label?_of_entered {c : RangeCase} {v : UInt8} (hv : s.entered v = [c]) :
    s.label? c.id = some v.toNat ∧
      (s.cases.filter fun b => s.label? b.id = s.label? c.id) = [c] := by
  have hmem : c ∈ s.entered v := by simp [hv]
  have hlabel : s.label? c.id = some v.toNat := by simpa using (List.mem_filter.mp hmem).2
  refine ⟨hlabel, ?_⟩
  rw [hlabel]
  exact hv

section numbered

variable (h : s.types.map RangeType.number = List.range' 1 s.types.length)

include h

theorem label?_of_mem {k : RangeConstant} (hk : k ∈ s.constants) :
    s.label? k.id = some k.value := by
  unfold label?
  rw [← List.head?_filter, filter_constants h hk]
  rfl

theorem map_label?_cases :
    (s.cases.map fun c => s.label? c.id) =
      (s.constants.map RangeConstant.value).map some := by
  have hids : s.cases.map RangeCase.id = s.constants.map RangeConstant.id := by
    rw [map_id_cases, map_id_constants]
  have hlabels := congrArg (List.map s.label?) hids
  rw [List.map_map, List.map_map] at hlabels
  refine hlabels.trans ?_
  rw [List.map_map]
  apply List.map_congr_left
  intro k hk
  exact label?_of_mem h hk

theorem forall_entered_iff :
    (∀ c ∈ s.cases, ∃ v, s.entered v = [c]) ↔
      (s.constants.map RangeConstant.value).Nodup ∧ ∀ k ∈ s.constants, k.value ≤ 0xFF := by
  have hlabels := map_label?_cases h
  constructor
  · intro hentered
    constructor
    · apply List.Nodup.of_map some
      rw [← hlabels]
      apply nodup_of_filter_eq_singleton
      intro c hc
      obtain ⟨v, hv⟩ := hentered c hc
      exact (label?_of_entered hv).2
    · intro k hk
      have hmem : some k.value ∈ s.cases.map fun c => s.label? c.id := by
        rw [hlabels]
        exact List.mem_map_of_mem (List.mem_map_of_mem hk)
      obtain ⟨c, hc, hvalue⟩ := List.mem_map.mp hmem
      obtain ⟨v, hv⟩ := hentered c hc
      have hlabel := (label?_of_entered hv).1
      have hlt := v.toNat_lt
      have heq : k.value = v.toNat := Option.some.inj (hvalue.symm.trans hlabel)
      omega
  · rintro ⟨hnodup, hfits⟩ c hc
    have hmem : s.label? c.id ∈ (s.constants.map RangeConstant.value).map some := by
      rw [← hlabels]
      exact List.mem_map_of_mem hc
    obtain ⟨value, hvalue, hlabel⟩ := List.mem_map.mp hmem
    obtain ⟨k, hk, rfl⟩ := List.mem_map.mp hvalue
    have hle := hfits k hk
    have htoNat : (UInt8.ofNat k.value).toNat = k.value :=
      UInt8.toNat_ofNat_of_lt' (by show k.value < 256; omega)
    refine ⟨UInt8.ofNat k.value, ?_⟩
    unfold entered
    rw [htoNat, hlabel]
    apply filter_eq_singleton_of_nodup (f := fun b => s.label? b.id) ?_ hc
    rw [hlabels]
    exact hnodup.map fun _ _ heq => Option.some.inj heq

end numbered
end RangeSection

namespace Dictionary

variable {d : Dictionary} {headerName : String} {aliases : PointerAliases} {config : Config}

theorem RangesRegistered.map_value_constants {ranges : List RangeType} {r : Resolver}
    (h : d.RangesRegistered ranges r) (node : String) :
    (⟨node, ranges⟩ : RangeSection).constants.map RangeConstant.value =
      0x9F :: d.rangeIndexes.map UInt16.toNat := by
  have hpairs := congrArg (List.map Prod.snd) (h.map_constants node)
  rw [List.map_map, List.map_cons, List.map_map] at hpairs
  have hindexes : (d.rangeIndexes.zipIdx 1).map (fun b => b.1.toNat) =
      d.rangeIndexes.map UInt16.toNat := by
    rw [← List.zipIdx_map_fst 1 d.rangeIndexes, List.map_map, List.zipIdx_map_fst]
    rfl
  rw [← hindexes]
  exact hpairs

/-- The labels are distinct unless a range entry lies where the built-in range has its label. -/
theorem nodup_labels_iff :
    (0x9F :: d.rangeIndexes.map UInt16.toNat).Nodup ↔ (0x9F : Index) ∉ d.rangeIndexes := by
  have hindexes : (d.rangeIndexes.map UInt16.toNat).Nodup := by
    apply List.Nodup.map
    · intro i j hij
      exact UInt16.toNat_inj.mp hij
    · exact nodup_of_ascending d.rangeIndexes_ascending
  rw [List.nodup_cons, and_iff_left hindexes, not_iff_not, List.mem_map]
  constructor
  · rintro ⟨i, hi, heq⟩
    obtain rfl : i = 0x9F := UInt16.toNat_inj.mp heq
    exact hi
  · intro hi
    exact ⟨0x9F, hi, rfl⟩

theorem forall_labels_le_iff :
    (∀ n ∈ 0x9F :: d.rangeIndexes.map UInt16.toNat, n ≤ 0xFF) ↔
      ∀ i ∈ d.rangeIndexes, i ≤ 0xFF := by
  rw [List.forall_mem_cons, and_iff_right (by decide), List.forall_mem_map]
  apply forall₂_congr
  intro i _
  rw [UInt16.le_iff_toNat_le]
  rfl

/-- **Labels.**  The labels of the switch are 0x9F for the built-in range and the indexes of the
range entries, which ascend and lie in the type area.  They are distinct exactly when no range entry
lies at 0x9F, and bytes exactly when none lies beyond 0xFF.  When both hold, and only then, every
case can be entered by a byte that enters no other. -/
theorem range_cases_entered_iff {files : DocumentPair}
    (h : (d.generate headerName aliases config).outcome = .ok files) :
    ∃ source header,
      (d.documents headerName aliases config).outcome = .ok (source, header) ∧
      files = ⟨source.text, header.text⟩ ∧
      PrintsIn (sectionText "Declaration of value range types" ++ source.ranges.spelled ++
        sectionText "The node id") source.text ∧
      source.ranges.constants.map RangeConstant.value =
        0x9F :: d.rangeIndexes.map UInt16.toNat ∧
      d.rangeIndexes.Pairwise (· < ·) ∧ (∀ i ∈ d.rangeIndexes, i ≤ Profile.typeAreaEnd) ∧
      ((source.ranges.constants.map RangeConstant.value).Nodup ↔
        (0x9F : Index) ∉ d.rangeIndexes) ∧
      ((∀ k ∈ source.ranges.constants, k.value ≤ 0xFF) ↔ ∀ i ∈ d.rangeIndexes, i ≤ 0xFF) ∧
      ((∀ c ∈ source.ranges.cases, ∃ v, source.ranges.entered v = [c]) ↔
        (0x9F : Index) ∉ d.rangeIndexes ∧ ∀ i ∈ d.rangeIndexes, i ≤ 0xFF) := by
  obtain ⟨source, header, ranges, r, codes, fallbacks, timers, hdocuments, hfiles, hranges, -, -,
    hsource⟩ := exists_stages_of_generate h
  have hregistered := rangesRegistered_of_rangeTypes hranges
  have hvalues : source.ranges.constants.map RangeConstant.value =
      0x9F :: d.rangeIndexes.map UInt16.toNat := by
    rw [ranges_documentsOf hsource]
    exact hregistered.map_value_constants d.node.name
  have hnodup : (source.ranges.constants.map RangeConstant.value).Nodup ↔
      (0x9F : Index) ∉ d.rangeIndexes := by
    rw [hvalues]
    exact nodup_labels_iff
  have hfits : (∀ k ∈ source.ranges.constants, k.value ≤ 0xFF) ↔
      ∀ i ∈ d.rangeIndexes, i ≤ 0xFF := by
    rw [← forall_labels_le_iff, ← hvalues, List.forall_mem_map]
  have hentered : (∀ c ∈ source.ranges.cases, ∃ v, source.ranges.entered v = [c]) ↔
      (source.ranges.constants.map RangeConstant.value).Nodup ∧
        ∀ k ∈ source.ranges.constants, k.value ≤ 0xFF := by
    apply RangeSection.forall_entered_iff
    rw [ranges_documentsOf hsource]
    exact hregistered.numbers
  refine ⟨source, header, hdocuments, hfiles, source.printsIn_ranges, hvalues,
    d.rangeIndexes_ascending, ?_, hnodup, hfits, ?_⟩
  · intro i hi
    exact (mem_rangeIndexes_iff.mp hi).1
  · rw [hentered, hnodup, hfits]

theorem range_cases_entered_iff_drive :
    ∃ source header,
      (drive.documents "Drive.h" .empty {}).outcome = .ok (source, header) ∧
      source.ranges.constants.map RangeConstant.value = [0x9F, 0x40] ∧
      ∀ c ∈ source.ranges.cases, ∃ v, source.ranges.entered v = [c] := by
  obtain ⟨files, source, header, h, hdocuments, -⟩ := exists_documents_drive
  obtain ⟨source', header', hdocuments', -, -, hvalues, -, -, -, -, hentered⟩ :=
    range_cases_entered_iff h
  cases hdocuments.symm.trans hdocuments'
  have hindexes : drive.rangeIndexes = [0x40] := by decide
  rw [hindexes] at hvalues hentered
  exact ⟨source, header, hdocuments, hvalues, hentered.mpr ⟨by simp, by simp⟩⟩

/-- Two ranges in unusual slots of the type area: at the label of the built-in range, and beyond all
bytes. -/
def misplaced : Dictionary :=
  { node := { name := "Node" }
    entries := .ofList
      [(0x009F, .ofRange "UNSIGNED8[0-10]" 0x0005 0 10),
        (0x0100, .ofRange "UNSIGNED8[0-20]" 0x0005 0 20)] }

/-- The label 0x9F stands twice in the switch, and the label 0x100 is no byte. -/
theorem not_forall_labels_apart :
    (¬ ∀ (d : Dictionary) (headerName : String) (aliases : PointerAliases) (config : Config)
        (source : SourceDocument) (header : HeaderDocument),
      (d.documents headerName aliases config).outcome = .ok (source, header) →
        (source.ranges.constants.map RangeConstant.value).Nodup) ∧
    ¬ ∀ (d : Dictionary) (headerName : String) (aliases : PointerAliases) (config : Config)
        (source : SourceDocument) (header : HeaderDocument),
      (d.documents headerName aliases config).outcome = .ok (source, header) →
        ∀ k ∈ source.ranges.constants, k.value ≤ 0xFF := by
  obtain ⟨⟨source, header⟩, hdocuments⟩ := exists_eq_ok_of_isOk
    (by decide +kernel : (misplaced.documents "Node.h" .empty {}).outcome.isOk = true)
  have hvalues : (misplaced.documents "Node.h" .empty {}).outcome.toOption.map
      (fun p => p.1.ranges.constants.map RangeConstant.value) = some [0x9F, 0x9F, 0x100] := by
    decide +kernel
  rw [hdocuments] at hvalues
  have hconstants : source.ranges.constants.map RangeConstant.value = [0x9F, 0x9F, 0x100] :=
    Option.some.inj hvalues
  constructor
  · intro h
    have hnodup := h misplaced "Node.h" .empty {} source header hdocuments
    rw [hconstants] at hnodup
    exact absurd hnodup (by decide)
  · intro h
    have hfits := h misplaced "Node.h" .empty {} source header hdocuments
    have hmem : 0x100 ∈ source.ranges.constants.map RangeConstant.value := by simp [hconstants]
    obtain ⟨k, hk, hvalue⟩ := List.mem_map.mp hmem
    have hle := hfits k hk
    omega

end Dictionary
end CanopenTables
