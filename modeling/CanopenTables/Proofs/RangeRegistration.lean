import CanopenTables.Proofs.RangeAcceptance

/-!
# What the ranges register

The walk over the range entries does several things for each of them: it counts, reads the bounds,
works out a base type, and registers a type under the name of the entry.  What holds after one step
(`rangeType_run_spec`) adds up along the walk (`registrations_of_walk`); `RangesRegistered` is the
sum for a whole dictionary.

The types are registered by name.  Of several entries with one name the last one answers
(`answer_registerAll`), which is the one at the greatest index (`answer_cases`).
-/

namespace CanopenTables

/-! ### Resolved types -/

/-- Integers are as wide as a type name can say, and only unsigned storage is unsigned. -/
structure ResolvedType.IsSound (type : ResolvedType) : Prop where
  width : ∀ w, type.storage = .unsigned w ∨ type.storage = .integer w → w ∈ Family.integerWidths
  unsigned : type.unsigned = true → ∃ w, type.storage = .unsigned w

namespace Family

theorem integerWidths_pos {w : Nat} (h : w ∈ integerWidths) : 0 < w := by
  have hall : ∀ w ∈ integerWidths, 0 < w := by decide
  exact hall w h

theorem mem_integerWidths_of_integerWidth {digits : List Char} {w : Nat}
    (h : integerWidth? digits = some w) : w ∈ integerWidths := by
  unfold integerWidth? at h
  exact List.contains_iff_mem.mp (Option.filter_eq_some_iff.mp h).2

theorem mem_integerWidths_of_ofParts {word : String} {digits : List Char} {family : Family}
    (h : ofParts? word digits = some family) {w : Nat}
    (hfamily : family = .unsigned w ∨ family = .integer w) : w ∈ integerWidths := by
  unfold ofParts? at h
  split_ifs at h
  all_goals rcases hfamily with rfl | rfl
  all_goals simp only [Option.map_eq_some_iff, reduceCtorEq, and_false, exists_false,
    Option.some.injEq, unsigned.injEq, integer.injEq, exists_eq_right] at h
  -- only the words for integers are left
  · exact mem_integerWidths_of_integerWidth h
  · exact mem_integerWidths_of_integerWidth h

theorem isSound_resolve {name : String} {family : Family} (h : classify name = some family)
    (n longest : Nat) : (family.resolve n longest).IsSound := by
  have hwidth {w : Nat} (hfamily : family = .unsigned w ∨ family = .integer w) :
      w ∈ integerWidths := by
    unfold classify at h
    dsimp only at h
    split at h
    · exact mem_integerWidths_of_ofParts h hfamily
    · cases h
  have hbyte : ∀ w, Storage.unsigned 8 = .unsigned w ∨ Storage.unsigned 8 = .integer w →
      w ∈ integerWidths := by
    rintro w (hw | hw)
    · cases hw
      decide
    · cases hw
  cases family with
  | unsigned width =>
    refine ⟨?_, fun _ => ⟨width, rfl⟩⟩
    rintro w (hw | hw)
    · cases hw
      exact hwidth (Or.inl rfl)
    · cases hw
  | integer width =>
    refine ⟨?_, fun hunsigned => nomatch hunsigned⟩
    rintro w (hw | hw)
    · cases hw
    · cases hw
      exact hwidth (Or.inr rfl)
  | real width =>
    refine ⟨?_, fun hunsigned => nomatch hunsigned⟩
    rintro w (hw | hw)
    · cases hw
    · cases hw
  | string declared => exact ⟨hbyte, fun hunsigned => nomatch hunsigned⟩
  | domain => exact ⟨hbyte, fun hunsigned => nomatch hunsigned⟩
  | boolean => exact ⟨hbyte, fun hunsigned => nomatch hunsigned⟩

end Family

/-! ### Several registrations -/

namespace Resolver

/-- All answers are sound types. -/
def IsSound (r : Resolver) : Prop :=
  ∀ name candidates type, r.answer name candidates = .ok type → type.IsSound

theorem isSound_new (n : Nat) : (new n).IsSound := by
  intro name candidates type h
  rw [answer_new] at h
  cases hfamily : Family.classify name with
  | none =>
    rw [hfamily] at h
    cases h
  | some family =>
    rw [hfamily] at h
    cases h
    exact Family.isSound_resolve hfamily _ _

theorem IsSound.register {r : Resolver} (h : r.IsSound) {type : ResolvedType} (htype : type.IsSound)
    (name : String) : (r.register name type).IsSound := by
  intro name' candidates type' h'
  rw [answer_register] at h'
  split at h'
  · cases h'
    exact htype
  · exact h name' candidates type' h'

/-- Registers types one after the other. -/
def registerAll (r : Resolver) (bindings : List (String × ResolvedType)) : Resolver :=
  bindings.foldl (fun r b => r.register b.1 b.2) r

theorem answer_register_congr {r r' : Resolver} (h : r.answer = r'.answer) (name : String)
    (type : ResolvedType) : (r.register name type).answer = (r'.register name type).answer := by
  funext name' candidates
  rw [answer_register, answer_register, h]

theorem answer_registerAll_congr {r r' : Resolver} (h : r.answer = r'.answer)
    (bindings : List (String × ResolvedType)) :
    (r.registerAll bindings).answer = (r'.registerAll bindings).answer := by
  induction bindings generalizing r r' with
  | nil => exact h
  | cons b bindings ih => exact ih (answer_register_congr h b.1 b.2)

/-- The last of the types with a name answers. -/
theorem answer_registerAll (r : Resolver) (bindings : List (String × ResolvedType)) (name : String)
    (candidates : List Value) :
    (∃ j type, bindings[j]? = some (name, type) ∧
        (∀ (j' : Nat) (b : String × ResolvedType), j < j' → bindings[j']? = some b → b.1 ≠ name) ∧
        (r.registerAll bindings).answer name candidates = .ok type) ∨
      (∀ b ∈ bindings, b.1 ≠ name) ∧
        (r.registerAll bindings).answer name candidates = r.answer name candidates := by
  induction bindings generalizing r with
  | nil => exact Or.inr ⟨fun b hb => absurd hb List.not_mem_nil, rfl⟩
  | cons b bindings ih =>
    rcases ih (r.register b.1 b.2) with ⟨j, type, hj, hlast, hanswer⟩ | ⟨hother, hanswer⟩
    · refine Or.inl ⟨j + 1, type, hj, fun j' b' hlt hb' => ?_, hanswer⟩
      cases j' with
      | zero => omega
      | succ j' => exact hlast j' b' (by omega) hb'
    · rw [answer_register] at hanswer
      by_cases hname : name = b.1
      · rw [if_pos hname] at hanswer
        refine Or.inl ⟨0, b.2, by simp [hname], fun j' b' hlt hb' => ?_, hanswer⟩
        obtain ⟨j', rfl⟩ := Nat.exists_eq_add_of_le' hlt
        exact hother b' (List.mem_of_getElem? hb')
      · rw [if_neg hname] at hanswer
        exact Or.inr ⟨List.forall_mem_cons.mpr ⟨fun heq => hname heq.symm, hother⟩, hanswer⟩

end Resolver

/-! ### The walk -/

/-- What a range has taken over from the entry that declares it. -/
structure RangeType.IsOf (t : RangeType) (i : Index) (e : Entry) : Prop where
  index : t.index = i
  minimum : (e.value? 2).bind Bound.ofValue? = some t.minimum
  maximum : (e.value? 3).bind Bound.ofValue? = some t.maximum
  base : t.base.IsSound

/-- What some ranges are registered as, under the names of their entries. -/
def registrations (entries : List (Index × Entry)) (ranges : List RangeType) :
    List (String × ResolvedType) :=
  List.zipWith (fun b t => (b.2.name, t.resolved)) entries ranges

namespace Dictionary

variable {d : Dictionary} {r r' : Resolver} {n : Nat}

theorem ofValue?_of_rangeBound {i : Index} {k : SubIndex} {value : Value} {bound : Bound}
    (h : rangeBound i k value = .ok bound) : Bound.ofValue? value = some bound := by
  unfold rangeBound at h
  cases hbound : Bound.ofValue? value with
  | none =>
    rw [hbound] at h
    cases h
  | some bound' =>
    rw [hbound] at h
    cases h
    rfl

/-- One step counts, reads, and registers one type. -/
theorem rangeType_run_spec {number : Nat} {i : Index} {e : Entry} {t : RangeType} (hr : r.IsSound)
    (h : ((d.rangeType number i e).run r).outcome = .ok (t, r')) :
    t.IsOf i e ∧ t.number = number ∧ r'.answer = (r.register e.name t.resolved).answer := by
  obtain ⟨_, -, baseName, -, base, r'', hbase, lower, hlower, upper, hupper, minimum, hminimum,
    maximum, hmaximum, heq⟩ := rangeType_run_eq_ok_iff.mp h
  cases heq
  have hbound {k : SubIndex} {value : Value} {bound : Bound}
      (hvalue : rangeField i e k = .ok value) (hbound : rangeBound i k value = .ok bound) :
      (e.value? k).bind Bound.ofValue? = some bound := by
    rw [rangeField_eq_ok_iff.mp hvalue]
    exact ofValue?_of_rangeBound hbound
  refine ⟨⟨rfl, hbound hlower hminimum, hbound hupper hmaximum, ?_⟩, rfl, ?_⟩
  · exact hr baseName [] base (Resolver.answer_eq_ok_iff.mpr ⟨r'', hbase⟩)
  · exact Resolver.answer_register_congr (Resolver.answer_of_resolveFor hbase) _ _

/-- From some number on, the ranges are numbered one by one and registered one by one. -/
theorem registrations_of_walk {entries : List (Index × Entry)} {number : Nat}
    {ranges : List RangeType} (hr : r.IsSound)
    (h : (((entries.zipIdx number).mapM fun ((i, e), k) => d.rangeType k i e).run r).outcome =
      .ok (ranges, r')) :
    List.Forall₂ (fun b t => t.IsOf b.1 b.2) entries ranges ∧
      ranges.map RangeType.number = List.range' number ranges.length ∧
      r'.answer = (r.registerAll (registrations entries ranges)).answer := by
  induction entries generalizing number r ranges with
  | nil =>
    cases h
    exact ⟨.nil, rfl, rfl⟩
  | cons b entries ih =>
    rw [List.zipIdx_cons] at h
    obtain ⟨t, r₁, ht, ts, r₂, hts, heq⟩ := Lowering.run_mapM_cons_eq_ok_iff.mp h
    cases heq
    obtain ⟨hof, hnumber, hanswer⟩ := rangeType_run_spec hr ht
    have hresolved : t.resolved.IsSound := ⟨hof.base.width, hof.base.unsigned⟩
    have hr₁ : r₁.IsSound := by
      unfold Resolver.IsSound
      rw [hanswer]
      exact hr.register hresolved _
    obtain ⟨hofs, hnumbers, hanswers⟩ := ih hr₁ hts
    refine ⟨.cons hof hofs, ?_, ?_⟩
    · rw [List.map_cons, List.length_cons, List.range'_succ, hnumber, hnumbers]
    · rw [hanswers]
      exact Resolver.answer_registerAll_congr hanswer _

/-- The ranges of a dictionary and the resolver after the walk. -/
structure RangesRegistered (d : Dictionary) (ranges : List RangeType) (r : Resolver) : Prop where
  isOf : List.Forall₂ (fun b t => t.IsOf b.1 b.2) d.rangeEntries ranges
  numbers : ranges.map RangeType.number = List.range' 1 ranges.length
  answer : r.answer = ((Resolver.new d.node.defaultStringSize).registerAll
    (registrations d.rangeEntries ranges)).answer

theorem rangesRegistered_of_rangeTypes {ranges : List RangeType}
    (h : (d.rangeTypes.run (Resolver.new d.node.defaultStringSize)).outcome = .ok (ranges, r)) :
    d.RangesRegistered ranges r := by
  obtain ⟨hof, hnumbers, hanswer⟩ := registrations_of_walk (Resolver.isSound_new _) h
  exact ⟨hof, hnumbers, hanswer⟩

theorem mem_rangeEntries_iff {b : Index × Entry} :
    b ∈ d.rangeEntries ↔ b.1 ≤ Profile.typeAreaEnd ∧ d.get? b.1 = some b.2 ∧
      RangeName.matches? b.2.name = true := by
  unfold rangeEntries entriesIn get?
  rw [List.mem_filter, List.mem_filter, AscendingMap.get?_eq_some_iff]
  have hzero : (0 : Index) ≤ b.1 := UInt16.le_iff_toNat_le.mpr (Nat.zero_le _)
  simp only [hzero, decide_true, Bool.true_and, decide_eq_true_iff]
  tauto

namespace RangesRegistered

variable {ranges : List RangeType} (h : d.RangesRegistered ranges r)

include h

/-- A name of ranges is answered by the range at the greatest index, and every other name as by a
resolver that knows no names. -/
theorem answer_cases {name : String} {candidates : List Value} {type : ResolvedType}
    (hanswer : r.answer name candidates = .ok type) :
    (∃ b ∈ d.rangeEntries, ∃ t ∈ ranges, t.IsOf b.1 b.2 ∧ b.2.name = name ∧ type = t.resolved ∧
        ∀ b' ∈ d.rangeEntries, b'.2.name = name → b'.1 ≤ b.1) ∨
      (∀ b ∈ d.rangeEntries, b.2.name ≠ name) ∧
        (Resolver.new d.node.defaultStringSize).answer name candidates = .ok type := by
  have hbinding {j : Nat} {b : Index × Entry} (hb : d.rangeEntries[j]? = some b) :
      ∃ t, ranges[j]? = some t ∧
        (registrations d.rangeEntries ranges)[j]? = some (b.2.name, t.resolved) := by
    obtain ⟨t, ht, -⟩ := getElem?_of_forall₂ h.isOf.flip hb
    exact ⟨t, ht, List.getElem?_zipWith_eq_some.mpr ⟨b, t, hb, ht, rfl⟩⟩
  rw [h.answer] at hanswer
  rcases Resolver.answer_registerAll (Resolver.new d.node.defaultStringSize)
      (registrations d.rangeEntries ranges) name candidates with
    ⟨j, type', hj, hlast, hanswer'⟩ | ⟨hother, hanswer'⟩
  · obtain rfl : type = type' := Except.ok.inj (hanswer.symm.trans hanswer')
    obtain ⟨b, t, hb, ht, heq⟩ := List.getElem?_zipWith_eq_some.mp hj
    cases heq
    obtain ⟨b', hb', hof⟩ := getElem?_of_forall₂ h.isOf ht
    obtain rfl : b = b' := Option.some.inj (hb.symm.trans hb')
    refine Or.inl ⟨b, List.mem_of_getElem? hb, t, List.mem_of_getElem? ht, hof, rfl, rfl, ?_⟩
    intro b' hmem hname
    obtain ⟨j', hj'⟩ := List.mem_iff_getElem?.mp hmem
    obtain ⟨t', -, hbinding'⟩ := hbinding hj'
    have hle : j' ≤ j := Nat.not_lt.mp fun hlt => hlast j' _ hlt hbinding' hname
    rcases Nat.lt_or_eq_of_le hle with hlt | rfl
    · obtain ⟨hj₁, rfl⟩ := List.getElem?_eq_some_iff.mp hj'
      obtain ⟨hj₂, rfl⟩ := List.getElem?_eq_some_iff.mp hb
      have hrank := List.pairwise_iff_getElem.mp d.rangeEntries_ascending j' j hj₁ hj₂ hlt
      exact UInt16.le_iff_toNat_le.mpr (Nat.le_of_lt hrank)
    · obtain rfl := Option.some.inj (hb.symm.trans hj')
      exact UInt16.le_refl _
  · refine Or.inr ⟨fun b hb hname => ?_, hanswer'.symm.trans hanswer⟩
    obtain ⟨j, hj⟩ := List.mem_iff_getElem?.mp hb
    obtain ⟨t, -, hbinding⟩ := hbinding hj
    exact hother _ (List.mem_of_getElem? hbinding) hname

end RangesRegistered

end Dictionary
end CanopenTables
