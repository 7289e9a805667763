import CanopenTables.Proofs.Answers
import CanopenTables.Proofs.LiteralForms
import CanopenTables.RangeType

/-!
# Which ranges are accepted

The ranges are registered one after the other, in ascending order, and a range may build on an
earlier one.  The invariant of the walk is `Resolver.KnowsRanges`: the names registered so far are
answered by value ranges, and all others by their families.  From it follow when all ranges are
worked out (`exists_rangeTypes_iff`) and what the resolver answers from then on
(`knowsRanges_of_rangeTypes`).
-/

namespace CanopenTables

namespace Resolver

/-- Some names are answered by value ranges, and all others as by a resolver that knows no names. -/
structure KnowsRanges (r : Resolver) (n : Nat) (names : List String) : Prop where
  range : ∀ name ∈ names, ∃ type id, type.kind = .valueRange id ∧
    ∀ candidates, r.answer name candidates = .ok type
  other : ∀ name, name ∉ names →
    ∀ candidates, r.answer name candidates = (new n).answer name candidates

theorem knowsRanges_new (n : Nat) : (new n).KnowsRanges n [] where
  range _ h := absurd h List.not_mem_nil
  other _ _ _ := rfl

/-- The form of the values of a type, when some names are those of ranges. -/
def form? (names : List String) (name : String) : Option LiteralForm :=
  if name ∈ names then some .integral else (Family.classify name).map Family.form

namespace KnowsRanges

variable {r r' : Resolver} {n : Nat} {names : List String}

theorem congr (h : r.KnowsRanges n names) (hanswer : r'.answer = r.answer) :
    r'.KnowsRanges n names where
  range := by
    rw [hanswer]
    exact h.range
  other := by
    rw [hanswer]
    exact h.other

theorem register (h : r.KnowsRanges n names) (name : String) {type : ResolvedType} {id : RangeId}
    (hkind : type.kind = .valueRange id) :
    (r.register name type).KnowsRanges n (names ++ [name]) where
  range name' hname' := by
    by_cases hname : name' = name
    · refine ⟨type, id, hkind, fun candidates => ?_⟩
      rw [answer_register, if_pos hname]
    · have hmem : name' ∈ names := by simpa [hname] using hname'
      obtain ⟨type', id', hkind', hanswer⟩ := h.range name' hmem
      refine ⟨type', id', hkind', fun candidates => ?_⟩
      rw [answer_register, if_neg hname]
      exact hanswer candidates
  other name' hname' candidates := by
    rw [List.mem_append, List.mem_singleton, not_or] at hname'
    rw [answer_register, if_neg hname'.2]
    exact h.other name' hname'.1 candidates

/-- A name with a form is answered by a type of that form, and a domain is as large as the longest
candidate; a name without a form is not answered. -/
theorem answer_cases (h : r.KnowsRanges n names) (name : String) (candidates : List Value) :
    (∃ type, r.answer name candidates = .ok type ∧ form? names name = some type.kind.form ∧
      (type.kind = .domain → type.size = some (longestBytes candidates))) ∨
    (∃ e, r.answer name candidates = .error e) ∧ form? names name = none := by
  unfold form?
  by_cases hname : name ∈ names
  · obtain ⟨type, id, hkind, hanswer⟩ := h.range name hname
    refine Or.inl ⟨type, hanswer candidates, ?_, fun hdomain => ?_⟩
    · rw [if_pos hname, hkind]
      rfl
    · rw [hkind] at hdomain
      cases hdomain
  · rw [if_neg hname, h.other name hname, answer_new]
    cases Family.classify name with
    | none => exact Or.inr ⟨⟨_, rfl⟩, rfl⟩
    | some family =>
      refine Or.inl ⟨_, rfl, ?_, Family.size_resolve_of_domain⟩
      rw [Family.form_resolve]
      rfl

theorem exists_answer_iff (h : r.KnowsRanges n names) (name : String) (candidates : List Value) :
    (∃ type, r.answer name candidates = .ok type) ↔
      (Family.classify name).isSome = true ∨ name ∈ names := by
  have hform : (form? names name).isSome = true ↔
      (Family.classify name).isSome = true ∨ name ∈ names := by
    unfold form?
    by_cases hname : name ∈ names
    · simp [hname]
    · simp [hname]
  rw [← hform]
  rcases h.answer_cases name candidates with ⟨type, hanswer, hsome, -⟩ | ⟨⟨e, hanswer⟩, hnone⟩
  · simp [hanswer, hsome]
  · simp [hanswer, hnone]

end KnowsRanges
end Resolver

namespace Dictionary

variable {d : Dictionary} {r : Resolver} {i : Index} {e : Entry} {n : Nat}

/-! ### One range -/

/-- A range is accepted when its base type is supported or the type of an earlier range, and both
bounds are numbers. -/
structure RangeAccepted (d : Dictionary) (i : Index) (e : Entry) : Prop where
  base : ∃ value code name, e.value? 1 = some value ∧ value.toUInt64? = some code ∧
    code.toNat < UInt16.size ∧ d.typeName? code.toUInt16 = some name ∧
      ((Family.classify name).isSome = true ∨ ∃ b ∈ d.rangeEntries, b.1 < i ∧ b.2.name = name)
  minimum : ∃ value, e.value? 2 = some value ∧ value.byteLength? = none
  maximum : ∃ value, e.value? 3 = some value ∧ value.byteLength? = none

theorem rangeField_eq_ok_iff {k : SubIndex} {value : Value} :
    rangeField i e k = .ok value ↔ e.value? k = some value := by
  unfold rangeField
  cases e.value? k with
  | none => simp
  | some value => simp

theorem rangeBaseCode_eq_ok_iff {c : UInt16} :
    rangeBaseCode i e = .ok c ↔
      ∃ value code, e.value? 1 = some value ∧ value.toUInt64? = some code ∧
        code.toNat < UInt16.size ∧ code.toUInt16 = c := by
  unfold rangeBaseCode
  rw [bind_eq_ok_iff]
  refine exists_congr fun value => ?_
  rw [rangeField_eq_ok_iff, exists_and_left]
  refine and_congr_right fun _ => ?_
  cases value.toUInt64? with
  | none => simp
  | some code =>
    dsimp only
    split
    · rename_i hcode
      simp [hcode]
    · rename_i hcode
      simp [hcode]

theorem rangeBaseName_eq_ok_iff {code : UInt16} {name : String} :
    d.rangeBaseName code = .ok name ↔ d.typeName? code = some name := by
  unfold rangeBaseName
  cases d.typeName? code with
  | none => simp
  | some name => simp

theorem exists_rangeBound_iff {k : SubIndex} {value : Value} :
    (∃ bound, rangeBound i k value = .ok bound) ↔ value.byteLength? = none := by
  unfold rangeBound
  cases value with
  | boolean b => simp [Bound.ofValue?, Value.toInt?, Value.byteLength?, Value.bytes?]
  | integer v => simp [Bound.ofValue?, Value.toInt?, Value.byteLength?, Value.bytes?]
  | unsigned v => simp [Bound.ofValue?, Value.toInt?, Value.byteLength?, Value.bytes?]
  | real x => simp [Bound.ofValue?, Value.byteLength?, Value.bytes?]
  | visibleString s => simp [Bound.ofValue?, Value.toInt?, Value.byteLength?, Value.bytes?]
  | domain bytes => simp [Bound.ofValue?, Value.toInt?, Value.byteLength?, Value.bytes?]

theorem rangeType_run_eq_ok_iff {number : Nat} {p : RangeType × Resolver} :
    ((d.rangeType number i e).run r).outcome = .ok p ↔
      ∃ code, rangeBaseCode i e = .ok code ∧ ∃ baseName, d.rangeBaseName code = .ok baseName ∧
        ∃ base r', r.resolveFor baseName [] = .ok (base, r') ∧
          ∃ lower, rangeField i e 2 = .ok lower ∧ ∃ upper, rangeField i e 3 = .ok upper ∧
            ∃ minimum, rangeBound i 2 lower = .ok minimum ∧
              ∃ maximum, rangeBound i 3 upper = .ok maximum ∧
                (⟨number, i, base, minimum, maximum⟩,
                  r'.register e.name { base with kind := .valueRange (.numbered number) }) =
                  p := by
  unfold rangeType
  rw [Lowering.run_liftM_bind, bind_eq_ok_iff]
  refine exists_congr fun code => and_congr_right fun _ => ?_
  rw [Lowering.run_liftM_bind, bind_eq_ok_iff]
  refine exists_congr fun baseName => and_congr_right fun _ => ?_
  rw [Lowering.run_bind_eq_ok_iff]
  refine exists_congr fun base => exists_congr fun r' => and_congr Iff.rfl ?_
  rw [Lowering.run_register_bind, Lowering.run_liftM_bind, bind_eq_ok_iff]
  refine exists_congr fun lower => and_congr_right fun _ => ?_
  rw [Lowering.run_liftM_bind, bind_eq_ok_iff]
  refine exists_congr fun upper => and_congr_right fun _ => ?_
  rw [Lowering.run_liftM_bind, bind_eq_ok_iff]
  refine exists_congr fun minimum => and_congr_right fun _ => ?_
  rw [Lowering.run_liftM_bind, bind_eq_ok_iff]
  refine exists_congr fun maximum => and_congr_right fun _ => ?_
  rw [Lowering.run_report_bind]
  show (Except.ok _ : Except GenerationError _) = .ok p ↔ _
  rw [Except.ok.injEq]

/-! ### All ranges -/

theorem knowsRanges_of_rangeType {names : List String} (hr : r.KnowsRanges n names) {number : Nat}
    {p : RangeType × Resolver} (h : ((d.rangeType number i e).run r).outcome = .ok p) :
    p.2.KnowsRanges n (names ++ [e.name]) := by
  obtain ⟨_, -, _, -, base, r', hbase, _, -, _, -, _, -, _, -, rfl⟩ := rangeType_run_eq_ok_iff.mp h
  exact (hr.congr (Resolver.answer_of_resolveFor hbase)).register e.name rfl

/-- One range is worked out when it is accepted, provided that the resolver knows the ranges at
smaller indexes. -/
theorem exists_rangeType_iff {names : List String} (hr : r.KnowsRanges n names)
    (hnames : ∀ name, name ∈ names ↔ ∃ b ∈ d.rangeEntries, b.1 < i ∧ b.2.name = name)
    (number : Nat) :
    (∃ p, ((d.rangeType number i e).run r).outcome = .ok p) ↔ d.RangeAccepted i e := by
  constructor
  · rintro ⟨p, h⟩
    obtain ⟨_, hbaseCode, name, hname, base, r', hbase, lower, hlower, upper, hupper, minimum,
      hminimum, maximum, hmaximum, -⟩ := rangeType_run_eq_ok_iff.mp h
    obtain ⟨value, code, hvalue, hcode, hlt, rfl⟩ := rangeBaseCode_eq_ok_iff.mp hbaseCode
    have hanswer : ∃ type, r.answer name [] = .ok type :=
      ⟨base, Resolver.answer_eq_ok_iff.mpr ⟨r', hbase⟩⟩
    exact
      { base := ⟨value, code, name, hvalue, hcode, hlt, rangeBaseName_eq_ok_iff.mp hname,
          ((hr.exists_answer_iff name []).mp hanswer).imp_right (hnames name).mp⟩
        minimum := ⟨lower, rangeField_eq_ok_iff.mp hlower,
          exists_rangeBound_iff.mp ⟨minimum, hminimum⟩⟩
        maximum := ⟨upper, rangeField_eq_ok_iff.mp hupper,
          exists_rangeBound_iff.mp ⟨maximum, hmaximum⟩⟩ }
  · rintro ⟨⟨value, code, name, hvalue, hcode, hlt, hname, hbase⟩, ⟨lower, hlower, hminimum⟩,
      ⟨upper, hupper, hmaximum⟩⟩
    obtain ⟨base, hanswer⟩ :=
      (hr.exists_answer_iff name []).mpr (hbase.imp_right (hnames name).mpr)
    obtain ⟨r', hresolve⟩ := Resolver.answer_eq_ok_iff.mp hanswer
    obtain ⟨minimum, hminimum⟩ := exists_rangeBound_iff.mpr hminimum
    obtain ⟨maximum, hmaximum⟩ := exists_rangeBound_iff.mpr hmaximum
    exact ⟨_, rangeType_run_eq_ok_iff.mpr
      ⟨code.toUInt16, rangeBaseCode_eq_ok_iff.mpr ⟨value, code, hvalue, hcode, hlt, rfl⟩, name,
        rangeBaseName_eq_ok_iff.mpr hname, base, r', hresolve, lower,
        rangeField_eq_ok_iff.mpr hlower, upper, rangeField_eq_ok_iff.mpr hupper, minimum, hminimum,
        maximum, hmaximum, rfl⟩⟩

theorem rangeEntries_ascending (d : Dictionary) :
    d.rangeEntries.Pairwise fun a b => rank a.1 < rank b.1 :=
  (d.entries.ascending.filter _).filter _

/-- The names of the ranges, by index. -/
def rangeNames (d : Dictionary) : List String := d.rangeEntries.map fun b => b.2.name

/-- In the walk, the ranges passed before are those at smaller indexes. -/
theorem mem_names_before_iff {before after : List (Index × Entry)} {b : Index × Entry}
    (hsplit : before ++ b :: after = d.rangeEntries) (name : String) :
    name ∈ before.map (fun a => a.2.name) ↔
      ∃ a ∈ d.rangeEntries, a.1 < b.1 ∧ a.2.name = name := by
  have hascending := d.rangeEntries_ascending
  rw [← hsplit, List.pairwise_append, List.pairwise_cons] at hascending
  obtain ⟨-, ⟨hafter, -⟩, hbefore⟩ := hascending
  rw [List.mem_map, ← hsplit]
  constructor
  · rintro ⟨a, ha, rfl⟩
    exact ⟨a, List.mem_append_left _ ha, hbefore a ha b List.mem_cons_self, rfl⟩
  · rintro ⟨a, ha, hlt, rfl⟩
    have hlt' : rank a.1 < rank b.1 := hlt
    rcases List.mem_append.mp ha with ha | ha
    · exact ⟨a, ha, rfl⟩
    · exfalso
      rcases List.mem_cons.mp ha with rfl | ha
      · exact Nat.lt_irrefl _ hlt'
      · exact Nat.lt_asymm hlt' (hafter a ha)

/-- The walk from some place on: it goes through when the ranges from there on are accepted, and
then all ranges are known. -/
theorem rangeTypes_from {before after : List (Index × Entry)}
    (hsplit : before ++ after = d.rangeEntries)
    (hr : r.KnowsRanges n (before.map fun b => b.2.name)) (number : Nat) :
    ((∃ p, (((after.zipIdx number).mapM fun b =>
        d.rangeType b.2 b.1.1 b.1.2).run r).outcome = .ok p) ↔
      ∀ b ∈ after, d.RangeAccepted b.1 b.2) ∧
    ∀ p, (((after.zipIdx number).mapM fun b =>
        d.rangeType b.2 b.1.1 b.1.2).run r).outcome = .ok p →
      p.2.KnowsRanges n d.rangeNames := by
  -- on the ranges still to come; the resolver knows the names of those passed
  induction after generalizing before r number with
  | nil =>
    rw [List.append_nil] at hsplit
    refine ⟨⟨fun _ => by simp, fun _ => ⟨([], r), rfl⟩⟩, fun p h => ?_⟩
    cases h
    rw [rangeNames, ← hsplit]
    exact hr
  | cons b after ih =>
    obtain ⟨i, e⟩ := b
    have hstep := exists_rangeType_iff (e := e) hr (mem_names_before_iff hsplit) number
    have hnext : ∀ t r', ((d.rangeType number i e).run r).outcome = .ok (t, r') →
        r'.KnowsRanges n ((before ++ [(i, e)]).map fun b => b.2.name) := by
      intro t r' h
      rw [List.map_append]
      exact knowsRanges_of_rangeType hr h
    have hsplit' : (before ++ [(i, e)]) ++ after = d.rangeEntries := by
      rw [List.append_assoc]
      exact hsplit
    rw [List.zipIdx_cons]
    constructor
    · rw [List.forall_mem_cons, ← hstep]
      constructor
      · rintro ⟨p, h⟩
        obtain ⟨t, r', ht, ts, r'', hts, -⟩ := Lowering.run_mapM_cons_eq_ok_iff.mp h
        exact ⟨⟨_, ht⟩, (ih hsplit' (hnext t r' ht) (number + 1)).1.mp ⟨_, hts⟩⟩
      · rintro ⟨⟨⟨t, r'⟩, ht⟩, hafter⟩
        obtain ⟨⟨ts, r''⟩, hts⟩ := (ih hsplit' (hnext t r' ht) (number + 1)).1.mpr hafter
        exact ⟨_, Lowering.run_mapM_cons_eq_ok_iff.mpr ⟨t, r', ht, ts, r'', hts, rfl⟩⟩
    · intro p h
      obtain ⟨t, r', ht, ts, r'', hts, rfl⟩ := Lowering.run_mapM_cons_eq_ok_iff.mp h
      exact (ih hsplit' (hnext t r' ht) (number + 1)).2 (ts, r'') hts

theorem exists_rangeTypes_iff (d : Dictionary) (n : Nat) :
    (∃ p, (d.rangeTypes.run (Resolver.new n)).outcome = .ok p) ↔
      ∀ b ∈ d.rangeEntries, d.RangeAccepted b.1 b.2 :=
  (rangeTypes_from (List.nil_append _) (Resolver.knowsRanges_new n) 1).1

theorem knowsRanges_of_rangeTypes {ranges : List RangeType}
    (h : (d.rangeTypes.run (Resolver.new n)).outcome = .ok (ranges, r)) :
    r.KnowsRanges n d.rangeNames :=
  (rangeTypes_from (List.nil_append _) (Resolver.knowsRanges_new n) 1).2 _ h

end Dictionary
end CanopenTables
