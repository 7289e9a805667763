import CanopenTables.Proofs.TwoRuns
import Mathlib.Data.Finset.Card

/-!
# What a history of insertions leaves behind

A dictionary starts without entries, and entries are inserted one after the other.  Of such a
history only the last insertion at each index counts (`LastAt`): each insertion adds its own to what
the dictionary reflects and takes away at its index only (`Dictionary.Records.insert`), so a whole
history is reflected (`Dictionary.records_afterInsertions`).

* The **indexes** are those of the history in ascending order, each once.
* An **interval** of them is the middle of three parts: below, inside and above.  As they ascend,
  the parts follow each other (`eq_filter_append_filter`).
* The **answers** about an index depend on its last entry only, and the name of a standard type
  code depends on nothing that was inserted.

Main statement: `Dictionary.afterInsertions_reflects`.  An interval that ends before it begins is
refused only if there is something to search: `Dictionary.not_forall_reversed_refused`.
-/

namespace CanopenTables

/-- A list falls into two when no member of the second sort stands before one of the first. -/
theorem eq_filter_append_filter {α : Type} {sort : α → Bool} {l : List α}
    (h : l.Pairwise fun a b => sort b = true → sort a = true) :
    l = l.filter sort ++ l.filter fun a => !sort a := by
  induction l with
  | nil => rfl
  | cons a rest ih =>
    obtain ⟨ha, hrest⟩ := List.pairwise_cons.mp h
    by_cases hsort : sort a = true
    · rw [List.filter_cons_of_pos hsort, List.filter_cons_of_neg (by simp [hsort]),
        List.cons_append, ← ih hrest]
    · -- Behind the first member of the second sort all are of that sort.
      have hnone : rest.filter sort = [] :=
        List.filter_eq_nil_iff.mpr fun b hb hb' => hsort (ha b hb hb')
      have hall : rest.filter (fun a => !sort a) = rest :=
        List.filter_eq_self.mpr fun b hb => by
          simpa using fun hb' => hsort (ha b hb hb')
      rw [List.filter_cons_of_neg hsort, List.filter_cons_of_pos (by simp [hsort]), hnone, hall,
        List.nil_append]

/-- An entry was inserted at an index, and none was inserted there after it. -/
def LastAt (insertions : List (Index × Entry)) (i : Index) (e : Entry) : Prop :=
  ∃ before after, insertions = before ++ (i, e) :: after ∧ ∀ b ∈ after, b.1 ≠ i

namespace Dictionary

variable {d : Dictionary} {node : Node} {insertions : List (Index × Entry)} {i : Index} {e : Entry}

/-! ### Last entries -/

theorem lastInserted?_concat (insertions : List (Index × Entry)) (i j : Index) (e : Entry) :
    lastInserted? (insertions ++ [(i, e)]) j =
      if j = i then some e else lastInserted? insertions j := by
  unfold lastInserted?
  rw [List.reverse_append, List.reverse_singleton, List.singleton_append, List.lookup_cons]
  by_cases hj : j = i
  · simp [hj]
  · simp [hj, beq_eq_false_iff_ne.mpr hj]

theorem lastInserted?_eq_some_iff :
    lastInserted? insertions i = some e ↔ LastAt insertions i e := by
  unfold lastInserted? LastAt
  rw [List.lookup_eq_some_iff]
  constructor
  · rintro ⟨after, before, heq, hafter⟩
    refine ⟨before.reverse, after.reverse, ?_, fun b hb => ?_⟩
    · rw [← List.reverse_reverse insertions, heq]
      simp
    · have hne : i ≠ b.1 := by simpa using hafter b (List.mem_reverse.mp hb)
      exact hne.symm
  · rintro ⟨before, after, rfl, hafter⟩
    refine ⟨after.reverse, before.reverse, by simp, fun b hb => ?_⟩
    simpa using (hafter b (List.mem_reverse.mp hb)).symm

theorem lastInserted?_eq_none_iff :
    lastInserted? insertions i = none ↔ ∀ e, (i, e) ∉ insertions := by
  unfold lastInserted?
  rw [List.lookup_eq_none_iff]
  constructor
  · intro h e he
    simpa using h (i, e) (List.mem_reverse.mpr he)
  · rintro h ⟨j, e⟩ hmem
    have hne : i ≠ j := by
      rintro rfl
      exact h e (List.mem_reverse.mp hmem)
    simpa using hne

/-! ### One insertion, and a history of them -/

/-- A dictionary holds at each index what a history has put there last. -/
def Records (d : Dictionary) (insertions : List (Index × Entry)) : Prop :=
  ∀ i, d.get? i = lastInserted? insertions i

theorem records_empty (node : Node) : ({ node := node } : Dictionary).Records [] := fun _ => rfl

/-- An insertion is recorded as the last one. -/
theorem Records.insert (h : d.Records insertions) (i : Index) (e : Entry) :
    (d.insert i e).Records (insertions ++ [(i, e)]) := by
  intro j
  have hrank : rank j = rank i ↔ j = i := ⟨Ranked.rank_injective, congrArg rank⟩
  rw [lastInserted?_concat, ← h j]
  show (d.entries.insert i e).get? j = _
  rw [AscendingMap.get?_insert]
  simp only [hrank]
  rfl

/-- The dictionary of a node into which entries were inserted one after the other. -/
def afterInsertions (node : Node) (insertions : List (Index × Entry)) : Dictionary :=
  insertions.foldl (fun d b => d.insert b.1 b.2) { node := node }

theorem records_afterInsertions (node : Node) (insertions : List (Index × Entry)) :
    (afterInsertions node insertions).Records insertions := by
  induction insertions using List.reverseRecOn with
  | nil => exact records_empty node
  | append_singleton insertions b ih =>
    show (afterInsertions node (insertions ++ [b])).Records (insertions ++ [b])
    unfold afterInsertions
    rw [List.foldl_concat]
    exact ih.insert b.1 b.2

/-- Reporting the insertions makes no difference to what they leave behind. -/
theorem insertAllReported_eq_afterInsertions (node : Node) (insertions : List (Index × Entry)) :
    (({ node := node } : Dictionary).insertAllReported insertions).outcome =
      .ok (afterInsertions node insertions) := by
  have hfold (d : Dictionary) : { d with entries := d.entries.insertAll insertions } =
      insertions.foldl (fun d b => d.insert b.1 b.2) d := by
    induction insertions generalizing d with
    | nil => rfl
    | cons b rest ih => exact ih (d.insert b.1 b.2)
  rw [insertAllReported_outcome, hfold]
  rfl

/-! ### Indexes -/

theorem indexes_ascending (d : Dictionary) : d.indexes.Pairwise (· < ·) :=
  d.entries.keys_ascending.imp UInt16.lt_iff_toNat_lt.mpr

theorem Records.mem_indexes_iff (h : d.Records insertions) :
    i ∈ d.indexes ↔ ∃ e, (i, e) ∈ insertions := by
  have hmem : i ∈ d.indexes ↔ (lastInserted? insertions i).isSome := by
    rw [← h i]
    exact AscendingMap.mem_keys_iff
  rw [hmem, Option.isSome_iff_ne_none, ne_eq, lastInserted?_eq_none_iff]
  simp

theorem Records.size_eq (h : d.Records insertions) :
    d.size = (insertions.map (·.1)).toFinset.card := by
  have hnodup : d.indexes.Nodup := d.indexes_ascending.imp UInt16.ne_of_lt
  have hindexes : d.indexes.toFinset = (insertions.map (·.1)).toFinset := by
    ext i
    simp [h.mem_indexes_iff]
  rw [← hindexes, List.toFinset_card_of_nodup hnodup]
  exact d.entries.size_eq_length_keys

theorem Records.indexes_eq_nil_iff (h : d.Records insertions) :
    d.indexes = [] ↔ insertions = [] := by
  simp only [List.eq_nil_iff_forall_not_mem, h.mem_indexes_iff, Prod.forall]
  simp

/-- Some indexes are cut into those below an interval, those inside and those above. -/
structure CutAt (indexes : List Index) (first last : Index) (inside : List Index) : Prop where
  split : ∃ below above, indexes = below ++ inside ++ above ∧ (∀ i ∈ below, i < first) ∧
    ∀ i ∈ above, last < i
  between : ∀ i ∈ inside, first ≤ i ∧ i ≤ last

theorem cutAt_indexesIn (d : Dictionary) (first last : Index) :
    CutAt d.indexes first last (d.indexesIn first last) := by
  have hinside : (d.indexes.filter fun i => !decide (i < first)).filter (fun i => decide (i ≤ last))
      = d.indexesIn first last := by
    unfold indexesIn
    rw [List.filter_filter]
    refine List.filter_congr fun i _ => ?_
    simp [Bool.and_comm, ← UInt16.not_lt]
  have hbelow := @eq_filter_append_filter _ (fun i => decide (i < first)) d.indexes
    (d.indexes_ascending.imp fun hlt => by simpa using UInt16.lt_trans hlt)
  have habove := @eq_filter_append_filter _ (fun i => decide (i ≤ last))
    (d.indexes.filter fun i => !decide (i < first))
    ((d.indexes_ascending.filter _).imp fun hlt => by
      simpa using UInt16.le_trans (UInt16.le_of_lt hlt))
  rw [habove, hinside, ← List.append_assoc] at hbelow
  refine ⟨⟨_, _, hbelow, fun i hi => ?_, fun i hi => ?_⟩, fun i hi => ?_⟩
  · simpa using (List.mem_filter.mp hi).2
  · simpa [UInt16.not_le] using (List.mem_filter.mp hi).2
  · simpa using (List.mem_filter.mp hi).2

/-- An interval that ends before it begins is refused as soon as something was inserted. -/
theorem Records.indexesIn?_eq_none_iff (h : d.Records insertions) (first last : Index) :
    d.indexesIn? first last = none ↔ last < first ∧ insertions ≠ [] := by
  simp [indexesIn?, h.indexes_eq_nil_iff, UInt16.not_le]

/-! ### Answers -/

/-- What a dictionary answers about an index, as a function of an entry that may be there. -/
structure AnswersFor (d : Dictionary) (i : Index) (last : Option Entry) : Prop where
  get? : d.get? i = last
  contains : d.contains i = last.isSome
  sub? : ∀ k, d.sub? i k = last.bind (·.sub? k)
  value? : ∀ k, d.value? i k = last.bind (·.value? k)
  hasCallbacks : d.hasCallbacks i = last.any (·.hasCallbacks)

theorem answersFor_get? (d : Dictionary) (i : Index) : d.AnswersFor i (d.get? i) :=
  ⟨rfl, rfl, fun _ => rfl, fun _ => rfl, rfl⟩

/-- The names of type codes, as a function of the entries of the type area. -/
structure TypeNames (d : Dictionary) (last : Index → Option Entry) : Prop where
  standard : ∀ code name, Profile.typeName? code = some name → d.typeName? code = some name
  custom : ∀ code, Profile.typeName? code = none → code ≤ 0x0260 →
    d.typeName? code = (last code).map (·.name)
  absent : ∀ code, Profile.typeName? code = none → 0x0260 < code → d.typeName? code = none

theorem Records.typeNames (h : d.Records insertions) :
    d.TypeNames (lastInserted? insertions) := by
  have hinTypeArea (code : Index) : Profile.inTypeArea code = true ↔ code ≤ 0x0260 := by
    rw [Profile.inTypeArea, Profile.typeAreaEnd, decide_eq_true_iff]
  constructor
  · intro code name hname
    rw [typeName?, hname]
  · intro code hnone hle
    rw [typeName?, hnone, ← h code]
    exact if_pos ((hinTypeArea code).mpr hle)
  · intro code hnone hlt
    rw [typeName?, hnone]
    exact if_neg fun hle => UInt16.not_lt.mpr ((hinTypeArea code).mp hle) hlt

/-! ### Whole histories -/

/-- What can be seen of a history in the dictionary that it leaves behind. -/
structure Reflects (d : Dictionary) (insertions : List (Index × Entry)) : Prop where
  /-- The indexes ascend, and they are those of the history. -/
  ascending : d.indexes.Pairwise (· < ·)
  mem_indexes : ∀ i, i ∈ d.indexes ↔ ∃ e, (i, e) ∈ insertions
  size : d.size = (insertions.map (·.1)).toFinset.card
  /-- The entry at an index is the last one that was inserted there. -/
  last : ∀ i e, d.get? i = some e ↔ LastAt insertions i e
  /-- An interval is answered with the indexes inside. -/
  interval : ∀ first last, first ≤ last → ∃ inside, d.indexesIn? first last = some inside ∧
    CutAt d.indexes first last inside
  reversed : ∀ first last, last < first →
    d.indexesIn? first last = if insertions = [] then some [] else none
  /-- Nothing but the last entry at an index has an influence on what is answered about it. -/
  answers : ∀ i, d.AnswersFor i (lastInserted? insertions i)
  typeNames : d.TypeNames (lastInserted? insertions)

theorem Records.reflects (h : d.Records insertions) : d.Reflects insertions where
  ascending := d.indexes_ascending
  mem_indexes _ := h.mem_indexes_iff
  size := h.size_eq
  last i e := by rw [h i, lastInserted?_eq_some_iff]
  interval first last hle := ⟨_, if_pos (.inl hle), d.cutAt_indexesIn first last⟩
  reversed first last hlt := by
    split
    · rename_i hnil
      have hindexes := h.indexes_eq_nil_iff.mpr hnil
      rw [indexesIn?, if_pos (.inr hindexes), indexesIn, hindexes]
      rfl
    · rename_i hne
      exact (h.indexesIn?_eq_none_iff first last).mpr ⟨hlt, hne⟩
  answers i := by
    rw [← h i]
    exact d.answersFor_get? i
  typeNames := h.typeNames

/-- After any insertions a dictionary reflects their history, and no later insertion changes the
meaning of a standard type code. -/
theorem afterInsertions_reflects (node : Node) (insertions : List (Index × Entry)) :
    (({ node := node } : Dictionary).insertAllReported insertions).outcome =
      .ok (afterInsertions node insertions) ∧
    (afterInsertions node insertions).Reflects insertions ∧
    ∀ later code, Profile.typeName? code ≠ none →
      (afterInsertions node (insertions ++ later)).typeName? code =
        (afterInsertions node insertions).typeName? code := by
  refine ⟨insertAllReported_eq_afterInsertions node insertions,
    (records_afterInsertions node insertions).reflects, fun later code hstandard => ?_⟩
  obtain ⟨name, hname⟩ := Option.ne_none_iff_exists'.mp hstandard
  have hnamed (insertions : List (Index × Entry)) :
      (afterInsertions node insertions).typeName? code = some name :=
    (records_afterInsertions node insertions).typeNames.standard code name hname
  rw [hnamed, hnamed]

/-- The history in which a first version of a setpoint is replaced. -/
theorem afterInsertions_reflects_drafted :
    let d := afterInsertions { name := "Drive" } draftedInsertions
    d.get? 0x2000 = some (setpoint "Setpoint") ∧ d.size = 2 ∧
    (∃ inside, d.indexesIn? 0x0040 0x1000 = some inside ∧
      CutAt d.indexes 0x0040 0x1000 inside) ∧
    d.indexesIn? 0x1000 0x0040 = none ∧
    d.typeName? 0x0040 = some "UNSIGNED8[0-100]" ∧
    (afterInsertions { name := "Drive" }
      (draftedInsertions ++ [(0x0005, setpoint "Other")])).typeName? 0x0005 =
        d.typeName? 0x0005 := by
  intro d
  obtain ⟨-, h, hstandard⟩ := afterInsertions_reflects { name := "Drive" } draftedInsertions
  have hlast : LastAt draftedInsertions 0x2000 (setpoint "Setpoint") :=
    ⟨draftedInsertions.take 2, [], rfl, by simp⟩
  refine ⟨(h.last _ _).mpr hlast, ?_, h.interval _ _ (by decide), ?_, ?_, ?_⟩
  · rw [h.size]
    decide
  · exact h.reversed _ _ (by decide)
  · exact h.typeNames.custom 0x0040 (by decide) (by decide)
  · exact hstandard _ 0x0005 (by decide)

/-- Not every interval that ends before it begins is refused: without entries there is nothing to
search. -/
theorem not_forall_reversed_refused :
    ¬∀ (node : Node) (insertions : List (Index × Entry)) (first last : Index), last < first →
      (afterInsertions node insertions).indexesIn? first last = none := by
  intro h
  exact absurd (h {} [] 2 1 (by decide)) (by decide)

end Dictionary
end CanopenTables
