import CanopenTables.Proofs.PrintedLines
import Mathlib.Order.Bounds.Defs

/-!
# What the quick index delimits

The navigation tables list the indexes of a dictionary in ascending order, so the position of an
index is the number of listed indexes below it (`getElem?_listedIndexes_eq_some_iff`), and the rows
of a category stand together.

* The **last** position of a category is that of its greatest listed index.
* The **first** position is that of its least listed index.  There is one exception: zero stands for
  a category without entries, so a category that begins in row 0 and goes on has its first position
  taken anew by row 1.

Main statement: `quickIndex_delimits`; `not_forall_quickIndex_delimits` shows the exception.
-/

namespace CanopenTables

/-! ### Positions in ascending order -/

section ascending

variable {l before after : List Index} {x y : Index} {p q : Nat}

theorem nodup_of_ascending (h : l.Pairwise (· < ·)) : l.Nodup := by
  refine h.imp fun {i j} hlt heq => ?_
  subst heq
  exact UInt16.lt_irrefl i hlt

/-- In an ascending list as many elements are below a member as stand before it. -/
theorem length_filter_lt_of_split (h : (before ++ x :: after).Pairwise (· < ·)) :
    ((before ++ x :: after).filter (· < x)).length = before.length := by
  obtain ⟨-, hafter, hbefore⟩ := List.pairwise_append.mp h
  have hbelow : before.filter (· < x) = before :=
    List.filter_eq_self.mpr fun i hi => decide_eq_true (hbefore i hi x List.mem_cons_self)
  have habove : (x :: after).filter (· < x) = [] := by
    refine List.filter_eq_nil_iff.mpr fun i hi => ?_
    rw [decide_eq_true_eq]
    rcases List.mem_cons.mp hi with rfl | hi
    · exact UInt16.lt_irrefl i
    · exact UInt16.lt_asymm ((List.pairwise_cons.mp hafter).1 i hi)
  rw [List.filter_append, hbelow, habove, List.append_nil]

theorem getElem?_eq_some_iff_of_ascending (h : l.Pairwise (· < ·)) :
    l[p]? = some x ↔ x ∈ l ∧ (l.filter (· < x)).length = p := by
  constructor
  · intro hp
    obtain ⟨hlt, hx⟩ := List.getElem?_eq_some_iff.mp hp
    have hsplit : l = l.take p ++ x :: l.drop (p + 1) := by
      rw [← hx, ← List.drop_eq_getElem_cons hlt, List.take_append_drop]
    refine ⟨List.mem_of_getElem? hp, ?_⟩
    rw [hsplit] at h ⊢
    rw [length_filter_lt_of_split h, List.length_take, Nat.min_eq_left (Nat.le_of_lt hlt)]
  · rintro ⟨hx, rfl⟩
    obtain ⟨before, after, rfl⟩ := List.append_of_mem hx
    rw [length_filter_lt_of_split h, List.getElem?_append_right (Nat.le_refl _), Nat.sub_self]
    rfl

theorem lt_of_getElem?_of_ascending (h : l.Pairwise (· < ·)) (hx : l[p]? = some x)
    (hy : l[q]? = some y) (hpq : p < q) : x < y := by
  obtain ⟨hp, rfl⟩ := List.getElem?_eq_some_iff.mp hx
  obtain ⟨hq, rfl⟩ := List.getElem?_eq_some_iff.mp hy
  exact List.pairwise_iff_getElem.mp h p q hp hq hpq

theorem le_iff_le_of_getElem? (h : l.Pairwise (· < ·)) (hx : l[p]? = some x)
    (hy : l[q]? = some y) : p ≤ q ↔ x ≤ y := by
  constructor
  · intro hpq
    rcases Nat.lt_or_eq_of_le hpq with hlt | rfl
    · exact UInt16.le_of_lt (lt_of_getElem?_of_ascending h hx hy hlt)
    · obtain rfl : x = y := Option.some.inj (hx.symm.trans hy)
      exact UInt16.le_refl x
  · intro hxy
    refine Nat.le_of_not_lt fun hlt => ?_
    exact UInt16.not_lt.mpr hxy (lt_of_getElem?_of_ascending h hy hx hlt)

end ascending

namespace Dictionary

variable {d : Dictionary} {x y : Index} {p : Nat}

/-- The number of listed indexes below an index. -/
def countBelow (d : Dictionary) (x : Index) : Nat :=
  (d.indexes.filter fun i => Profile.commAreaStart ≤ i && i < x).length

/-- The listed indexes of a category. -/
def members (d : Dictionary) (c : Category) : Set Index :=
  {i | i ∈ d.listedIndexes ∧ c.contains i = true}

theorem mem_listedIndexes_iff :
    x ∈ d.listedIndexes ↔ Profile.commAreaStart ≤ x ∧ d.contains x = true := by
  have hle : x ≤ 0xFFFF := UInt16.le_iff_toNat_le.mpr (Nat.le_of_lt_succ x.toNat_lt)
  show x ∈ d.entries.keys.filter _ ↔ _ ∧ (d.entries.get? x).isSome = true
  rw [List.mem_filter, AscendingMap.mem_keys_iff]
  simp [hle, and_comm]

theorem listedIndexes_ascending (d : Dictionary) : d.listedIndexes.Pairwise (· < ·) :=
  (d.entries.keys_ascending.filter _).imp UInt16.lt_iff_toNat_lt.mpr

theorem countBelow_eq (d : Dictionary) (x : Index) :
    d.countBelow x = (d.listedIndexes.filter (· < x)).length := by
  have hle (i : Index) : i ≤ 0xFFFF := UInt16.le_iff_toNat_le.mpr (Nat.le_of_lt_succ i.toNat_lt)
  show _ = ((d.indexes.filter _).filter _).length
  rw [List.filter_filter]
  unfold countBelow
  congr 1
  refine List.filter_congr fun i _ => ?_
  simp [hle, Bool.and_comm]

theorem getElem?_listedIndexes_eq_some_iff :
    d.listedIndexes[p]? = some x ↔ x ∈ d.listedIndexes ∧ d.countBelow x = p := by
  rw [countBelow_eq]
  exact getElem?_eq_some_iff_of_ascending d.listedIndexes_ascending

theorem getElem?_countBelow (hx : x ∈ d.listedIndexes) :
    d.listedIndexes[d.countBelow x]? = some x :=
  getElem?_listedIndexes_eq_some_iff.mpr ⟨hx, rfl⟩

theorem countBelow_of_split {before after : List Index}
    (h : d.listedIndexes = before ++ x :: after) : d.countBelow x = before.length := by
  have hascending := d.listedIndexes_ascending
  rw [h] at hascending
  rw [countBelow_eq, h, length_filter_lt_of_split hascending]

end Dictionary

theorem Navigation.getElem?_rows_eq_some_iff {node : String} {indexes : List Index}
    {callbacks : Index → Option String} {p : Nat} {row : NavigationRow} :
    (Navigation.of node indexes callbacks).rows[p]? = some row ↔
      ∃ i, indexes[p]? = some i ∧ ⟨i, Symbol.table node i⟩ = row := by
  show (indexes.map _)[p]? = some row ↔ _
  rw [List.getElem?_map, Option.map_eq_some_iff]

namespace QuickIndex

variable {c : Category} (q : QuickIndex) (c' : Category) (i : Index) (p : Nat)

/-! ### Recording -/

theorem last_record :
    (q.record c' p).last.get c = if c = c' then p else q.last.get c :=
  Positions.get_set _ _ _ _

theorem first_record :
    (q.record c' p).first.get c = if c = c' ∧ q.first.get c = 0 then p else q.first.get c := by
  unfold record
  by_cases hzero : q.first.get c' = 0
  · rw [if_pos hzero, Positions.get_set]
    by_cases hc : c = c'
    · simp [hc, hzero]
    · simp [hc]
  · rw [if_neg hzero]
    by_cases hc : c = c'
    · simp [hc, hzero]
    · simp [hc]

/-- One turn of the walk along some categories. -/
theorem last_foldl_record (cs : List Category) :
    (cs.foldl (fun q c => if c.contains i then q.record c p else q) q).last.get c =
      if c ∈ cs ∧ c.contains i = true then p else q.last.get c := by
  induction cs generalizing q with
  | nil => simp
  | cons c' cs ih =>
    rw [List.foldl_cons, ih]
    by_cases hi : c'.contains i = true
    · rw [if_pos hi, last_record]
      by_cases hc : c = c'
      · simp [hc, hi]
      · simp [hc]
    · rw [if_neg hi]
      by_cases hc : c = c'
      · simp [hc, hi]
      · simp [hc]

theorem first_foldl_record (cs : List Category) :
    (cs.foldl (fun q c => if c.contains i then q.record c p else q) q).first.get c =
      if c ∈ cs ∧ c.contains i = true ∧ q.first.get c = 0 then p else q.first.get c := by
  induction cs generalizing q with
  | nil => simp
  | cons c' cs ih =>
    rw [List.foldl_cons, ih]
    by_cases hi : c'.contains i = true
    · rw [if_pos hi, first_record]
      by_cases hc : c = c'
      · by_cases hzero : q.first.get c' = 0
        · simp [hc, hi, hzero]
        · simp [hc, hzero]
      · simp [hc]
    · rw [if_neg hi]
      by_cases hc : c = c'
      · simp [hc, hi]
      · simp [hc]

theorem mem_all (c : Category) : c ∈ Category.all := by
  cases c <;> decide

theorem last_recordIndex :
    (q.recordIndex i p).last.get c = if c.contains i = true then p else q.last.get c := by
  unfold recordIndex
  rw [last_foldl_record]
  simp [mem_all]

theorem first_recordIndex :
    (q.recordIndex i p).first.get c =
      if c.contains i = true ∧ q.first.get c = 0 then p else q.first.get c := by
  unfold recordIndex
  rw [first_foldl_record]
  simp [mem_all]

/-- The walk along the listed indexes with their positions. -/
def recordAll (q : QuickIndex) (bs : List (Index × Nat)) : QuickIndex :=
  bs.foldl (fun q b => q.recordIndex b.1 b.2) q

theorem recordAll_append (bs bs' : List (Index × Nat)) :
    q.recordAll (bs ++ bs') = (q.recordAll bs).recordAll bs' :=
  List.foldl_append

theorem recordAll_cons (b : Index × Nat) (bs : List (Index × Nat)) :
    q.recordAll (b :: bs) = (q.recordIndex b.1 b.2).recordAll bs := rfl

theorem recordAll_of_outside {bs : List (Index × Nat)}
    (h : ∀ b ∈ bs, c.contains b.1 = false) :
    (q.recordAll bs).first.get c = q.first.get c ∧ (q.recordAll bs).last.get c = q.last.get c := by
  induction bs generalizing q with
  | nil => exact ⟨rfl, rfl⟩
  | cons b bs ih =>
    obtain ⟨hb, hbs⟩ := List.forall_mem_cons.mp h
    obtain ⟨hfirst, hlast⟩ := ih (q.recordIndex b.1 b.2) hbs
    rw [recordAll_cons, hfirst, hlast, first_recordIndex, last_recordIndex]
    simp [hb]

theorem first_recordAll_of_ne_zero {bs : List (Index × Nat)} (h : q.first.get c ≠ 0) :
    (q.recordAll bs).first.get c = q.first.get c := by
  induction bs generalizing q with
  | nil => rfl
  | cons b bs ih =>
    have hstep : (q.recordIndex b.1 b.2).first.get c = q.first.get c := by
      rw [first_recordIndex, if_neg fun hb => h hb.2]
    rw [recordAll_cons, ih _ (hstep ▸ h), hstep]

theorem outside_zipIdx {l : List Index} (h : ∀ i ∈ l, c.contains i = false) (k : Nat) :
    ∀ b ∈ l.zipIdx k, c.contains b.1 = false :=
  fun _ hb => h _ (List.fst_mem_of_mem_zipIdx hb)

variable {before after : List Index} {x : Index}

/-- Behind the last member of a category its last position is that of the member. -/
theorem last_recordAll_of_split (hx : c.contains x = true)
    (hafter : ∀ i ∈ after, c.contains i = false) :
    (q.recordAll (before ++ x :: after).zipIdx).last.get c = before.length := by
  rw [List.zipIdx_append, List.zipIdx_cons, recordAll_append, recordAll_cons,
    (recordAll_of_outside _ (outside_zipIdx hafter _)).2, last_recordIndex, if_pos hx,
    Nat.zero_add]

/-- From the first member of a category on its first position is that of the member, unless this is
position zero. -/
theorem first_recordAll_of_split (hx : c.contains x = true)
    (hbefore : ∀ i ∈ before, c.contains i = false) (hne : before ≠ []) :
    (empty.recordAll (before ++ x :: after).zipIdx).first.get c = before.length := by
  have hlength : before.length ≠ 0 := fun h => hne (List.length_eq_zero_iff.mp h)
  have hstart : (empty.recordAll before.zipIdx).first.get c = 0 := by
    rw [(recordAll_of_outside _ (outside_zipIdx hbefore _)).1]
    cases c <;> rfl
  have hstep : ((empty.recordAll before.zipIdx).recordIndex x before.length).first.get c =
      before.length := by
    rw [first_recordIndex, if_pos ⟨hx, hstart⟩]
  rw [List.zipIdx_append, List.zipIdx_cons, recordAll_append, recordAll_cons, Nat.zero_add,
    first_recordAll_of_ne_zero _ (hstep.symm ▸ hlength), hstep]

theorem first_recordIndex_zero : (empty.recordIndex x 0).first.get c = 0 := by
  have hempty : empty.first.get c = 0 := by cases c <;> rfl
  rw [first_recordIndex, hempty, ite_self]

/-- A single member in row 0 leaves zero as the first position. -/
theorem first_recordAll_of_single (hafter : ∀ i ∈ after, c.contains i = false) :
    (empty.recordAll (x :: after).zipIdx).first.get c = 0 := by
  rw [List.zipIdx_cons, recordAll_cons, (recordAll_of_outside _ (outside_zipIdx hafter _)).1,
    first_recordIndex_zero]

/-- When row 1 follows row 0 in a category, it takes the first position. -/
theorem first_recordAll_of_pair {y : Index} (hy : c.contains y = true) :
    (empty.recordAll (x :: y :: after).zipIdx).first.get c = 1 := by
  have hstep : ((empty.recordIndex x 0).recordIndex y 1).first.get c = 1 := by
    rw [first_recordIndex, if_pos ⟨hy, first_recordIndex_zero⟩]
  rw [List.zipIdx_cons, List.zipIdx_cons, recordAll_cons, recordAll_cons,
    first_recordAll_of_ne_zero _ (hstep.symm ▸ Nat.one_ne_zero), hstep]

end QuickIndex

namespace Dictionary

variable {d : Dictionary} {c : Category} {x y : Index}

/-! ### Categories -/

theorem contains_of_between {i : Index} (hx : c.contains x = true) (hy : c.contains y = true)
    (hxi : x ≤ i) (hiy : i ≤ y) : c.contains i = true := by
  simp only [Category.contains, Bool.and_eq_true, decide_eq_true_eq] at hx hy ⊢
  exact ⟨UInt16.le_trans hx.1 hxi, UInt16.le_trans hiy hy.2⟩

theorem filter_contains_ascending (d : Dictionary) (c : Category) :
    (d.listedIndexes.filter c.contains).Pairwise (· < ·) :=
  d.listedIndexes_ascending.filter _

theorem isLeast_members_of_head? (h : (d.listedIndexes.filter c.contains).head? = some x) :
    IsLeast (d.members c) x := by
  obtain ⟨rest, hrest⟩ := List.head?_eq_some_iff.mp h
  have hascending := hrest ▸ d.filter_contains_ascending c
  refine ⟨List.mem_filter.mp (hrest ▸ List.mem_cons_self), fun i hi => ?_⟩
  rcases List.mem_cons.mp (hrest ▸ List.mem_filter.mpr hi) with rfl | hmem
  · exact UInt16.le_refl i
  · exact UInt16.le_of_lt ((List.pairwise_cons.mp hascending).1 i hmem)

theorem isGreatest_members_of_getLast? (h : (d.listedIndexes.filter c.contains).getLast? = some y) :
    IsGreatest (d.members c) y := by
  obtain ⟨before, hbefore⟩ := List.getLast?_eq_some_iff.mp h
  have hascending := hbefore ▸ d.filter_contains_ascending c
  have hmem (i : Index) : i ∈ d.members c ↔ i ∈ before ++ [y] := by
    rw [← hbefore, List.mem_filter]
    rfl
  refine ⟨(hmem y).mpr (List.mem_append_right _ List.mem_cons_self), fun i hi => ?_⟩
  rcases List.mem_append.mp ((hmem i).mp hi) with hi | hi
  · exact UInt16.le_of_lt ((List.pairwise_append.mp hascending).2.2 i hi y List.mem_cons_self)
  · rw [List.mem_singleton.mp hi]
    exact UInt16.le_refl y

theorem exists_isLeast_isGreatest (h : (d.members c).Nonempty) :
    ∃ x y, IsLeast (d.members c) x ∧ IsGreatest (d.members c) y := by
  obtain ⟨i, hi⟩ := h
  have hne : d.listedIndexes.filter c.contains ≠ [] := List.ne_nil_of_mem (List.mem_filter.mpr hi)
  exact ⟨_, _, isLeast_members_of_head? (List.head?_eq_some_head hne),
    isGreatest_members_of_getLast? (List.getLast?_eq_some_getLast hne)⟩

/-- The rows of a category are those from its least to its greatest listed index. -/
theorem contains_iff_between (hx : IsLeast (d.members c) x) (hy : IsGreatest (d.members c) y)
    {p : Nat} {i : Index} (hi : d.listedIndexes[p]? = some i) :
    c.contains i = true ↔ d.countBelow x ≤ p ∧ p ≤ d.countBelow y := by
  have hxp := le_iff_le_of_getElem? d.listedIndexes_ascending (getElem?_countBelow hx.1.1) hi
  have hpy := le_iff_le_of_getElem? d.listedIndexes_ascending hi (getElem?_countBelow hy.1.1)
  rw [hxp, hpy]
  constructor
  · intro hc
    have hmem : i ∈ d.members c := ⟨List.mem_of_getElem? hi, hc⟩
    exact ⟨hx.2 hmem, hy.2 hmem⟩
  · rintro ⟨hxi, hiy⟩
    exact contains_of_between hx.1.2 hy.1.2 hxi hiy

theorem outside_before (hx : IsLeast (d.members c) x) {before after : List Index}
    (h : d.listedIndexes = before ++ x :: after) : ∀ i ∈ before, c.contains i = false := by
  intro i hi
  have hascending := d.listedIndexes_ascending
  rw [h] at hascending
  have hlt : i < x := (List.pairwise_append.mp hascending).2.2 i hi x List.mem_cons_self
  refine Bool.eq_false_iff.mpr fun hc => UInt16.not_lt.mpr (hx.2 ⟨?_, hc⟩) hlt
  rw [h]
  exact List.mem_append_left _ hi

theorem outside_after (hy : IsGreatest (d.members c) y) {before after : List Index}
    (h : d.listedIndexes = before ++ y :: after) : ∀ i ∈ after, c.contains i = false := by
  intro i hi
  have hascending := d.listedIndexes_ascending
  rw [h] at hascending
  have hlt : y < i :=
    (List.pairwise_cons.mp (List.pairwise_append.mp hascending).2.1).1 i hi
  refine Bool.eq_false_iff.mpr fun hc => UInt16.not_lt.mpr (hy.2 ⟨?_, hc⟩) hlt
  rw [h]
  exact List.mem_append_right _ (List.mem_cons_of_mem _ hi)

/-- The quick index of a dictionary. -/
def quickIndex (d : Dictionary) : QuickIndex := .recordAll .empty d.listedIndexes.zipIdx

theorem last_quickIndex_of_empty (h : d.members c = ∅) : d.quickIndex.last.get c = 0 := by
  have houtside : ∀ i ∈ d.listedIndexes, c.contains i = false := fun i hi =>
    Bool.eq_false_iff.mpr fun hc => (h ▸ ⟨hi, hc⟩ : i ∈ (∅ : Set Index))
  unfold quickIndex
  rw [(QuickIndex.recordAll_of_outside _ (QuickIndex.outside_zipIdx houtside _)).2]
  cases c <;> rfl

theorem last_quickIndex (hy : IsGreatest (d.members c) y) :
    d.quickIndex.last.get c = d.countBelow y := by
  obtain ⟨before, after, h⟩ := List.append_of_mem hy.1.1
  unfold quickIndex
  rw [h, QuickIndex.last_recordAll_of_split _ hy.1.2 (outside_after hy h), countBelow_of_split h]

theorem first_quickIndex (hx : IsLeast (d.members c) x) (hy : IsGreatest (d.members c) y) :
    d.quickIndex.first.get c = if d.countBelow x = 0 ∧ x ≠ y then 1 else d.countBelow x := by
  obtain ⟨before, after, h⟩ := List.append_of_mem hx.1.1
  have hposition := countBelow_of_split h
  unfold quickIndex
  rw [hposition, h]
  cases before with
  | cons i before =>
    have hbefore : i :: before ≠ [] := List.cons_ne_nil i before
    rw [QuickIndex.first_recordAll_of_split hx.1.2 (outside_before hx h) hbefore,
      if_neg fun hzero => absurd hzero.1 (Nat.succ_ne_zero _)]
  | nil =>
    rw [List.nil_append] at h ⊢
    by_cases hxy : x = y
    · subst hxy
      have houtside := outside_after hy (h.trans (List.nil_append _).symm)
      rw [QuickIndex.first_recordAll_of_single houtside, if_neg fun hzero => hzero.2 rfl]
      rfl
    · -- the greatest member stands behind row 0, so row 1 belongs to the category as well
      have hafter : y ∈ after :=
        (List.mem_cons.mp (h ▸ hy.1.1)).resolve_left fun heq => hxy heq.symm
      obtain ⟨z, rest, rfl⟩ := List.exists_cons_of_ne_nil (List.ne_nil_of_mem hafter)
      have hascending := h ▸ d.listedIndexes_ascending
      have hxz := (List.pairwise_cons.mp hascending).1 z List.mem_cons_self
      have hzy : z ≤ y := by
        rcases List.mem_cons.mp hafter with rfl | hrest
        · exact UInt16.le_refl y
        · exact UInt16.le_of_lt
            ((List.pairwise_cons.mp (List.pairwise_cons.mp hascending).2).1 y hrest)
      have hz := contains_of_between hx.1.2 hy.1.2 (UInt16.le_of_lt hxz) hzy
      rw [QuickIndex.first_recordAll_of_pair hz, if_pos ⟨rfl, hxy⟩]

/-- **Quick index.**  A category with a listed index has a least and a greatest one.  The last
position is that of the greatest.  The first position is that of the least, and the rows from the
first to the last position are exactly those of the category; but when the category begins in row 0
and goes on, the first position is 1 and row 0 is left out. -/
theorem quickIndex_delimits (h : (d.members c).Nonempty) (callbacks : Index → Option String) :
    let navigation := Navigation.of d.node.name d.listedIndexes callbacks
    let first := navigation.quickIndex.first.get c
    let last := navigation.quickIndex.last.get c
    ∃ x y, IsLeast (d.members c) x ∧ IsGreatest (d.members c) y ∧
      first = (if d.countBelow x = 0 ∧ x ≠ y then 1 else d.countBelow x) ∧
      last = d.countBelow y ∧
      (∀ p row, navigation.rows[p]? = some row →
        (first ≤ p ∧ p ≤ last ↔ c.contains row.index = true ∧ ¬ (p = 0 ∧ x ≠ y))) ∧
      navigation.quickIndex.text d.node.name =
        navigation.quickIndex.first.spelled (d.node.name ++ "_firstIndex") ++
          navigation.quickIndex.last.spelled (d.node.name ++ "_lastIndex") := by
  intro navigation first last
  obtain ⟨x, y, hx, hy⟩ := exists_isLeast_isGreatest h
  have hfirst : first = _ := first_quickIndex hx hy
  have hlast : last = _ := last_quickIndex hy
  refine ⟨x, y, hx, hy, hfirst, hlast, fun p row hrow => ?_,
    navigation.quickIndex.text_eq_spelled d.node.name⟩
  obtain ⟨i, hi, rfl⟩ := Navigation.getElem?_rows_eq_some_iff.mp hrow
  have hle : d.countBelow x ≤ d.countBelow y :=
    (le_iff_le_of_getElem? d.listedIndexes_ascending (getElem?_countBelow hx.1.1)
      (getElem?_countBelow hy.1.1)).mpr (hx.2 hy.1)
  rw [hfirst, hlast]
  show _ ↔ c.contains i = true ∧ _
  rw [contains_iff_between hx hy hi]
  split
  · rename_i hexception
    simp only [hexception.2, ne_eq, not_false_eq_true, and_true]
    omega
  · rename_i hregular
    by_cases hxy : x = y
    · simp [hxy]
    · simp only [hxy, ne_eq, not_false_eq_true, and_true] at hregular ⊢
      omega

def channel (name : String) : Entry :=
  .ofVariable name ⟨name, 0x0007, .readOnly, false, false⟩ (.unsigned 0x600)

/-- A node whose first entries are those of two server channels. -/
def channelPair : Dictionary :=
  { node := { name := "Node" }
    entries := .ofList [(0x1200, channel "Server"), (0x1201, channel "Server")] }

/-- A node with a device type, two server channels and three transmit channels. -/
def station : Dictionary :=
  { node := { name := "Node" }
    entries := .ofList
      [(0x1000, channel "Device Type"), (0x1200, channel "Server"), (0x1201, channel "Server"),
        (0x1800, channel "Transmit"), (0x1801, channel "Transmit"), (0x1805, channel "Transmit")] }

theorem quickIndex_delimits_station :
    (station.members .pdoTransmit).Nonempty ∧
      ∃ x y, IsLeast (station.members .pdoTransmit) x ∧
        IsGreatest (station.members .pdoTransmit) y ∧
        station.quickIndex.first.get .pdoTransmit = 3 ∧
        station.quickIndex.last.get .pdoTransmit = 5 ∧
        ∀ p row, (Navigation.of "Node" station.listedIndexes fun _ => none).rows[p]? = some row →
          (3 ≤ p ∧ p ≤ 5 ↔ Category.pdoTransmit.contains row.index = true ∧ ¬ (p = 0 ∧ x ≠ y)) := by
  have h : (station.members .pdoTransmit).Nonempty := ⟨0x1800, by decide, by decide⟩
  obtain ⟨x, y, hx, hy, -, -, hrows, -⟩ := quickIndex_delimits h fun _ => none
  exact ⟨h, x, y, hx, hy, by decide, by decide, hrows⟩

/-- The first of two server channels in the first two rows is left out of the quick index. -/
theorem not_forall_quickIndex_delimits :
    ¬ ∀ (d : Dictionary) (c : Category), (d.members c).Nonempty →
      ∀ callbacks : Index → Option String,
        let navigation := Navigation.of d.node.name d.listedIndexes callbacks
        let first := navigation.quickIndex.first.get c
        let last := navigation.quickIndex.last.get c
        ∃ x y, IsLeast (d.members c) x ∧ IsGreatest (d.members c) y ∧
          first = d.countBelow x ∧ last = d.countBelow y ∧
          ∀ p row, navigation.rows[p]? = some row →
            (first ≤ p ∧ p ≤ last ↔ c.contains row.index = true) := by
  intro h
  obtain ⟨x, y, -, -, -, -, hrows⟩ :=
    h channelPair .sdoServer ⟨0x1200, by decide, by decide⟩ fun _ => none
  have hrow := (hrows 0 ⟨0x1200, Symbol.table "Node" 0x1200⟩ rfl).mpr (by decide)
  exact absurd hrow.1 (by decide)

end Dictionary
end CanopenTables
