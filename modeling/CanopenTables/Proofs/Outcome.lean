import CanopenTables.Reported
import Mathlib.Data.List.Forall2
import Mathlib.Data.List.Nodup

/-!
# Outcomes of sequences

How a computation that may fail comes to its result, and where it fails: one equivalence for a
sequence of two steps (`bind_eq_ok_iff`), one for a walk along a list that succeeds
(`mapM_eq_ok_iff`), and the first failure of a walk (`mapM_eq_error_of_first`).
-/

namespace CanopenTables

variable {ε α β γ : Type}

theorem pure_eq_ok_iff {a b : α} : (pure a : Except ε α) = .ok b ↔ a = b := by
  simp [pure, Except.pure]

theorem bind_eq_ok_iff {x : Except ε α} {f : α → Except ε β} {b : β} :
    x >>= f = .ok b ↔ ∃ a, x = .ok a ∧ f a = .ok b := by
  cases x with
  | error e => simp [bind, Except.bind]
  | ok a => simp [bind, Except.bind]

theorem map_eq_ok_iff {x : Except ε α} {f : α → β} {b : β} :
    f <$> x = .ok b ↔ ∃ a, x = .ok a ∧ f a = b := by
  cases x with
  | error e => simp [Functor.map, Except.map]
  | ok a => simp [Functor.map, Except.map]

theorem exists_eq_ok_of_isOk {x : Except ε α} (h : x.isOk = true) : ∃ a, x = .ok a := by
  cases x with
  | error e => cases h
  | ok a => exact ⟨a, rfl⟩

/-- A walk sees of its steps what they do at the members of the list. -/
theorem mapM_congr {f g : α → Except ε β} {l : List α} (h : ∀ a ∈ l, f a = g a) :
    l.mapM f = l.mapM g := by
  induction l with
  | nil => rfl
  | cons a l ih =>
    rw [List.forall_mem_cons] at h
    rw [List.mapM_cons, List.mapM_cons, h.1, ih h.2]

theorem mapM_eq_ok_iff {f : α → Except ε β} {l : List α} {bs : List β} :
    l.mapM f = .ok bs ↔ List.Forall₂ (fun a b => f a = .ok b) l bs := by
  induction l generalizing bs with
  | nil =>
    rw [List.mapM_nil, pure_eq_ok_iff, List.forall₂_nil_left_iff]
    exact eq_comm
  | cons a l ih =>
    rw [List.mapM_cons, bind_eq_ok_iff, List.forall₂_cons_left_iff]
    simp only [bind_eq_ok_iff, pure_eq_ok_iff, ih]
    constructor
    · rintro ⟨b, hb, rest, hrest, rfl⟩
      exact ⟨b, rest, hb, hrest, rfl⟩
    · rintro ⟨b, rest, hb, hrest, rfl⟩
      exact ⟨b, hb, rest, hrest, rfl⟩

theorem exists_forall₂_iff {R : α → β → Prop} {l : List α} :
    (∃ bs, List.Forall₂ R l bs) ↔ ∀ a ∈ l, ∃ b, R a b := by
  induction l with
  | nil => simp
  | cons a l ih =>
    rw [List.forall_mem_cons, ← ih]
    constructor
    · rintro ⟨bs, h⟩
      obtain ⟨b, rest, hb, hrest, -⟩ := List.forall₂_cons_left_iff.mp h
      exact ⟨⟨b, hb⟩, rest, hrest⟩
    · rintro ⟨⟨b, hb⟩, rest, hrest⟩
      exact ⟨b :: rest, .cons hb hrest⟩

theorem exists_mapM_eq_ok_iff {f : α → Except ε β} {l : List α} :
    (∃ bs, l.mapM f = .ok bs) ↔ ∀ a ∈ l, ∃ b, f a = .ok b := by
  simp only [mapM_eq_ok_iff]
  exact exists_forall₂_iff

/-- A walk along a list ends with the error of the first step that fails. -/
theorem mapM_eq_error_of_first {f : α → Except ε β} {before after : List α} {a : α} {e : ε}
    (hbefore : ∀ b ∈ before, ∃ c, f b = .ok c) (ha : f a = .error e) :
    (before ++ a :: after).mapM f = .error e := by
  obtain ⟨cs, hcs⟩ := exists_mapM_eq_ok_iff.mpr hbefore
  rw [List.mapM_append, hcs, List.mapM_cons, ha]
  rfl

/-! ### Lists in step -/

variable {R : α → β → Prop} {l : List α} {bs : List β}

/-- What two lists in step show alike at each place they show alike as a whole. -/
theorem map_eq_map_of_forall₂ {f : α → γ} {g : β → γ} (h : List.Forall₂ R l bs)
    (hR : ∀ a b, R a b → f a = g b) : l.map f = bs.map g := by
  induction h with
  | nil => rfl
  | cons hab _ ih => rw [List.map_cons, List.map_cons, hR _ _ hab, ih]

theorem flatMap_eq_flatMap_of_forall₂ {f : α → List γ} {g : β → List γ} (h : List.Forall₂ R l bs)
    (hR : ∀ a b, R a b → f a = g b) : l.flatMap f = bs.flatMap g := by
  rw [List.flatMap_def, List.flatMap_def, map_eq_map_of_forall₂ h hR]

theorem exists_mem_left_of_forall₂ (h : List.Forall₂ R l bs) {b : β} (hb : b ∈ bs) :
    ∃ a ∈ l, R a b := by
  induction h with
  | nil => simp at hb
  | @cons a b' l bs hab _ ih =>
    rcases List.mem_cons.mp hb with rfl | hb
    · exact ⟨a, List.mem_cons_self, hab⟩
    · obtain ⟨a', ha', hR⟩ := ih hb
      exact ⟨a', List.mem_cons_of_mem a ha', hR⟩

theorem exists_mem_right_of_forall₂ (h : List.Forall₂ R l bs) {a : α} (ha : a ∈ l) :
    ∃ b ∈ bs, R a b :=
  exists_mem_left_of_forall₂ h.flip ha

theorem getElem?_of_forall₂ (h : List.Forall₂ R l bs) {k : Nat} {b : β} (hk : bs[k]? = some b) :
    ∃ a, l[k]? = some a ∧ R a b := by
  induction h generalizing k with
  | nil => cases hk
  | @cons a b' l bs hab _ ih =>
    cases k with
    | zero =>
      cases hk
      exact ⟨a, rfl, hab⟩
    | succ k => exact ih hk

/-- The members at which a partial function has a value, in step with these values. -/
theorem forall₂_filter_filterMap (f : α → Option β) (l : List α) :
    List.Forall₂ (fun a b => f a = some b) (l.filter fun a => (f a).isSome) (l.filterMap f) := by
  induction l with
  | nil => exact .nil
  | cons a l ih =>
    cases h : f a with
    | none => simpa [h] using ih
    | some b => simpa [h] using ih

/-- A key that no other member has picks one member out. -/
theorem filter_eq_singleton_of_nodup {κ : Type} [DecidableEq κ] {f : α → κ} {l : List α}
    (h : (l.map f).Nodup) {a : α} (ha : a ∈ l) : (l.filter fun b => f b = f a) = [a] := by
  induction l with
  | nil => cases ha
  | cons b l ih =>
    obtain ⟨hb, hl⟩ := List.nodup_cons.mp h
    rcases List.mem_cons.mp ha with rfl | ha
    · have hnone : (l.filter fun b => f b = f a) = [] := by
        rw [List.filter_eq_nil_iff]
        intro b hmem heq
        exact hb (of_decide_eq_true heq ▸ List.mem_map_of_mem hmem)
      rw [List.filter_cons_of_pos (by simp), hnone]
    · have hne : f b ≠ f a := fun heq => hb (heq ▸ List.mem_map_of_mem ha)
      rw [List.filter_cons_of_neg (by simp [hne]), ih hl ha]

theorem nodup_of_filter_eq_singleton {κ : Type} [DecidableEq κ] {f : α → κ} {l : List α}
    (h : ∀ a ∈ l, (l.filter fun b => f b = f a) = [a]) : (l.map f).Nodup := by
  apply List.nodup_iff_count_le_one.mpr
  intro key
  by_cases hkey : key ∈ l.map f
  · obtain ⟨a, ha, rfl⟩ := List.mem_map.mp hkey
    have hlength := congrArg List.length (h a ha)
    rw [← List.countP_eq_length_filter, List.length_singleton] at hlength
    rw [List.count_eq_countP, List.countP_map, ← hlength]
    apply Nat.le_of_eq
    apply List.countP_congr
    intro b _
    simp
  · rw [List.count_eq_zero_of_not_mem hkey]
    omega

theorem getElem?_of_forall₂_zipIdx {R : α × Nat → β → Prop} {l : List α} {n : Nat} {bs : List β}
    (h : List.Forall₂ R (l.zipIdx n) bs) {k : Nat} {b : β} (hb : bs[k]? = some b) :
    ∃ a, l[k]? = some a ∧ R (a, n + k) b := by
  obtain ⟨⟨a, j⟩, ha, hR⟩ := getElem?_of_forall₂ h hb
  rw [List.getElem?_zipIdx, Option.map_eq_some_iff] at ha
  obtain ⟨a', ha', heq⟩ := ha
  cases heq
  exact ⟨a, ha', hR⟩

/-- What stands in step with the values from subindex 1 on goes with a value and its subindex. -/
theorem getElem?_of_forall₂_zipIdx_tail {R : α × Nat → β → Prop} {l : List α} {bs : List β}
    (h : List.Forall₂ R (l.tail.zipIdx 1) bs) {k : Nat} {b : β} (hb : bs[k]? = some b) :
    ∃ a, l[k + 1]? = some a ∧ R (a, k + 1) b := by
  obtain ⟨a, ha, hR⟩ := getElem?_of_forall₂_zipIdx h hb
  rw [List.getElem?_tail] at ha
  rw [Nat.add_comm] at hR
  exact ⟨a, ha, hR⟩

theorem length_of_forall₂_zipIdx_tail {R : α × Nat → β → Prop} {l : List α} {bs : List β}
    (h : List.Forall₂ R (l.tail.zipIdx 1) bs) : bs.length = l.length - 1 := by
  rw [← h.length_eq, List.length_zipIdx, List.length_tail]

/-- The pairs of a list that is numbered from 1 on are its values at their positions. -/
theorem forall_mem_zipIdx_iff {P : α → Nat → Prop} {l : List α} :
    (∀ b ∈ l.zipIdx 1, P b.1 b.2) ↔ ∀ k a, l[k]? = some a → P a (k + 1) := by
  constructor
  · intro h k a ha
    refine h (a, k + 1) ?_
    rw [List.mk_mem_zipIdx_iff_le_and_getElem?_sub]
    exact ⟨Nat.le_add_left 1 k, ha⟩
  · rintro h ⟨a, k⟩ hb
    rw [List.mk_mem_zipIdx_iff_le_and_getElem?_sub] at hb
    have hP := h (k - 1) a hb.2
    rwa [Nat.sub_add_cancel hb.1] at hP

end CanopenTables
