/-!
# Finite maps in ascending key order

An `AscendingMap` keeps its bindings as a list with strictly ascending keys.  The order is part of
the type, so a walk over the bindings meets every key once and in order, and two maps that answer
every lookup alike are equal as lists.  Keys are compared through a numeric rank (`Ranked`), which
keeps all order reasoning in `Nat`.

Main statements: `get?_insert` (a lookup sees the last insertion), `mem_keys_insert`, and
`AscendingMap.ext_get?` (equal lookups make equal maps).
-/

namespace CanopenTables

/-- Keys that are ordered by a natural number, which no two of them share. -/
class Ranked (κ : Type) where
  /-- The place of a key in the order. -/
  rank : κ → Nat
  /-- No two keys have the same place. -/
  rank_injective : ∀ {a b : κ}, rank a = rank b → a = b

export Ranked (rank)

/-- A finite map whose bindings are listed by strictly ascending key. -/
structure AscendingMap (κ α : Type) [Ranked κ] where
  /-- The bindings, one per key. -/
  toList : List (κ × α)
  /-- Each key stands below all later ones. -/
  ascending : toList.Pairwise fun a b => rank a.1 < rank b.1

namespace AscendingMap

variable {κ α : Type} [Ranked κ]

def empty : AscendingMap κ α := ⟨[], List.Pairwise.nil⟩

/-- Puts a binding at its place in an ascending list; a binding of the same key makes way. -/
def insertSorted (k : κ) (a : α) : List (κ × α) → List (κ × α)
  | [] => [(k, a)]
  | b :: rest =>
    if rank k < rank b.1 then (k, a) :: b :: rest
    else if rank k = rank b.1 then (k, a) :: rest
    else b :: insertSorted k a rest

/-- The value that an association list binds to the key, if any. -/
def lookupSorted (k : κ) : List (κ × α) → Option α
  | [] => none
  | b :: rest => if rank k = rank b.1 then some b.2 else lookupSorted k rest

/-! ### Insertion keeps the order -/

theorem mem_insertSorted {k : κ} {a : α} {b : κ × α} {l : List (κ × α)}
    (h : b ∈ insertSorted k a l) : b = (k, a) ∨ b ∈ l := by
  induction l with
  | nil => simpa [insertSorted] using h
  | cons c rest ih =>
    unfold insertSorted at h
    split at h
    · simpa using h
    · split at h
      · rcases List.mem_cons.mp h with h | h
        · exact Or.inl h
        · exact Or.inr (List.mem_cons_of_mem _ h)
      · rcases List.mem_cons.mp h with h | h
        · exact Or.inr (h ▸ List.mem_cons_self)
        · exact (ih h).imp_right (List.mem_cons_of_mem _)

theorem insertSorted_ascending (k : κ) (a : α) {l : List (κ × α)}
    (h : l.Pairwise fun a b => rank a.1 < rank b.1) :
    (insertSorted k a l).Pairwise fun a b => rank a.1 < rank b.1 := by
  induction l with
  | nil => simp [insertSorted]
  | cons c rest ih =>
    have hc := List.pairwise_cons.mp h
    unfold insertSorted
    split
    · rename_i hlt
      refine List.pairwise_cons.mpr ⟨fun b hb => ?_, h⟩
      rcases List.mem_cons.mp hb with rfl | hb
      · exact hlt
      · exact Nat.lt_trans hlt (hc.1 b hb)
    · split
      · rename_i heq
        exact List.pairwise_cons.mpr ⟨fun b hb => by simpa [heq] using hc.1 b hb, hc.2⟩
      · rename_i hlt hne
        refine List.pairwise_cons.mpr ⟨fun b hb => ?_, ih hc.2⟩
        rcases mem_insertSorted hb with rfl | hb
        · simp only; omega
        · exact hc.1 b hb

/-- Binds a key, replacing what it was bound to. -/
def insert (m : AscendingMap κ α) (k : κ) (a : α) : AscendingMap κ α :=
  ⟨insertSorted k a m.toList, insertSorted_ascending k a m.ascending⟩

/-- Binds the pairs of a list in turn. -/
def insertAll (m : AscendingMap κ α) (bindings : List (κ × α)) : AscendingMap κ α :=
  bindings.foldl (fun m b => m.insert b.1 b.2) m

/-- The map of a list of pairs, in which a later pair replaces an earlier one of the same key. -/
def ofList (bindings : List (κ × α)) : AscendingMap κ α := empty.insertAll bindings

def get? (m : AscendingMap κ α) (k : κ) : Option α := lookupSorted k m.toList

def contains (m : AscendingMap κ α) (k : κ) : Bool := (m.get? k).isSome

def keys (m : AscendingMap κ α) : List κ := m.toList.map (·.1)

/-- The bound values in the order of their keys. -/
def values (m : AscendingMap κ α) : List α := m.toList.map (·.2)

def size (m : AscendingMap κ α) : Nat := m.toList.length

/-! ### Lookups -/

theorem lookupSorted_insertSorted (k k' : κ) (a : α) (l : List (κ × α)) :
    lookupSorted k' (insertSorted k a l) =
      if rank k' = rank k then some a else lookupSorted k' l := by
  induction l with
  | nil => rfl
  | cons c rest ih =>
    unfold insertSorted
    split
    · rfl
    · split
      · rename_i heq
        simp only [lookupSorted]
        by_cases h : rank k' = rank k
        · simp [h]
        · simp [h, heq ▸ h]
      · rename_i hne
        simp only [lookupSorted, ih]
        by_cases h : rank k' = rank k
        · have : ¬ rank k' = rank c.1 := fun h' => hne (h ▸ h')
          simp [h, hne]
        · simp [h]

/-- A lookup sees the last insertion at its key and nothing of the others. -/
theorem get?_insert (m : AscendingMap κ α) (k k' : κ) (a : α) :
    (m.insert k a).get? k' = if rank k' = rank k then some a else m.get? k' :=
  lookupSorted_insertSorted k k' a m.toList

theorem get?_empty (k : κ) : (empty : AscendingMap κ α).get? k = none := rfl

theorem lookupSorted_eq_some_iff {k : κ} {a : α} {l : List (κ × α)}
    (h : l.Pairwise fun a b => rank a.1 < rank b.1) :
    lookupSorted k l = some a ↔ (k, a) ∈ l := by
  induction l with
  | nil => simp [lookupSorted]
  | cons c rest ih =>
    have hc := List.pairwise_cons.mp h
    unfold lookupSorted
    split
    · rename_i heq
      have hk : k = c.1 := Ranked.rank_injective heq
      constructor
      · intro h'
        exact List.mem_cons.mpr (Or.inl (by cases h'; cases hk; rfl))
      · intro h'
        rcases List.mem_cons.mp h' with h' | h'
        · rw [← h']
        · have := hc.1 _ h'
          simp only at this
          omega
    · rename_i hne
      rw [ih hc.2]
      constructor
      · exact List.mem_cons_of_mem _
      · intro h'
        rcases List.mem_cons.mp h' with h' | h'
        · exact absurd (by rw [← h']) hne
        · exact h'

theorem get?_eq_some_iff {m : AscendingMap κ α} {k : κ} {a : α} :
    m.get? k = some a ↔ (k, a) ∈ m.toList :=
  lookupSorted_eq_some_iff m.ascending

theorem mem_keys_iff {m : AscendingMap κ α} {k : κ} : k ∈ m.keys ↔ (m.get? k).isSome := by
  simp only [keys, List.mem_map, Option.isSome_iff_exists, get?_eq_some_iff]
  constructor
  · rintro ⟨b, hb, rfl⟩
    exact ⟨b.2, hb⟩
  · rintro ⟨a, ha⟩
    exact ⟨_, ha, rfl⟩

theorem mem_keys_insert {m : AscendingMap κ α} {k k' : κ} {a : α} :
    k' ∈ (m.insert k a).keys ↔ k' = k ∨ k' ∈ m.keys := by
  simp only [mem_keys_iff, get?_insert]
  by_cases h : rank k' = rank k
  · simp [Ranked.rank_injective h]
  · have : k' ≠ k := fun h' => h (h' ▸ rfl)
    simp [h, this]

theorem keys_ascending (m : AscendingMap κ α) : m.keys.Pairwise fun a b => rank a < rank b :=
  List.pairwise_map.mpr m.ascending

theorem size_eq_length_keys (m : AscendingMap κ α) : m.size = m.keys.length := by
  simp [size, keys]

theorem eq_of_mem_iff {l₁ l₂ : List (κ × α)}
    (h₁ : l₁.Pairwise fun a b => rank a.1 < rank b.1)
    (h₂ : l₂.Pairwise fun a b => rank a.1 < rank b.1)
    (h : ∀ b, b ∈ l₁ ↔ b ∈ l₂) : l₁ = l₂ := by
  induction l₁ generalizing l₂ with
  | nil =>
    cases l₂ with
    | nil => rfl
    | cons b _ => exact absurd ((h b).mpr List.mem_cons_self) (by simp)
  | cons a r₁ ih =>
    cases l₂ with
    | nil => exact absurd ((h a).mp List.mem_cons_self) (by simp)
    | cons b r₂ =>
      have ha := List.pairwise_cons.mp h₁
      have hb := List.pairwise_cons.mp h₂
      have hab : a = b := by
        rcases List.mem_cons.mp ((h a).mp List.mem_cons_self) with h' | h'
        · exact h'
        · rcases List.mem_cons.mp ((h b).mpr List.mem_cons_self) with h'' | h''
          · exact h''.symm
          · have := hb.1 _ h'
            have := ha.1 _ h''
            omega
      subst hab
      refine congrArg (a :: ·) (ih ha.2 hb.2 fun c => ?_)
      constructor
      · intro hc
        rcases List.mem_cons.mp ((h c).mp (List.mem_cons_of_mem _ hc)) with rfl | h'
        · exact absurd (ha.1 _ hc) (Nat.lt_irrefl _)
        · exact h'
      · intro hc
        rcases List.mem_cons.mp ((h c).mpr (List.mem_cons_of_mem _ hc)) with rfl | h'
        · exact absurd (hb.1 _ hc) (Nat.lt_irrefl _)
        · exact h'

theorem ext_get? {m₁ m₂ : AscendingMap κ α} (h : ∀ k, m₁.get? k = m₂.get? k) : m₁ = m₂ := by
  have : m₁.toList = m₂.toList :=
    eq_of_mem_iff m₁.ascending m₂.ascending fun b => by
      rw [← get?_eq_some_iff (m := m₁), ← get?_eq_some_iff (m := m₂), h]
  cases m₁
  cases m₂
  simp only at this
  subst this
  rfl

end AscendingMap

instance : Ranked UInt16 where
  rank := UInt16.toNat
  rank_injective := UInt16.toNat_inj.mp

end CanopenTables
