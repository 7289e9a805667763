import CanopenTables.Fallback
import CanopenTables.Proofs.Outcome

/-!
# Which fallbacks there are

A fallback has content for the eight entries that the stack links against and for no other entry
(`Fallback.exists_items_iff`).  A dictionary asks for the fallbacks of those among them that it
lacks (`mem_missingIndexes_iff`), so this stage cannot fail (`exists_fallbackBlocks`).
-/

namespace CanopenTables

namespace Fallback

theorem exists_items_of_mem (node : Node) {i : Index} (h : i ∈ indexes) :
    ∃ items, Fallback.items node i = .ok items := by
  simp only [indexes, List.mem_cons, List.not_mem_nil, or_false] at h
  rcases h with rfl | rfl | rfl | rfl | rfl | rfl | rfl | rfl
  all_goals exact ⟨_, rfl⟩

theorem items_of_not_mem (node : Node) {i : Index} (h : i ∉ indexes) :
    Fallback.items node i = .error (.missingEntry i none) := by
  simp only [indexes, List.mem_cons, List.not_mem_nil, or_false, not_or] at h
  obtain ⟨h₁, h₂, h₃, h₄, h₅, h₆, h₇, h₈⟩ := h
  simp [Fallback.items, h₁, h₂, h₃, h₄, h₅, h₆, h₇, h₈]

/-- Exactly the entries that the stack links against have content. -/
theorem exists_items_iff {node : Node} {i : Index} :
    (∃ items, Fallback.items node i = .ok items) ↔ i ∈ indexes := by
  constructor
  · rintro ⟨items, hitems⟩
    by_contra h
    rw [items_of_not_mem node h] at hitems
    cases hitems
  · exact exists_items_of_mem node

theorem block_eq_ok_iff {node : Node} {i : Index} {name : String} {b : Block} :
    block node i name = .ok b ↔
      ∃ items, Fallback.items node i = .ok items ∧
        ⟨i, .fallback name (titleEndsInBlank i), items⟩ = b := by
  unfold block
  rw [bind_eq_ok_iff]
  simp only [pure_eq_ok_iff]

theorem index_of_block {node : Node} {i : Index} {name : String} {b : Block}
    (h : block node i name = .ok b) : b.index = i := by
  obtain ⟨items, -, rfl⟩ := block_eq_ok_iff.mp h
  rfl

theorem inCommArea_of_mem {i : Index} (h : i ∈ indexes) :
    Profile.commAreaStart ≤ i ∧ i ≤ Profile.commAreaEnd := by
  have hall : indexes.all
      (fun j => Profile.commAreaStart ≤ j && j ≤ Profile.commAreaEnd) = true := by
    decide
  simpa using List.all_eq_true.mp hall i h

end Fallback

namespace Dictionary

variable {d : Dictionary} {i : Index}

theorem mem_missingIndexes_iff :
    i ∈ d.missingIndexes ↔ i ∈ Fallback.indexes ∧ d.contains i = false := by
  unfold missingIndexes
  rw [List.mem_filter]
  refine and_congr_right fun hi => ?_
  have harea := Fallback.inCommArea_of_mem hi
  simp [definesInCommArea, harea]

theorem fallbackBlock_outcome_eq_ok_iff {b : Block} :
    (d.fallbackBlock i).outcome = .ok b ↔
      Fallback.block d.node i ((d.entryName? i).getD "") = .ok b := by
  unfold fallbackBlock
  rw [Reported.outcome_bind]
  show (Fallback.block d.node i ((d.entryName? i).getD "") >>= fun b => .ok b) = .ok b ↔ _
  rw [bind_eq_ok_iff]
  simp

/-- The fallbacks stand in the order in which the entries are looked at. -/
theorem fallbackBlocks_outcome_eq_ok_iff {blocks : List Block} :
    d.fallbackBlocks.outcome = .ok blocks ↔
      List.Forall₂
        (fun i b => Fallback.block d.node i ((d.entryName? i).getD "") = .ok b)
        d.missingIndexes blocks := by
  unfold fallbackBlocks
  rw [Reported.outcome_mapM, mapM_eq_ok_iff]
  simp only [fallbackBlock_outcome_eq_ok_iff]

theorem exists_fallbackBlocks (d : Dictionary) :
    ∃ blocks, d.fallbackBlocks.outcome = .ok blocks := by
  simp only [fallbackBlocks_outcome_eq_ok_iff]
  rw [exists_forall₂_iff]
  intro i hi
  obtain ⟨items, hitems⟩ := Fallback.exists_items_iff.mpr (mem_missingIndexes_iff.mp hi).1
  exact ⟨_, Fallback.block_eq_ok_iff.mpr ⟨items, hitems, rfl⟩⟩

theorem index_ne_of_mem_fallbackBlocks {blocks : List Block}
    (h : d.fallbackBlocks.outcome = .ok blocks) {x : Index} (hx : d.contains x = true) :
    ∀ b ∈ blocks, b.index ≠ x := by
  rintro b hb rfl
  obtain ⟨i, hi, hblock⟩ := exists_mem_left_of_forall₂ (fallbackBlocks_outcome_eq_ok_iff.mp h) hb
  rw [Fallback.index_of_block hblock, (mem_missingIndexes_iff.mp hi).2] at hx
  exact Bool.false_ne_true hx

end Dictionary
end CanopenTables
