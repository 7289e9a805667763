import CanopenTables.Proofs.Identifiers

/-!
# Words of a name

The words of a text are its maximal runs of word characters.  `HasRuns` says so without a reader: in
front of each run stands a gap, and no word character follows it.

* Every text has runs, and only those that `wordRuns` finds (`hasRuns_iff`).
* Two texts with a **gap** between them have the runs of the first and then those of the second
  (`HasRuns.append_gap`).  So the joined words split at every gap (`joinedWords_gap`).
* **Joined words** are word characters only, so nothing changes when they are joined again.  The
  same holds of identifiers, where a digit in front is guarded the first time.

Main statement: `words_joined`.
-/

namespace CanopenTables.Text

/-! ### Maximal runs -/

/-- The maximal runs of word characters in a text, in order.  A run reaches from the gap in front of
it, which only the first run can lack, to where no word character follows. -/
inductive HasRuns : List Char → List (List Char) → Prop
  | gap {gap : List Char} (hgap : ∀ c ∈ gap, isWordChar c = false) : HasRuns gap []
  | run {gap run rest : List Char} {runs : List (List Char)}
    (hgap : ∀ c ∈ gap, isWordChar c = false) (hne : run ≠ [])
    (hrun : ∀ c ∈ run, isWordChar c = true) (hend : ∀ c ∈ rest.head?, isWordChar c = false)
    (hrest : HasRuns rest runs) : HasRuns (gap ++ run ++ rest) (run :: runs)

theorem wordRuns_gap_append {gap : List Char} (h : ∀ c ∈ gap, isWordChar c = false)
    (rest : List Char) : wordRuns (gap ++ rest) = wordRuns rest := by
  induction gap with
  | nil => rfl
  | cons c gap ih =>
    obtain ⟨hc, hgap⟩ := List.forall_mem_cons.mp h
    rw [List.cons_append, wordRuns, if_neg (Bool.eq_false_iff.mp hc), ih hgap]

theorem wordRuns_run_append {run rest : List Char} (hne : run ≠ [])
    (hrun : ∀ c ∈ run, isWordChar c = true) (hend : ∀ c ∈ rest.head?, isWordChar c = false) :
    wordRuns (run ++ rest) = run :: wordRuns rest := by
  induction run with
  | nil => exact absurd rfl hne
  | cons c run ih =>
    obtain ⟨hc, hrun⟩ := List.forall_mem_cons.mp hrun
    rw [List.cons_append, wordRuns, if_pos hc]
    cases run with
    | nil =>
      have hhead : rest.head?.any isWordChar = false := by
        cases rest with
        | nil => rfl
        | cons d rest => exact hend d rfl
      rw [List.nil_append, if_neg (Bool.eq_false_iff.mp hhead)]
    | cons d run =>
      have hhead : (d :: run ++ rest).head?.any isWordChar = true := hrun d List.mem_cons_self
      rw [if_pos hhead, ih (List.cons_ne_nil d run) hrun]
      rfl

namespace HasRuns

variable {a b : List Char} {runs : List (List Char)} {c : Char}

theorem wordRuns_eq (h : HasRuns a runs) : wordRuns a = runs := by
  induction h with
  | gap hgap =>
    rw [wordRuns_eq_nil_iff, List.any_eq_false]
    exact fun c hc => Bool.eq_false_iff.mp (hgap c hc)
  | run hgap hne hrun hend _ ih =>
    rw [List.append_assoc, wordRuns_gap_append hgap, wordRuns_run_append hne hrun hend, ih]

/-- A longer gap in front of a text changes nothing. -/
theorem gap_append {gap : List Char} (hgap : ∀ c ∈ gap, isWordChar c = false)
    (h : HasRuns a runs) : HasRuns (gap ++ a) runs := by
  cases h with
  | gap hgap' => exact .gap (List.forall_mem_append.mpr ⟨hgap, hgap'⟩)
  | run hgap' hne hrun hend hrest =>
    rw [← List.append_assoc, ← List.append_assoc]
    exact .run (List.forall_mem_append.mpr ⟨hgap, hgap'⟩) hne hrun hend hrest

/-- A word character in front of another one makes the first run longer. -/
theorem cons_of_head (hc : isWordChar c = true) (hhead : a.head?.any isWordChar = true)
    (h : HasRuns a runs) : HasRuns (c :: a) (extendFirst c runs) := by
  -- The text begins with a word character, so it has a run with no gap in front.
  cases h with
  | gap hgap =>
    cases a with
    | nil => cases hhead
    | cons d a => exact absurd hhead (Bool.eq_false_iff.mp (hgap d List.mem_cons_self))
  | @run gap run rest runs hgap hne hrun hend hrest =>
    cases gap with
    | nil =>
      have hextended : ∀ d ∈ c :: run, isWordChar d = true := List.forall_mem_cons.mpr ⟨hc, hrun⟩
      exact .run hgap (List.cons_ne_nil c run) hextended hend hrest
    | cons d gap => exact absurd hhead (Bool.eq_false_iff.mp (hgap d List.mem_cons_self))

theorem append_gap {gap : List Char} {runs' : List (List Char)} (hne : gap ≠ [])
    (hgap : ∀ c ∈ gap, isWordChar c = false) (ha : HasRuns a runs) (hb : HasRuns b runs') :
    HasRuns (a ++ (gap ++ b)) (runs ++ runs') := by
  induction ha with
  | gap hgap' => exact (hb.gap_append hgap).gap_append hgap'
  | @run gap' run rest runs hgap' hne' hrun hend _ ih =>
    rw [List.append_assoc]
    refine .run hgap' hne' hrun (fun c hc => ?_) ih
    cases rest with
    | nil =>
      obtain ⟨d, gap, rfl⟩ := List.exists_cons_of_ne_nil hne
      cases hc
      exact hgap _ List.mem_cons_self
    | cons d rest => exact hend c hc

end HasRuns

theorem hasRuns_wordRuns (cs : List Char) : HasRuns cs (wordRuns cs) := by
  induction cs with
  | nil => exact .gap (List.forall_mem_nil _)
  | cons c rest ih =>
    unfold wordRuns
    split
    · rename_i hc
      split
      · rename_i hhead
        exact ih.cons_of_head hc hhead
      · rename_i hhead
        have hend : ∀ d ∈ rest.head?, isWordChar d = false := by
          intro d hd
          rw [Option.mem_def.mp hd] at hhead
          exact Bool.eq_false_iff.mpr hhead
        exact .run (List.forall_mem_nil _) (List.cons_ne_nil c [])
          (List.forall_mem_singleton.mpr hc) hend ih
    · rename_i hc
      have hgap : ∀ d ∈ [c], isWordChar d = false :=
        List.forall_mem_singleton.mpr (Bool.eq_false_iff.mpr hc)
      exact ih.gap_append hgap

/-- The reader finds the maximal runs, and no others fit the text. -/
theorem hasRuns_iff {cs : List Char} {runs : List (List Char)} :
    HasRuns cs runs ↔ wordRuns cs = runs := by
  constructor
  · exact HasRuns.wordRuns_eq
  · rintro rfl
    exact hasRuns_wordRuns cs

/-! ### Joined words -/

theorem joinedWords_eq_intercalate (s : String) :
    joinedWords s = "_".intercalate ((wordRuns s.toList).map String.ofList) := by
  rw [← String.toList_inj, String.toList_intercalate, List.map_map]
  have hmap : String.toList ∘ String.ofList = id := funext fun _ => String.toList_ofList
  rw [hmap, List.map_id]
  exact String.toList_ofList

theorem intercalate_append {α : Type} (separator : List α) {l l' : List (List α)} (hne : l ≠ [])
    (hne' : l' ≠ []) :
    separator.intercalate (l ++ l') =
      separator.intercalate l ++ separator ++ separator.intercalate l' := by
  induction l with
  | nil => exact absurd rfl hne
  | cons a l ih =>
    cases l with
    | nil =>
      rw [List.singleton_append, List.intercalate_cons_of_ne_nil hne', List.intercalate_singleton]
    | cons a' l =>
      rw [List.cons_append, List.cons_append, List.intercalate_cons_cons, ← List.cons_append,
        ih (List.cons_ne_nil a' l), List.intercalate_cons_cons]
      simp only [List.append_assoc]

theorem wordRuns_append_gap {gap : List Char} (hne : gap ≠ [])
    (hgap : ∀ c ∈ gap, isWordChar c = false) (a b : List Char) :
    wordRuns (a ++ (gap ++ b)) = wordRuns a ++ wordRuns b :=
  ((hasRuns_wordRuns a).append_gap hne hgap (hasRuns_wordRuns b)).wordRuns_eq

theorem joinedWords_eq_empty_iff_wordRuns {s : String} :
    joinedWords s = "" ↔ wordRuns s.toList = [] := by
  rw [joinedWords_eq_empty_iff, wordRuns_eq_nil_iff]
  rfl

/-- The joined words of two texts with a gap between them: an underscore stands between the two if
both have words. -/
theorem joinedWords_gap {gap : String} (hne : gap ≠ "") (hgap : hasWordChar gap = false)
    (a b : String) :
    joinedWords (a ++ gap ++ b) =
      if joinedWords a = "" then joinedWords b
      else if joinedWords b = "" then joinedWords a
      else joinedWords a ++ "_" ++ joinedWords b := by
  have hlist : gap.toList ≠ [] := fun hnil => hne (String.toList_eq_nil_iff.mp hnil)
  have hnone : ∀ c ∈ gap.toList, isWordChar c = false := by
    simpa [hasWordChar] using hgap
  have hruns : wordRuns (a ++ gap ++ b).toList = wordRuns a.toList ++ wordRuns b.toList := by
    rw [String.toList_append, String.toList_append, List.append_assoc,
      wordRuns_append_gap hlist hnone]
  split
  · rename_i ha
    rw [joinedWords, hruns, joinedWords_eq_empty_iff_wordRuns.mp ha]
    rfl
  · rename_i ha
    split
    · rename_i hb
      rw [joinedWords, hruns, joinedWords_eq_empty_iff_wordRuns.mp hb, List.append_nil]
      rfl
    · rename_i hb
      rw [joinedWords, hruns, intercalate_append ['_'] (mt joinedWords_eq_empty_iff_wordRuns.mpr ha)
        (mt joinedWords_eq_empty_iff_wordRuns.mpr hb), String.ofList_append, String.ofList_append]
      rfl

theorem joinedWords_joinedWords (s : String) : joinedWords (joinedWords s) = joinedWords s :=
  joinedWords_eq_self fun _ => isWordChar_of_mem_joinedWords

theorem identifier_identifier (s : String) : identifier (identifier s) = identifier s := by
  have hjoined : joinedWords (identifier s) = identifier s :=
    joinedWords_eq_self (isWordChar_of_mem_identifier s)
  rw [identifier, hjoined]
  exact guardDigit_guardDigit (joinedWords s)

/-- **Words.**  A name is sanitised to its maximal runs of word characters, in order and with single
underscores between them.  Sanitising again changes nothing.  At a gap the words of a name are those
in front of it and those behind it, joined by one underscore if there are words on both sides.  As
an identifier, too, a name is sanitised once and for all; it is empty exactly when the name has no
word character, and else it is a C identifier, which has no digit in front. -/
theorem words_joined (s : String) :
    (∃ runs, HasRuns s.toList runs ∧ (∀ runs', HasRuns s.toList runs' → runs' = runs) ∧
      joinedWords s = "_".intercalate (runs.map String.ofList)) ∧
    joinedWords (joinedWords s) = joinedWords s ∧
    (∀ gap b, gap ≠ "" → hasWordChar gap = false →
      joinedWords (s ++ gap ++ b) =
        if joinedWords s = "" then joinedWords b
        else if joinedWords b = "" then joinedWords s
        else joinedWords s ++ "_" ++ joinedWords b) ∧
    identifier (identifier s) = identifier s ∧
    (identifier s = "" ↔ hasWordChar s = false) ∧
    (hasWordChar s = true → IsIdentifier (identifier s)) := by
  refine ⟨⟨wordRuns s.toList, hasRuns_wordRuns s.toList, fun runs' h => h.wordRuns_eq.symm,
    joinedWords_eq_intercalate s⟩, joinedWords_joinedWords s, ?_, identifier_identifier s,
    identifier_eq_empty_iff, isIdentifier_identifier_iff.mpr⟩
  intro gap b hne hgap
  exact joinedWords_gap hne hgap s b

/-- A gap of several characters, one of them outside ASCII, behind a name with a digit in front. -/
theorem words_joined_axis :
    ("°, " ≠ "" ∧ hasWordChar "°, " = false ∧
      joinedWords ("2nd axis" ++ "°, " ++ "left") = "2nd_axis_left") ∧
    hasWordChar "2nd axis" = true ∧ IsIdentifier (identifier "2nd axis") := by
  have hne : "°, " ≠ "" := by decide
  have hgap : hasWordChar "°, " = false := by decide
  have hword : hasWordChar "2nd axis" = true := by decide
  obtain ⟨-, -, hsplit, -, -, hidentifier⟩ := words_joined "2nd axis"
  refine ⟨⟨hne, hgap, ?_⟩, hword, hidentifier hword⟩
  rw [hsplit "°, " "left" hne hgap]
  decide

end CanopenTables.Text
