import CanopenTables.Code.Symbol
import CanopenTables.Text.Identifier

/-!
# Identifiers

What the names of the generated code are made of.  `joinedWords` keeps the word characters of a text
and nothing else, up to the underscores between the words (`isWordChar_of_mem_joinedWords`), and
`guardDigit` sees to it that no digit stands in front.  Word characters and no leading digit make a
C identifier of every text that is not empty; and a name becomes empty exactly when it has no word
character at all (`isIdentifier_identifier_iff`).  The digits of an index are word characters too
(`Numeral.isWordChar_of_mem_upperHex`).
-/

namespace CanopenTables

/-! ### Hexadecimal digits -/

namespace Numeral

theorem exists_digitChar_of_mem_toDigits {base n : Nat} (hbase : 1 < base) {c : Char}
    (h : c ∈ Nat.toDigits base n) : ∃ d < base, c = Nat.digitChar d := by
  induction n using Nat.strongRecOn with
  | ind n ih =>
    rw [Nat.toDigits_eq_if hbase] at h
    split at h
    · rename_i hlt
      exact ⟨n, hlt, List.mem_singleton.mp h⟩
    · rename_i hle
      rcases List.mem_append.mp h with h | h
      · exact ih (n / base) (Nat.div_lt_self (by omega) hbase) h
      · exact ⟨n % base, Nat.mod_lt n (by omega), List.mem_singleton.mp h⟩

theorem isWordChar_of_mem_upperHex {width n : Nat} {c : Char}
    (h : c ∈ (upperHex width n).toList) : Text.isWordChar c = true := by
  unfold upperHex padded at h
  rw [String.toList_ofList, List.mem_append] at h
  rcases h with h | h
  · rw [List.eq_of_mem_replicate h]
    decide
  · obtain ⟨digit, hdigit, rfl⟩ := List.mem_map.mp h
    obtain ⟨d, hd, rfl⟩ := exists_digitChar_of_mem_toDigits (by decide) hdigit
    have hall : ∀ d < 16, Text.isWordChar (Nat.digitChar d).toUpper = true := by decide
    exact hall d hd

end Numeral

/-! ### Leading digits -/

namespace Text

/-- Whether a text begins with an ASCII digit. -/
def beginsWithDigit (s : String) : Bool := s.toList.head?.any Char.isDigit

theorem guardDigit_eq (s : String) : guardDigit s = if beginsWithDigit s then "_" ++ s else s := by
  unfold guardDigit beginsWithDigit
  cases s.toList with
  | nil => rfl
  | cons c rest => rfl

theorem guardDigit_eq_self {s : String} (h : beginsWithDigit s = false) : guardDigit s = s := by
  rw [guardDigit_eq, h]
  rfl

theorem beginsWithDigit_append (a b : String) :
    beginsWithDigit (a ++ b) = if a = "" then beginsWithDigit b else beginsWithDigit a := by
  unfold beginsWithDigit
  rw [String.toList_append]
  split
  · rename_i ha
    rw [ha]
    rfl
  · rename_i ha
    cases hlist : a.toList with
    | nil => exact absurd (String.toList_eq_nil_iff.mp hlist) ha
    | cons c rest => rfl

theorem beginsWithDigit_guardDigit (s : String) : beginsWithDigit (guardDigit s) = false := by
  rw [guardDigit_eq]
  split
  · rw [beginsWithDigit_append]
    rfl
  · rename_i h
    exact Bool.eq_false_iff.mpr h

/-- A tail that does not begin with a digit is left alone, even behind an empty name. -/
theorem guardDigit_append (a : String) {b : String} (hb : beginsWithDigit b = false) :
    guardDigit (a ++ b) = guardDigit a ++ b := by
  rw [guardDigit_eq, guardDigit_eq, beginsWithDigit_append]
  by_cases ha : a = ""
  · subst ha
    rw [if_pos rfl, hb]
    rfl
  · rw [if_neg ha]
    split
    · rw [String.append_assoc]
    · rfl

theorem guardDigit_guardDigit (s : String) : guardDigit (guardDigit s) = guardDigit s :=
  guardDigit_eq_self (beginsWithDigit_guardDigit s)

end Text

theorem Symbol.guardDigit_element (array : String) (position : Nat) :
    Text.guardDigit (element array position) = element (Text.guardDigit array) position := by
  have hb : Text.beginsWithDigit ("[" ++ (Numeral.decimal position ++ "]")) = false := by
    rw [Text.beginsWithDigit_append]
    rfl
  unfold element
  simp only [String.append_assoc]
  exact Text.guardDigit_append array hb

/-! ### Words -/

namespace Text

/-- A C identifier: word characters, one at least, and no digit in front. -/
structure IsIdentifier (s : String) : Prop where
  nonempty : s ≠ ""
  wordChars : ∀ c ∈ s.toList, isWordChar c = true
  noDigit : beginsWithDigit s = false

def hasWordChar (s : String) : Bool := s.toList.any isWordChar

theorem forall_extendFirst {P : Char → Prop} {c : Char} {runs : List (List Char)} (hc : P c)
    (h : ∀ run ∈ runs, run ≠ [] ∧ ∀ c ∈ run, P c) :
    ∀ run ∈ extendFirst c runs, run ≠ [] ∧ ∀ c ∈ run, P c := by
  cases runs with
  | nil => simpa [extendFirst] using hc
  | cons first rest =>
    obtain ⟨hfirst, hrest⟩ := List.forall_mem_cons.mp h
    have hextended : ∀ d ∈ c :: first, P d := List.forall_mem_cons.mpr ⟨hc, hfirst.2⟩
    exact List.forall_mem_cons.mpr ⟨⟨List.cons_ne_nil c first, hextended⟩, hrest⟩

theorem forall_wordRuns (cs : List Char) :
    ∀ run ∈ wordRuns cs, run ≠ [] ∧ ∀ c ∈ run, isWordChar c = true := by
  induction cs with
  | nil => simp [wordRuns]
  | cons c rest ih =>
    unfold wordRuns
    split
    · rename_i hc
      split
      · exact forall_extendFirst hc ih
      · have hrun : [c] ≠ [] ∧ ∀ d ∈ [c], isWordChar d = true := by simp [hc]
        exact List.forall_mem_cons.mpr ⟨hrun, ih⟩
    · exact ih

theorem wordRuns_eq_nil_iff {cs : List Char} : wordRuns cs = [] ↔ cs.any isWordChar = false := by
  induction cs with
  | nil => simp [wordRuns]
  | cons c rest ih =>
    unfold wordRuns
    by_cases hc : isWordChar c = true
    · have hne : extendFirst c (wordRuns rest) ≠ [] := by
        cases wordRuns rest with
        | nil => exact List.cons_ne_nil _ _
        | cons run runs => exact List.cons_ne_nil _ _
      rw [if_pos hc]
      split
      · simp [hne, hc]
      · simp [hc]
    · rw [if_neg hc, ih]
      simp [hc]

theorem mem_intercalate {c : Char} {runs : List (List Char)}
    (h : c ∈ ['_'].intercalate runs) : c = '_' ∨ ∃ run ∈ runs, c ∈ run := by
  induction runs with
  | nil => simp at h
  | cons run runs ih =>
    cases runs with
    | nil =>
      rw [List.intercalate_singleton] at h
      exact Or.inr ⟨run, List.mem_cons_self, h⟩
    | cons run' runs =>
      rw [List.intercalate_cons_cons, List.append_assoc, List.mem_append] at h
      rcases h with h | h
      · exact Or.inr ⟨run, List.mem_cons_self, h⟩
      · rcases List.mem_cons.mp h with h | h
        · exact Or.inl h
        · rcases ih h with h | ⟨run'', hmem, hc⟩
          · exact Or.inl h
          · exact Or.inr ⟨run'', List.mem_cons_of_mem run hmem, hc⟩

theorem isWordChar_of_mem_joinedWords {s : String} {c : Char} (h : c ∈ (joinedWords s).toList) :
    isWordChar c = true := by
  unfold joinedWords at h
  rw [String.toList_ofList] at h
  rcases mem_intercalate h with rfl | ⟨run, hrun, hc⟩
  · decide
  · exact (forall_wordRuns s.toList run hrun).2 c hc

theorem joinedWords_eq_empty_iff {s : String} : joinedWords s = "" ↔ hasWordChar s = false := by
  unfold joinedWords hasWordChar
  rw [String.ofList_eq_empty_iff, ← wordRuns_eq_nil_iff]
  have hruns := forall_wordRuns s.toList
  cases hlist : wordRuns s.toList with
  | nil => simp
  | cons run runs =>
    rw [hlist] at hruns
    have hne : run ≠ [] := (hruns run List.mem_cons_self).1
    cases runs with
    | nil => simp [hne]
    | cons run' runs => simp [List.intercalate_cons_cons]

/-! #### Texts of word characters -/

theorem wordRuns_eq_singleton {cs : List Char} (hne : cs ≠ [])
    (h : ∀ c ∈ cs, isWordChar c = true) : wordRuns cs = [cs] := by
  induction cs with
  | nil => exact absurd rfl hne
  | cons c rest ih =>
    obtain ⟨hc, hrest⟩ := List.forall_mem_cons.mp h
    rw [wordRuns, if_pos hc]
    cases rest with
    | nil => rfl
    | cons d rest =>
      have hd : (d :: rest).head?.any isWordChar = true := hrest d List.mem_cons_self
      rw [if_pos hd, ih (List.cons_ne_nil d rest) hrest]
      rfl

/-- Nothing is lost of a text that has word characters only. -/
theorem joinedWords_eq_self {s : String} (h : ∀ c ∈ s.toList, isWordChar c = true) :
    joinedWords s = s := by
  unfold joinedWords
  by_cases hnil : s.toList = []
  · rw [hnil, String.toList_eq_nil_iff.mp hnil]
    rfl
  · rw [wordRuns_eq_singleton hnil h, List.intercalate_singleton, String.ofList_toList]

/-- Word characters at the end of a text are the end of its last run. -/
theorem exists_wordRuns_append (a : List Char) {w : List Char} (hne : w ≠ [])
    (hw : ∀ c ∈ w, isWordChar c = true) : ∃ runs run, wordRuns (a ++ w) = runs ++ [run ++ w] := by
  induction a with
  | nil => exact ⟨[], [], wordRuns_eq_singleton hne hw⟩
  | cons c a ih =>
    obtain ⟨runs, run, hruns⟩ := ih
    rw [List.cons_append, wordRuns, hruns]
    split
    · split
      · cases runs with
        | nil => exact ⟨[], c :: run, rfl⟩
        | cons first runs => exact ⟨(c :: first) :: runs, run, rfl⟩
      · exact ⟨[c] :: runs, run, rfl⟩
    · exact ⟨runs, run, rfl⟩

theorem exists_intercalate_append (runs : List (List Char)) (last : List Char) :
    ∃ front, ['_'].intercalate (runs ++ [last]) = front ++ last := by
  induction runs with
  | nil => exact ⟨[], List.intercalate_singleton⟩
  | cons run runs ih =>
    obtain ⟨front, hfront⟩ := ih
    have hne : runs ++ [last] ≠ [] := List.append_ne_nil_of_right_ne_nil _ (List.cons_ne_nil _ _)
    refine ⟨run ++ ['_'] ++ front, ?_⟩
    rw [List.cons_append, List.intercalate_cons_of_ne_nil hne, hfront, ← List.append_assoc]

/-! ### Identifiers -/

theorem isWordChar_of_mem_guardDigit {s : String} (h : ∀ c ∈ s.toList, isWordChar c = true) :
    ∀ c ∈ (guardDigit s).toList, isWordChar c = true := by
  rw [guardDigit_eq]
  split
  · rw [String.toList_append]
    exact List.forall_mem_cons.mpr ⟨by decide, h⟩
  · exact h

theorem guardDigit_eq_empty_iff {s : String} : guardDigit s = "" ↔ s = "" := by
  rw [guardDigit_eq]
  split
  · rename_i hdigit
    constructor
    · intro h
      have hnil := congrArg String.toList h
      rw [String.toList_append] at hnil
      exact absurd hnil (List.cons_ne_nil _ _)
    · rintro rfl
      exact absurd hdigit (by decide)
  · rfl

theorem isWordChar_of_mem_identifier (s : String) :
    ∀ c ∈ (identifier s).toList, isWordChar c = true :=
  isWordChar_of_mem_guardDigit fun _ => isWordChar_of_mem_joinedWords

theorem beginsWithDigit_identifier (s : String) : beginsWithDigit (identifier s) = false :=
  beginsWithDigit_guardDigit (joinedWords s)

theorem identifier_eq_empty_iff {s : String} : identifier s = "" ↔ hasWordChar s = false := by
  unfold identifier
  rw [guardDigit_eq_empty_iff, joinedWords_eq_empty_iff]

theorem exists_identifier_append (a : String) {w : String} (hne : w ≠ "")
    (hw : ∀ c ∈ w.toList, isWordChar c = true) :
    ∃ front, (identifier (a ++ w)).toList = front ++ w.toList := by
  have hlist : w.toList ≠ [] := fun hnil => hne (String.toList_eq_nil_iff.mp hnil)
  obtain ⟨runs, run, hruns⟩ := exists_wordRuns_append a.toList hlist hw
  obtain ⟨front, hfront⟩ := exists_intercalate_append runs (run ++ w.toList)
  have hjoined : (joinedWords (a ++ w)).toList = (front ++ run) ++ w.toList := by
    unfold joinedWords
    rw [String.toList_ofList, String.toList_append, hruns, hfront, List.append_assoc]
  unfold identifier
  rw [guardDigit_eq]
  split
  · exact ⟨'_' :: (front ++ run), by rw [String.toList_append, hjoined]; rfl⟩
  · exact ⟨front ++ run, hjoined⟩

theorem isIdentifier_identifier_iff {s : String} :
    IsIdentifier (identifier s) ↔ hasWordChar s = true := by
  rw [← Bool.not_eq_false, ← identifier_eq_empty_iff]
  constructor
  · intro h
    exact h.nonempty
  · intro h
    exact ⟨h, isWordChar_of_mem_identifier s, beginsWithDigit_identifier s⟩

end Text
end CanopenTables
