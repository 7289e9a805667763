import CanopenTables.DataType.Family
import CanopenTables.Proofs.NumberTexts

/-!
# Names of families

A type is supported if its name is spelled like that of a family.  `Family.Spells` lists the
spellings, and `Family.classify` finds the family of each of them and of no other text.

* **Cutting.**  Letters are not digits, so a name falls into a word and digits in one way only
  (`classify_eq_some_iff`), whether the word is taken as long or as short as possible.
* **Digits.**  Widths and lengths may have zeros in front; what denotes no width of an integer, or
  a length beyond 64 bits, is no name at all (`integerWidth?_eq_some_iff`,
  `declaredLength?_eq_some_iff`).  The widths of reals are compared as texts.

Main statement: `classify_spelling`.
-/

namespace CanopenTables

/-! ### Letters and digits -/

theorem isTypeLetter_eq_false_of_isDigit {c : Char} (h : c.isDigit = true) :
    isTypeLetter c = false := by
  have hall : ∀ d < 10, isTypeLetter (Nat.digitChar d) = false := by decide
  obtain ⟨hlt, hc⟩ := Numeral.digitChar_of_isDigit h
  rw [← hc]
  exact hall _ hlt

theorem takeWhile_isTypeLetter_eq {name word digits : List Char} (hname : name = word ++ digits)
    (hword : ∀ c ∈ word, isTypeLetter c = true) (hdigits : ∀ c ∈ digits, c.isDigit = true) :
    name.takeWhile isTypeLetter = word ∧ name.dropWhile isTypeLetter = digits :=
  takeWhile_dropWhile_eq_iff.mpr ⟨hname, hword, fun c hc =>
    isTypeLetter_eq_false_of_isDigit (hdigits c (List.mem_of_head? hc))⟩

namespace Family

/-! ### Digits -/

theorem mem_integerWidths_iff {w : Nat} : w ∈ integerWidths ↔ 8 ∣ w ∧ 8 ≤ w ∧ w ≤ 64 := by
  unfold integerWidths
  simp only [List.mem_cons, List.not_mem_nil, or_false]
  omega

theorem integerWidth?_eq_some_iff {digits : List Char} {w : Nat} :
    integerWidth? digits = some w ↔ Numeral.IsDecimal digits w ∧ 8 ∣ w ∧ 8 ≤ w ∧ w ≤ 64 := by
  unfold integerWidth?
  rw [Option.filter_eq_some_iff, Numeral.readDecimal?_eq_some_iff, List.contains_iff_mem,
    mem_integerWidths_iff]

theorem declaredLength?_eq_some_iff {digits : List Char} {n : Nat} :
    declaredLength? digits = some n ↔ Numeral.IsDecimal digits n ∧ n < 2 ^ 64 := by
  have hsize : UInt64.size = 2 ^ 64 := rfl
  unfold declaredLength?
  rw [Option.filter_eq_some_iff, Numeral.readDecimal?_eq_some_iff, decide_eq_true_iff, hsize]

/-! ### Spellings -/

/-- The spellings of the supported types. -/
inductive Spells : String → Family → Prop
  | unsigned {digits : List Char} {w : Nat} (hdigits : Numeral.IsDecimal digits w)
      (hw : 8 ∣ w ∧ 8 ≤ w ∧ w ≤ 64) : Spells ("UNSIGNED" ++ String.ofList digits) (.unsigned w)
  | integer {digits : List Char} {w : Nat} (hdigits : Numeral.IsDecimal digits w)
      (hw : 8 ∣ w ∧ 8 ≤ w ∧ w ≤ 64) : Spells ("INTEGER" ++ String.ofList digits) (.integer w)
  | real32 : Spells "REAL32" (.real 32)
  | real64 : Spells "REAL64" (.real 64)
  | string {word : String} (hword : word = "VISIBLE_STRING" ∨ word = "OCTET_STRING") :
    Spells word (.string none)
  | sizedString {word : String} (hword : word = "VISIBLE_STRING" ∨ word = "OCTET_STRING")
      {digits : List Char} {n : Nat} (hdigits : Numeral.IsDecimal digits n) (hn : n < 2 ^ 64) :
    Spells (word ++ String.ofList digits) (.string (some n))
  | domain : Spells "DOMAIN" .domain
  | boolean : Spells "BOOLEAN" .boolean

/-- A name is classified by the only way to cut it into a word and digits. -/
theorem classify_eq_some_iff {name : String} {f : Family} :
    classify name = some f ↔ ∃ word digits : List Char, name.toList = word ++ digits ∧
      (∀ c ∈ word, isTypeLetter c = true) ∧ (∀ c ∈ digits, c.isDigit = true) ∧
      ofParts? (String.ofList word) digits = some f := by
  unfold classify
  dsimp only
  constructor
  · intro h
    split at h
    · rename_i hdigits
      exact ⟨_, _, List.takeWhile_append_dropWhile.symm, fun c => List.mem_takeWhile_imp,
        List.all_eq_true.mp hdigits, h⟩
    · cases h
  · rintro ⟨word, digits, hname, hword, hdigits, h⟩
    obtain ⟨htake, hdrop⟩ := takeWhile_isTypeLetter_eq hname hword hdigits
    rw [htake, hdrop, if_pos (List.all_eq_true.mpr hdigits), h]

theorem classify_append {word : String} {digits : List Char} {f : Family}
    (hword : word.toList.all isTypeLetter = true) (hdigits : ∀ c ∈ digits, c.isDigit = true)
    (h : ofParts? word digits = some f) : classify (word ++ String.ofList digits) = some f := by
  refine classify_eq_some_iff.mpr
    ⟨word.toList, digits, ?_, List.all_eq_true.mp hword, hdigits, ?_⟩
  · rw [String.toList_append, String.toList_ofList]
  · rw [String.ofList_toList]
    exact h

theorem spells_of_ofParts {word : String} {digits : List Char} {f : Family}
    (h : ofParts? word digits = some f) : Spells (word ++ String.ofList digits) f := by
  unfold ofParts? at h
  split_ifs at h with hunsigned hinteger hreal h32 h64 hstring hnil hdomain hboolean
  · subst hunsigned
    obtain ⟨w, hw, rfl⟩ := Option.map_eq_some_iff.mp h
    obtain ⟨hdigits, hwidth⟩ := integerWidth?_eq_some_iff.mp hw
    exact .unsigned hdigits hwidth
  · subst hinteger
    obtain ⟨w, hw, rfl⟩ := Option.map_eq_some_iff.mp h
    obtain ⟨hdigits, hwidth⟩ := integerWidth?_eq_some_iff.mp hw
    exact .integer hdigits hwidth
  · subst hreal h32
    cases h
    exact .real32
  · subst hreal h64
    cases h
    exact .real64
  · subst hnil
    cases h
    rw [String.ofList_nil, String.append_empty]
    exact .string hstring
  · obtain ⟨n, hn, rfl⟩ := Option.map_eq_some_iff.mp h
    obtain ⟨hdigits, hlength⟩ := declaredLength?_eq_some_iff.mp hn
    exact .sizedString hstring hdigits hlength
  · obtain ⟨rfl, rfl⟩ := hdomain
    cases h
    exact .domain
  · obtain ⟨rfl, rfl⟩ := hboolean
    cases h
    exact .boolean

theorem spells_of_classify {name : String} {f : Family} (h : classify name = some f) :
    Spells name f := by
  obtain ⟨word, digits, hname, -, -, hparts⟩ := classify_eq_some_iff.mp h
  have hspells := spells_of_ofParts hparts
  rwa [← String.ofList_append, ← hname, String.ofList_toList] at hspells

theorem Spells.classify_eq {name : String} {f : Family} (h : Spells name f) :
    classify name = some f := by
  cases h with
  | unsigned hdigits hw =>
    refine classify_append (by decide) hdigits.isDigit ?_
    rw [ofParts?, if_pos rfl, integerWidth?_eq_some_iff.mpr ⟨hdigits, hw⟩]
    rfl
  | integer hdigits hw =>
    refine classify_append (by decide) hdigits.isDigit ?_
    rw [ofParts?, if_neg (by decide), if_pos rfl, integerWidth?_eq_some_iff.mpr ⟨hdigits, hw⟩]
    rfl
  | real32 => decide +kernel
  | real64 => decide +kernel
  | string hword =>
    rcases hword with rfl | rfl
    · decide +kernel
    · decide +kernel
  | sizedString hword hdigits hn =>
    have hlength := declaredLength?_eq_some_iff.mpr ⟨hdigits, hn⟩
    rcases hword with rfl | rfl
    · refine classify_append (by decide) hdigits.isDigit ?_
      simp [ofParts?, hdigits.ne_nil, hlength]
    · refine classify_append (by decide) hdigits.isDigit ?_
      simp [ofParts?, hdigits.ne_nil, hlength]
  | domain => decide +kernel
  | boolean => decide +kernel

/-- Supported names have capital letters, underscores and digits only. -/
theorem isTypeLetter_or_isDigit_of_classify {name : String} {f : Family}
    (h : classify name = some f) {c : Char} (hc : c ∈ name.toList) :
    isTypeLetter c = true ∨ c.isDigit = true := by
  obtain ⟨word, digits, hname, hword, hdigits, -⟩ := classify_eq_some_iff.mp h
  rw [hname] at hc
  exact (List.mem_append.mp hc).imp (hword c) (hdigits c)

/-- **Classification.**  Every name is classified as the family whose spelling it is, and not at
all if it is no spelling.  No spelling has any other characters than capital letters, underscores
and digits. -/
theorem classify_spelling (name : String) :
    (∀ f, classify name = some f ↔ Spells name f) ∧
    (classify name = none ↔ ∀ f, ¬ Spells name f) ∧
    ((∃ c ∈ name.toList, isTypeLetter c = false ∧ c.isDigit = false) → classify name = none) := by
  have hiff (f : Family) : classify name = some f ↔ Spells name f :=
    ⟨spells_of_classify, Spells.classify_eq⟩
  refine ⟨hiff, ?_, ?_⟩
  · rw [Option.eq_none_iff_forall_ne_some]
    exact forall_congr' fun f => not_congr (hiff f)
  · rintro ⟨c, hc, hletter, hdigit⟩
    rw [Option.eq_none_iff_forall_ne_some]
    intro f hf
    rcases isTypeLetter_or_isDigit_of_classify hf hc with h | h
    · exact Bool.false_ne_true (hletter.symm.trans h)
    · exact Bool.false_ne_true (hdigit.symm.trans h)

example : classify "UNSIGNED008" = some (.unsigned 8) := by decide +kernel

/-- The width of a real is no number. -/
example : classify "REAL032" = none := by decide +kernel

example : classify "OCTET_STRING18446744073709551616" = none := by decide +kernel

end Family
end CanopenTables
