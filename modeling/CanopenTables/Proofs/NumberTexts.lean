import CanopenTables.Proofs.Identifiers
import CanopenTables.Proofs.SourceTokens
import Mathlib.Algebra.Group.Nat.Defs
import Mathlib.Data.List.TakeWhile

/-!
# Texts of numbers

Decimal numbers are read in the names of types and written in comments; hexadecimal ones are only
written.

* **Decimal.**  `IsDecimal` says which digits denote which number, with as many zeros in front as
  one likes.  The reader accepts exactly these texts (`readDecimal?_eq_some_iff`), and every number
  is written as one of them (`isDecimal_decimal`).
* **Hexadecimal.**  A number is told by its digits, in capitals or in small letters and whatever the
  width (`number_upperHex`, `number_lowerHex`).
* **Cutting.**  Readers take all characters of one sort, up to the first of another; that is the
  only way to cut a text there (`takeWhile_dropWhile_eq_iff`).
-/

namespace CanopenTables

/-! ### Cutting a list -/

/-- A list is cut where the first member of another sort stands, and nowhere else. -/
theorem takeWhile_dropWhile_eq_iff {α : Type} {p : α → Bool} {l front rest : List α} :
    (l.takeWhile p = front ∧ l.dropWhile p = rest) ↔
      l = front ++ rest ∧ (∀ a ∈ front, p a = true) ∧ ∀ a ∈ rest.head?, p a = false := by
  constructor
  · rintro ⟨rfl, rfl⟩
    refine ⟨List.takeWhile_append_dropWhile.symm, fun a => List.mem_takeWhile_imp, fun a ha => ?_⟩
    have hhead := List.head?_dropWhile_not p l
    rw [Option.mem_def.mp ha] at hhead
    exact hhead
  · rintro ⟨rfl, hfront, hrest⟩
    rw [List.takeWhile_append_of_pos hfront, List.dropWhile_append_of_pos hfront]
    cases rest with
    | nil => exact ⟨List.append_nil front, rfl⟩
    | cons a rest =>
      have ha : ¬ p a = true := Bool.eq_false_iff.mp (hrest a rfl)
      rw [List.takeWhile_cons_of_neg ha, List.dropWhile_cons_of_neg ha]
      exact ⟨List.append_nil front, rfl⟩

namespace Numeral

/-! ### Decimal digits -/

/-- Some digits denote a number: a digit alone denotes itself, and in front of a further digit a
number counts tenfold. -/
inductive IsDecimal : List Char → Nat → Prop
  | digit {d : Nat} (hd : d < 10) : IsDecimal [Nat.digitChar d] d
  | next {digits : List Char} {n d : Nat} (h : IsDecimal digits n) (hd : d < 10) :
    IsDecimal (digits ++ [Nat.digitChar d]) (10 * n + d)

theorem isDigit_digitChar {d : Nat} (hd : d < 10) : (Nat.digitChar d).isDigit = true := by
  have hall : ∀ d < 10, (Nat.digitChar d).isDigit = true := by decide
  exact hall d hd

theorem digitChar_of_isDigit {c : Char} (hc : c.isDigit = true) :
    c.toNat - '0'.toNat < 10 ∧ Nat.digitChar (c.toNat - '0'.toNat) = c := by
  have hzero : '0'.toNat = 48 := rfl
  have hnine : '9'.toNat = 57 := rfl
  obtain ⟨hmin, hmax⟩ := Char.isDigit_iff_toNat.mp hc
  have hlt : c.toNat - '0'.toNat < 10 := by omega
  refine ⟨hlt, Char.toNat_inj.mp ?_⟩
  rw [Nat.toNat_digitChar_of_lt_ten hlt]
  omega

namespace IsDecimal

variable {digits : List Char} {n : Nat}

theorem ne_nil (h : IsDecimal digits n) : digits ≠ [] := by
  cases h with
  | digit hd => exact List.cons_ne_nil _ _
  | next h hd => exact List.append_ne_nil_of_right_ne_nil _ (List.cons_ne_nil _ _)

theorem isDigit (h : IsDecimal digits n) : ∀ c ∈ digits, c.isDigit = true := by
  induction h with
  | digit hd =>
    rw [List.forall_mem_singleton]
    exact isDigit_digitChar hd
  | next _ hd ih =>
    intro c hc
    rcases List.mem_append.mp hc with hc | hc
    · exact ih c hc
    · rw [List.mem_singleton.mp hc]
      exact isDigit_digitChar hd

theorem ofDigitChars_eq (h : IsDecimal digits n) : Nat.ofDigitChars 10 digits 0 = n := by
  induction h with
  | digit hd => simpa [Nat.ofDigitChars_cons] using Nat.toNat_digitChar_sub_48_of_lt_ten hd
  | next _ hd ih =>
    rw [Nat.ofDigitChars_append, ih, Nat.ofDigitChars_cons]
    simpa using Nat.toNat_digitChar_sub_48_of_lt_ten hd

end IsDecimal

theorem isDecimal_ofDigitChars {digits : List Char} (hne : digits ≠ [])
    (hdigits : ∀ c ∈ digits, c.isDigit = true) :
    IsDecimal digits (Nat.ofDigitChars 10 digits 0) := by
  induction digits using List.reverseRecOn with
  | nil => exact absurd rfl hne
  | append_singleton digits c ih =>
    obtain ⟨hlt, hc⟩ := digitChar_of_isDigit (hdigits c (by simp))
    rw [Nat.ofDigitChars_append]
    by_cases hnil : digits = []
    · subst hnil
      have hdigit := IsDecimal.digit hlt
      rw [hc] at hdigit
      simpa [Nat.ofDigitChars_cons] using hdigit
    · have hnext := (ih hnil fun c hc => hdigits c (List.mem_append_left _ hc)).next hlt
      rwa [hc] at hnext

theorem readDecimal?_eq_some_iff {digits : List Char} {n : Nat} :
    readDecimal? digits = some n ↔ IsDecimal digits n := by
  unfold readDecimal?
  constructor
  · intro h
    split at h
    · rename_i hdigits
      cases h
      exact isDecimal_ofDigitChars hdigits.1 (List.all_eq_true.mp hdigits.2)
    · cases h
  · intro h
    rw [if_pos ⟨h.ne_nil, List.all_eq_true.mpr h.isDigit⟩, h.ofDigitChars_eq]

theorem exists_isDecimal_iff {digits : List Char} :
    (∃ n, IsDecimal digits n) ↔ digits ≠ [] ∧ ∀ c ∈ digits, c.isDigit = true := by
  constructor
  · rintro ⟨n, h⟩
    exact ⟨h.ne_nil, h.isDigit⟩
  · rintro ⟨hne, hdigits⟩
    exact ⟨_, isDecimal_ofDigitChars hne hdigits⟩

theorem isDecimal_decimal (n : Nat) : IsDecimal (decimal n).toList n :=
  readDecimal?_eq_some_iff.mp (readDecimal?_decimal n)

end Numeral

/-! ### Hexadecimal digits -/

theorem Numeral.length_upperHex {width n : Nat} (hwidth : 0 < width) (h : n < 16 ^ width) :
    (upperHex width n).toList.length = width := by
  have hle := (Nat.length_toDigits_le_iff (by decide) hwidth).mpr h
  unfold upperHex padded
  rw [String.toList_ofList, List.length_append, List.length_replicate, List.length_map]
  omega

namespace SourceText

theorem number_append_singleton (base : Nat) (digits : List Char) (c : Char) :
    number base (digits ++ [c]) = base * number base digits + (hexDigit? c).getD 0 := by
  unfold number
  rw [List.foldl_append]
  rfl

theorem number_padded (base width : Nat) (digits : List Char) :
    number base (Numeral.padded width digits) = number base digits := by
  unfold Numeral.padded
  induction width - digits.length with
  | zero => rfl
  | succ k ih =>
    rw [← ih, List.replicate_succ, List.cons_append]
    show List.foldl _ (base * 0 + 0) _ = _
    rw [Nat.mul_zero]
    rfl

section letters

variable {f : Char → Char} (hf : ∀ d < 16, hexDigit? (f (Nat.digitChar d)) = some d)

include hf

/-- Digits denote the number that they are taken from, in all letters that keep their values. -/
theorem number_map_toDigits (n : Nat) : number 16 ((Nat.toDigits 16 n).map f) = n := by
  induction n using Nat.strongRecOn with
  | ind n ih =>
    rw [Nat.toDigits_eq_if (by decide)]
    split
    · rename_i hlt
      rw [List.map_singleton, ← List.nil_append [f _], number_append_singleton, hf n hlt]
      show 16 * 0 + n = n
      omega
    · rename_i hle
      rw [List.map_append, List.map_singleton, number_append_singleton,
        ih (n / 16) (Nat.div_lt_self (by omega) (by decide)), hf _ (Nat.mod_lt n (by decide))]
      exact Nat.div_add_mod n 16

theorem isHexDigit_of_mem_padded {width n : Nat} {c : Char}
    (h : c ∈ Numeral.padded width ((Nat.toDigits 16 n).map f)) : isHexDigit c = true := by
  unfold Numeral.padded at h
  rcases List.mem_append.mp h with h | h
  · rw [List.eq_of_mem_replicate h]
    decide
  · obtain ⟨digit, hdigit, rfl⟩ := List.mem_map.mp h
    obtain ⟨d, hd, rfl⟩ := Numeral.exists_digitChar_of_mem_toDigits (by decide) hdigit
    unfold isHexDigit
    rw [hf d hd]
    rfl

end letters

theorem hexDigit?_digitChar : ∀ d < 16, hexDigit? (Nat.digitChar d) = some d := by decide

theorem hexDigit?_toUpper_digitChar : ∀ d < 16, hexDigit? (Nat.digitChar d).toUpper = some d := by
  decide

theorem number_upperHex (width n : Nat) : number 16 (Numeral.upperHex width n).toList = n := by
  unfold Numeral.upperHex
  rw [String.toList_ofList, number_padded, number_map_toDigits hexDigit?_toUpper_digitChar]

theorem number_lowerHex (width n : Nat) : number 16 (Numeral.lowerHex width n).toList = n := by
  unfold Numeral.lowerHex
  rw [String.toList_ofList, number_padded, ← List.map_id (Nat.toDigits 16 n),
    number_map_toDigits hexDigit?_digitChar]

theorem isHexDigit_of_mem_upperHex {width n : Nat} {c : Char}
    (h : c ∈ (Numeral.upperHex width n).toList) : isHexDigit c = true := by
  unfold Numeral.upperHex at h
  rw [String.toList_ofList] at h
  exact isHexDigit_of_mem_padded hexDigit?_toUpper_digitChar h

theorem isHexDigit_of_mem_lowerHex {width n : Nat} {c : Char}
    (h : c ∈ (Numeral.lowerHex width n).toList) : isHexDigit c = true := by
  unfold Numeral.lowerHex at h
  rw [String.toList_ofList, ← List.map_id (Nat.toDigits 16 n)] at h
  exact isHexDigit_of_mem_padded hexDigit?_digitChar h

end SourceText

namespace Symbol

theorem length_digits (i : Index) : (digits i).toList.length = 4 :=
  Numeral.length_upperHex (by decide) i.toNat_lt

theorem digits_injective {i j : Index} (h : digits i = digits j) : i = j := by
  have hnumber := congrArg (fun s => SourceText.number 16 s.toList) h
  unfold digits at hnumber
  simp only [SourceText.number_upperHex] at hnumber
  exact UInt16.toNat_inj.mp hnumber

end Symbol
end CanopenTables
