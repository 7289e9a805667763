import CanopenTables.Literal
import CanopenTables.Proofs.NumberTexts
import Mathlib.Algebra.Order.Field.Basic
import Mathlib.Algebra.Order.Field.Rat
import Mathlib.Algebra.Ring.Int.Parity
import Mathlib.Tactic.Linarith
import Mathlib.Tactic.Positivity
import Mathlib.Tactic.Ring

/-!
# Reals with six places

A real is written as the multiple of a millionth that is nearest to the number its word denotes.

* **Numbers.**  A finite word denotes a rational number, told from its three fields
  (`Binary64.value?`); the significand and the exponent that are computed with denote the same one
  (`Binary64.exists_datum_of_value?`).
* **Rounding.**  The quotient is rounded to the integer that no other one is nearer than, an even
  one where two are equally near (`isNearest_roundHalfEven`).  What is nearest to a number is at
  most half a unit away from it (`isNearest_iff`), so larger numbers are not rounded to smaller
  integers.
* **Texts.**  `IsFixedPoint` says how a count of millionths is written; a text has one sign and one
  count (`IsFixedPoint.unique`).

Main statement: `Literal.reals_rounded`.
-/

namespace CanopenTables

/-! ### Nearest integers -/

/-- An integer is nearest to a number: any other is farther away, or as far if the integer is
even. -/
def IsNearest (q : ℚ) (z : ℤ) : Prop :=
  ∀ m : ℤ, m ≠ z → |q - z| < |q - m| ∨ |q - z| = |q - m| ∧ Even z

variable {q q' : ℚ} {z z' : ℤ}

/-- The neighbour on the side of a number is off by what is missing to a unit. -/
theorem exists_neighbour (q : ℚ) (z : ℤ) : ∃ m : ℤ, m ≠ z ∧ |q - m| = |1 - (|q - z|)| := by
  rcases le_total (z : ℚ) q with hle | hle
  · refine ⟨z + 1, by omega, ?_⟩
    rw [abs_of_nonneg (sub_nonneg.mpr hle), abs_sub_comm]
    congr 1
    push_cast
    ring
  · refine ⟨z - 1, by omega, ?_⟩
    rw [abs_of_nonpos (sub_nonpos.mpr hle)]
    congr 1
    push_cast
    ring

theorem isNearest_iff : IsNearest q z ↔ |q - z| ≤ 1 / 2 ∧ (|q - z| = 1 / 2 → Even z) := by
  constructor
  · intro h
    obtain ⟨m, hm, hdistance⟩ := exists_neighbour q z
    have hmin := h m hm
    rw [hdistance] at hmin
    have hle : |q - z| ≤ |1 - (|q - z|)| := hmin.elim le_of_lt fun htie => htie.1.le
    constructor
    · by_contra hfar
      have hhalf := not_le.mp hfar
      have hnearer : |1 - (|q - z|)| < |q - z| := abs_lt.mpr ⟨by linarith, by linarith⟩
      exact absurd hle (not_le.mpr hnearer)
    · -- Half a unit away the neighbour is as near, so only the parity can decide.
      intro heq
      rcases hmin with hlt | htie
      · rw [heq] at hlt
        norm_num at hlt
      · exact htie.2
  · -- Any two integers are a unit apart, so another one is at least half a unit away.
    rintro ⟨hle, heven⟩ m hm
    have hone : (1 : ℚ) ≤ |(z : ℚ) - m| := by
      exact_mod_cast Int.one_le_abs (sub_ne_zero.mpr hm.symm)
    have htriangle : |(z : ℚ) - m| ≤ |q - z| + |q - m| := by
      rw [abs_sub_comm q z]
      exact abs_sub_le (z : ℚ) q m
    rcases hle.lt_or_eq with hlt | heq
    · exact .inl (by linarith)
    · rcases (show |q - z| ≤ |q - m| by linarith).lt_or_eq with hlt | htie
      · exact .inl hlt
      · exact .inr ⟨htie, heven heq⟩

theorem IsNearest.neg (h : IsNearest q z) : IsNearest (-q) (-z) := by
  have hdistance : |-q - ((-z : ℤ) : ℚ)| = |q - z| := by
    rw [← abs_neg]
    congr 1
    push_cast
    ring
  rw [isNearest_iff] at h ⊢
  rwa [hdistance, even_neg]

theorem IsNearest.le (h : IsNearest q z) (h' : IsNearest q' z') (hle : q ≤ q') : z ≤ z' := by
  obtain ⟨hnear, heven⟩ := isNearest_iff.mp h
  obtain ⟨hnear', heven'⟩ := isNearest_iff.mp h'
  by_contra hlt
  have hstep : ((z' : ℚ) + 1) ≤ z := by exact_mod_cast not_le.mp hlt
  obtain ⟨hlow, -⟩ := abs_le.mp hnear
  obtain ⟨-, hhigh⟩ := abs_le.mp hnear'
  -- The number is half way between the two, which are neighbours and cannot both be even.
  have hz : z = z' + 1 := by
    have : (z : ℚ) = z' + 1 := by linarith
    exact_mod_cast this
  have htie : q - z = -(1 / 2) := by linarith
  have htie' : q' - z' = 1 / 2 := by linarith
  have hz_even := heven (by rw [htie]; norm_num)
  have hz_even' := heven' (by rw [htie']; norm_num)
  rw [hz] at hz_even
  exact Int.not_even_iff_odd.mpr (hz_even'.add_one) hz_even

theorem isNearest_of_lt (h : |q - z| < 1 / 2) : IsNearest q z :=
  isNearest_iff.mpr ⟨h.le, fun htie => absurd htie h.ne⟩

theorem isNearest_of_even (h : |q - z| = 1 / 2) (heven : Even z) : IsNearest q z :=
  isNearest_iff.mpr ⟨h.le, fun _ => heven⟩

/-- A natural number and a part of one are rounded by the double of the part. -/
theorem isNearest_add {n : ℕ} {t : ℚ} (hnonneg : 0 ≤ t) (hlt : t < 1) :
    IsNearest (n + t) ((if 2 * t < 1 then n else if 1 < 2 * t then n + 1
      else if n % 2 = 0 then n else n + 1 : ℕ) : ℤ) := by
  have hbelow : |(n : ℚ) + t - ((n : ℕ) : ℤ)| = t := by
    rw [Int.cast_natCast, add_sub_cancel_left, abs_of_nonneg hnonneg]
  have habove : |(n : ℚ) + t - ((n + 1 : ℕ) : ℤ)| = 1 - t := by
    rw [Int.cast_natCast, Nat.cast_succ, add_sub_add_left_eq_sub, abs_sub_comm,
      abs_of_nonneg (by linarith)]
  split
  · exact isNearest_of_lt (by linarith)
  · split
    · exact isNearest_of_lt (by linarith)
    · have htie : t = 1 / 2 := by linarith
      split
      · rename_i heven
        exact isNearest_of_even (by linarith) (by exact_mod_cast Nat.even_iff.mpr heven)
      · rename_i hodd
        refine isNearest_of_even (by linarith) ?_
        have heven : Even (n + 1) := Nat.even_add_one.mpr (mt Nat.even_iff.mp hodd)
        exact_mod_cast heven

theorem isNearest_roundHalfEven (num : ℕ) {den : ℕ} (hden : 0 < den) :
    IsNearest (num / den) (roundHalfEven num den) := by
  have hpos : (0 : ℚ) < den := by exact_mod_cast hden
  have hquotient : (num : ℚ) / den = (num / den : ℕ) + (num % den : ℕ) / den := by
    have hdivision : (num : ℚ) = den * (num / den : ℕ) + (num % den : ℕ) := by
      exact_mod_cast (Nat.div_add_mod num den).symm
    conv_lhs => rw [hdivision, add_div, mul_div_cancel_left₀ _ hpos.ne']
  have hlt_one : ((num % den : ℕ) : ℚ) / den < 1 := by
    rw [div_lt_one hpos]
    exact_mod_cast Nat.mod_lt num hden
  have hlt_iff : 2 * (((num % den : ℕ) : ℚ) / den) < 1 ↔ 2 * (num % den) < den := by
    rw [← mul_div_assoc, div_lt_one hpos]
    exact_mod_cast Iff.rfl
  have hgt_iff : 1 < 2 * (((num % den : ℕ) : ℚ) / den) ↔ den < 2 * (num % den) := by
    rw [← mul_div_assoc, one_lt_div hpos]
    exact_mod_cast Iff.rfl
  have hnearest := @isNearest_add (num / den) _ (by positivity) hlt_one
  rw [hquotient]
  simp only [hlt_iff, hgt_iff] at hnearest
  exact hnearest

theorem isNearest_roundToMillionths (significand : ℕ) (exponent : ℤ) :
    IsNearest (significand * 2 ^ exponent * 10 ^ 6)
      (Numeral.roundToMillionths significand exponent) := by
  have hpow : (2 : ℚ) ^ exponent = 2 ^ exponent.toNat / 2 ^ (-exponent).toNat := by
    obtain ⟨n, rfl | rfl⟩ := exponent.eq_nat_or_neg
    · simp
    · simp
  have hquotient : (significand : ℚ) * 2 ^ exponent * 10 ^ 6 =
      (significand * 2 ^ exponent.toNat * Numeral.million : ℕ) / (2 ^ (-exponent).toNat : ℕ) := by
    rw [hpow, Numeral.million]
    push_cast
    ring
  rw [hquotient]
  exact isNearest_roundHalfEven _ (Nat.two_pow_pos _)

/-! ### Words -/

namespace Binary64

variable {x : Binary64} {r : ℚ}

/-- The absolute value that the fields of a finite word denote.  The fraction counts in parts of
2 ^ 52, to which one is added unless the exponent field is zero, and the exponent is off by
1023. -/
def magnitude (x : Binary64) : ℚ :=
  if x.exponentField = 0 then x.fraction / 2 ^ 52 * 2 ^ (-1022 : ℤ)
  else (1 + x.fraction / 2 ^ 52) * 2 ^ ((x.exponentField : ℤ) - 1023)

/-- The number that a word denotes, unless it is an infinity or no number at all. -/
def value? (x : Binary64) : Option ℚ :=
  if x.exponentField = 2047 then none
  else some (if x.isNegative then -x.magnitude else x.magnitude)

/-- The significand and the exponent that are computed with denote the same number. -/
theorem exists_datum (hfinite : x.exponentField ≠ 2047) :
    ∃ (significand : ℕ) (exponent : ℤ), x.datum = .finite x.isNegative significand exponent ∧
      x.magnitude = significand * 2 ^ exponent := by
  have hpow (e : ℤ) : (2 : ℚ) ^ (e - 52) = 2 ^ e / 2 ^ 52 := by
    rw [zpow_sub₀ two_ne_zero]
    rfl
  unfold datum magnitude
  rw [if_neg hfinite]
  by_cases hzero : x.exponentField = 0
  · rw [if_pos hzero, if_pos hzero]
    refine ⟨x.fraction, -1074, rfl, ?_⟩
    rw [show (-1074 : ℤ) = -1022 - 52 from rfl, hpow]
    ring
  · rw [if_neg hzero, if_neg hzero]
    refine ⟨leadingBit + x.fraction, x.exponentField - 1075, rfl, ?_⟩
    have hleading : ((leadingBit + x.fraction : ℕ) : ℚ) = 2 ^ 52 + x.fraction := by
      norm_num [leadingBit]
    rw [show (x.exponentField : ℤ) - 1075 = x.exponentField - 1023 - 52 by omega, hpow, hleading]
    ring

end Binary64

/-! ### Texts -/

namespace Numeral

/-- How a count of millionths is written: perhaps a minus sign, a whole part that has no zero in
front unless it is zero, a point and six digits. -/
inductive IsFixedPoint : String → Bool → ℕ → Prop
  | parts {negative : Bool} {whole places : List Char} {n f : ℕ} (hwhole : IsDecimal whole n)
    (hzero : whole.head? = some '0' → whole = ['0']) (hplaces : IsDecimal places f)
    (hlength : places.length = 6) :
    IsFixedPoint
      (String.ofList ((if negative then ['-'] else []) ++ whole ++ '.' :: places)) negative
      (n * 10 ^ 6 + f)

variable {digits : List Char} {n : ℕ}

/-- Zeros in front of digits do not count. -/
theorem IsDecimal.padded (h : IsDecimal digits n) (width : ℕ) :
    IsDecimal (padded width digits) n := by
  have hcons {digits : List Char} {n : ℕ} (h : IsDecimal digits n) :
      IsDecimal ('0' :: digits) n := by
    induction h with
    | digit hd =>
      have h := (IsDecimal.digit (show 0 < 10 by decide)).next hd
      rwa [Nat.mul_zero, Nat.zero_add] at h
    | next _ hd ih => exact ih.next hd
  unfold Numeral.padded
  induction width - digits.length with
  | zero => exact h
  | succ k ih => exact hcons ih

theorem isDecimal_toDigits (n : ℕ) : IsDecimal (Nat.toDigits 10 n) n := by
  have h := isDecimal_decimal n
  rwa [decimal, String.toList_ofList] at h

theorem toDigits_eq_of_head? (h : (Nat.toDigits 10 n).head? = some '0') :
    Nat.toDigits 10 n = ['0'] := by
  induction n using Nat.strongRecOn with
  | ind n ih =>
    rw [Nat.toDigits_eq_if (by decide)] at h ⊢
    split at h
    · rename_i hlt
      rw [if_pos hlt]
      rw [List.head?_singleton] at h
      rw [Option.some.inj h]
    · rename_i hle
      -- The front is zero by induction, but the number has more than one digit.
      rw [List.head?_append_of_ne_nil _ Nat.toDigits_ne_nil] at h
      have hfront := ih (n / 10) (by omega) h
      have hvalue := (isDecimal_toDigits (n / 10)).ofDigitChars_eq
      rw [hfront] at hvalue
      have hzero : n / 10 = 0 := hvalue.symm
      omega

theorem isFixedPoint_millionths (negative : Bool) (count : ℕ) :
    IsFixedPoint (millionths negative count) negative count := by
  have hlt : count % million < 10 ^ 6 := Nat.mod_lt _ (by decide)
  have hlength : (padded 6 (Nat.toDigits 10 (count % million))).length = 6 := by
    have hle := (Nat.length_toDigits_le_iff (by decide) (by decide)).mpr hlt
    rw [Numeral.padded, List.length_append, List.length_replicate]
    omega
  have hparts := @IsFixedPoint.parts negative _ _ _ _ (isDecimal_toDigits (count / million))
    toDigits_eq_of_head? ((isDecimal_toDigits (count % million)).padded 6) hlength
  have hcount : count / million * 10 ^ 6 + count % million = count := Nat.div_add_mod' count million
  rw [hcount] at hparts
  convert hparts using 1
  rw [← String.toList_inj]
  unfold millionths decimal
  cases negative <;> simp

theorem takeWhile_isDigit_append {whole : List Char} (hwhole : IsDecimal whole n)
    (places : List Char) :
    (whole ++ '.' :: places).takeWhile Char.isDigit = whole ∧
      (whole ++ '.' :: places).dropWhile Char.isDigit = '.' :: places :=
  takeWhile_dropWhile_eq_iff.mpr ⟨rfl, hwhole.isDigit, by simp⟩

/-- No whole part begins with a sign. -/
theorem minus_cons_ne {whole places rest : List Char} (hwhole : IsDecimal whole n) :
    '-' :: rest ≠ whole ++ '.' :: places := by
  intro heq
  have hcut := (takeWhile_isDigit_append hwhole places).1
  rw [← heq] at hcut
  exact hwhole.ne_nil hcut.symm

theorem IsFixedPoint.unique {text : String} {negative negative' : Bool} {count count' : ℕ}
    (h : IsFixedPoint text negative count) (h' : IsFixedPoint text negative' count') :
    negative = negative' ∧ count = count' := by
  cases h with
  | @parts _ whole places n f hwhole _ hplaces _ =>
    generalize htext : String.ofList _ = text at h'
    cases h' with
    | @parts _ whole' places' n' f' hwhole' _ hplaces' _ =>
      have hlist := String.ofList_inj.mp htext
      simp only [List.append_assoc] at hlist
      have hsame (heq : whole ++ '.' :: places = whole' ++ '.' :: places') :
          n * 10 ^ 6 + f = n' * 10 ^ 6 + f' := by
        obtain ⟨htake, hdrop⟩ := takeWhile_isDigit_append hwhole places
        obtain ⟨htake', hdrop'⟩ := takeWhile_isDigit_append hwhole' places'
        rw [heq] at htake hdrop
        rw [← hwhole.ofDigitChars_eq, ← hwhole'.ofDigitChars_eq, ← hplaces.ofDigitChars_eq,
          ← hplaces'.ofDigitChars_eq, ← htake, htake', (List.cons.inj (hdrop.symm.trans hdrop')).2]
      cases negative <;> cases negative'
      · exact ⟨rfl, hsame hlist⟩
      · exact absurd hlist.symm (minus_cons_ne hwhole)
      · exact absurd hlist (minus_cons_ne hwhole')
      · exact ⟨rfl, hsame (List.cons.inj hlist).2⟩

/-- A text denotes a whole number of millionths. -/
def DenotesMillionths (text : String) (z : ℤ) : Prop :=
  ∃ negative count, IsFixedPoint text negative count ∧ z = if negative then -(count : ℤ) else count

theorem DenotesMillionths.unique {text : String} {z z' : ℤ} (h : DenotesMillionths text z)
    (h' : DenotesMillionths text z') : z = z' := by
  obtain ⟨negative, count, hparts, rfl⟩ := h
  obtain ⟨negative', count', hparts', rfl⟩ := h'
  obtain ⟨rfl, rfl⟩ := hparts.unique hparts'
  rfl

/-- A finite word is written as the nearest number of millionths, under its own sign. -/
theorem exists_sixPlaces {x : Binary64} {r : ℚ} (h : x.value? = some r) :
    ∃ count : ℕ, IsFixedPoint (sixPlaces x) x.isNegative count ∧
      IsNearest (r * 10 ^ 6) (if x.isNegative then -(count : ℤ) else count) := by
  unfold Binary64.value? at h
  split at h
  · cases h
  · rename_i hfinite
    obtain ⟨significand, exponent, hdatum, hmagnitude⟩ := Binary64.exists_datum hfinite
    have hnearest := isNearest_roundToMillionths significand exponent
    rw [← hmagnitude] at hnearest
    refine ⟨roundToMillionths significand exponent, ?_, ?_⟩
    · unfold sixPlaces
      rw [hdatum]
      exact isFixedPoint_millionths _ _
    · rw [← Option.some.inj h]
      split
      · rw [neg_mul]
        exact hnearest.neg
      · exact hnearest

/-! ### Integers -/

theorem nearestNat_eq_self {n : ℕ} (hn : n ≤ 2 ^ 53) : Binary64.nearestNat n = n := by
  have hone (n : ℕ) : roundHalfEven n 1 = n := by
    simp [roundHalfEven, Nat.mod_one]
  rcases hn.lt_or_eq with hlt | rfl
  · have hspacing : n.log2 - 52 = 0 := by
      rcases Nat.eq_zero_or_pos n with rfl | hpos
      · rfl
      · have := (Nat.log2_lt hpos.ne').mpr hlt
        omega
    unfold Binary64.nearestNat
    rw [hspacing]
    show roundHalfEven n 1 * 1 = n
    rw [hone, Nat.mul_one]
  · decide

theorem signed_decimal_eq_toString (z : ℤ) :
    (if decide (z < 0) then "-" else "") ++ decimal z.natAbs = toString z := by
  cases z with
  | ofNat n =>
    have hsign : decide (Int.ofNat n < 0) = false := by simp
    rw [hsign]
    exact String.empty_append
  | negSucc n =>
    rw [decide_eq_true (Int.negSucc_lt_zero n)]
    rfl

theorem sixPlacesOfInt_eq {z : ℤ} (hz : z.natAbs ≤ 2 ^ 53) :
    sixPlacesOfInt z = toString z ++ ".000000" := by
  have hplaces : String.ofList (padded 6 (Nat.toDigits 10 0)) = "000000" := by decide
  unfold sixPlacesOfInt millionths
  rw [nearestNat_eq_self hz, Nat.mul_div_cancel _ (by decide), Nat.mul_mod_left, hplaces,
    signed_decimal_eq_toString, String.append_assoc]
  rfl

end Numeral

namespace Literal

open Numeral

variable {i : Index} {k : SubIndex}

/-- A real is written as a whole number of millionths. -/
def WritesReal (width : ℕ) (i : Index) (k : SubIndex) (x : Binary64) (z : ℤ) : Prop :=
  ∃ text, format (.real width) (.real x) i k = .ok (bare text) ∧ DenotesMillionths text z

/-- **Rounding.**  Every finite real is written, with six places and under the sign of its word, as
the nearest multiple of a millionth; a larger real is not written as a smaller multiple.  Integers
of up to 53 bits are written exactly. -/
theorem reals_rounded (width : ℕ) (i : Index) (k : SubIndex) :
    (∀ (x : Binary64) (r : ℚ), x.value? = some r → ∃ (text : String) (count : ℕ),
      format (.real width) (.real x) i k = .ok (bare text) ∧
      IsFixedPoint text x.isNegative count ∧
      IsNearest (r * 10 ^ 6) (if x.isNegative then -(count : ℤ) else count)) ∧
    (∀ (x x' : Binary64) (r r' : ℚ) (z z' : ℤ), x.value? = some r → x'.value? = some r' →
      WritesReal width i k x z → WritesReal width i k x' z' → r ≤ r' → z ≤ z') ∧
    (∀ v : Int64, v.toInt.natAbs ≤ 2 ^ 53 →
      format (.real width) (.integer v) i k = .ok (bare (toString v.toInt ++ ".000000"))) ∧
    (∀ v : UInt64, v.toNat ≤ 2 ^ 53 →
      format (.real width) (.unsigned v) i k = .ok (bare (toString v.toNat ++ ".000000"))) := by
  have hnearest {x : Binary64} {r : ℚ} {z : ℤ} (hr : x.value? = some r)
      (hz : WritesReal width i k x z) : IsNearest (r * 10 ^ 6) z := by
    obtain ⟨text, hformat, hdenotes⟩ := hz
    obtain ⟨count, hparts, hcount⟩ := exists_sixPlaces hr
    cases hformat
    rwa [hdenotes.unique ⟨_, count, hparts, rfl⟩]
  refine ⟨fun x r hr => ?_, fun x x' r r' z z' hr hr' hz hz' hle => ?_, fun v hv => ?_,
    fun v hv => ?_⟩
  · obtain ⟨count, hparts, hcount⟩ := exists_sixPlaces hr
    exact ⟨_, count, rfl, hparts, hcount⟩
  · exact (hnearest hr hz).le (hnearest hr' hz') (by linarith)
  · rw [← sixPlacesOfInt_eq hv]
    rfl
  · have htext : sixPlacesOfInt v.toNat = toString v.toNat ++ ".000000" := sixPlacesOfInt_eq hv
    rw [← htext]
    rfl

/-- The seventh power of a half, 7812.5 millionths, and its negative. -/
def tie : Binary64 := ⟨0x3F80000000000000⟩

@[inherit_doc tie]
def negativeTie : Binary64 := ⟨0xBF80000000000000⟩

theorem value?_tie : tie.value? = some (1 / 128) ∧ negativeTie.value? = some (-(1 / 128)) := by
  have hmagnitude {x : Binary64} (hexponent : x.exponentField = 1016) (hfraction : x.fraction = 0) :
      x.magnitude = 1 / 128 := by
    norm_num [Binary64.magnitude, hexponent, hfraction]
  have htie : tie.magnitude = 1 / 128 := hmagnitude (by decide) (by decide)
  have hnegative : negativeTie.magnitude = 1 / 128 := hmagnitude (by decide) (by decide)
  unfold Binary64.value?
  rw [htie, hnegative]
  exact ⟨rfl, rfl⟩

/-- Half a millionth is rounded to the even neighbour, and the greatest exact integer is kept. -/
theorem reals_rounded_tie :
    (∃ count : ℕ, IsFixedPoint "0.007812" false count ∧ IsNearest (1 / 128 * 10 ^ 6) count) ∧
    (∃ z z' : ℤ, WritesReal 64 0x2000 0 negativeTie z ∧ WritesReal 64 0x2000 0 tie z' ∧ z ≤ z') ∧
    format (.real 64) (.integer (-2)) 0x2000 0 = .ok (bare "-2.000000") ∧
    format (.real 64) (.unsigned 9007199254740992) 0x2000 0 =
      .ok (bare "9007199254740992.000000") := by
  obtain ⟨hreal, hmonotone, hinteger, hunsigned⟩ := reals_rounded 64 0x2000 0
  obtain ⟨htie, hnegative⟩ := value?_tie
  obtain ⟨text, count, hformat, hparts, hnearest⟩ := hreal _ _ htie
  obtain ⟨text', count', hformat', hparts', -⟩ := hreal _ _ hnegative
  have htext : text = "0.007812" := by
    have h : format (.real 64) (.real tie) 0x2000 0 = .ok (bare "0.007812") := by decide +kernel
    rw [hformat] at h
    cases h
    rfl
  subst htext
  have hz : WritesReal 64 0x2000 0 tie count := ⟨_, hformat, _, count, hparts, rfl⟩
  have hz' : WritesReal 64 0x2000 0 negativeTie (-count') := ⟨_, hformat', _, count', hparts', rfl⟩
  refine ⟨⟨count, hparts, hnearest⟩, ⟨_, _, hz', hz, ?_⟩, ?_, ?_⟩
  · exact hmonotone _ _ _ _ _ _ hnegative htie hz' hz (by norm_num)
  · exact hinteger (-2) (by decide)
  · exact hunsigned 9007199254740992 (by decide)

end Literal
end CanopenTables
