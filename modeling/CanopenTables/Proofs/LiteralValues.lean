import CanopenTables.Proofs.LiteralForms
import CanopenTables.Proofs.NumberTexts
import Mathlib.Algebra.Group.Int.Defs

/-!
# What literals denote

A literal is read back by the rules of C: a number as a hexadecimal constant behind an optional
minus sign (`signedConstant?`), bytes as a string literal (`DenotesBytes`).

* A **constant** shows the magnitude of its number behind the sign.  Magnitudes are natural numbers,
  so the lowest integer, whose opposite is none, is written like every other.
* An **escape** of two digits ends where the next one begins or the string closes, because neither
  a backslash nor a quote is a hexadecimal digit.  So no escape takes a digit of the next byte, and
  bytes read back one by one (`stringBody?_escapes`).

Main statement: `literals_read_back`.
-/

namespace CanopenTables

namespace SourceText

/-! ### Hexadecimal constants -/

/-- Reads a hexadecimal constant. -/
def constant? : List Char → Option Nat
  | '0' :: x :: digits =>
    if (x = 'x' ∨ x = 'X') ∧ digits ≠ [] ∧ digits.all isHexDigit then some (number 16 digits)
    else none
  | _ => none

/-- Reads a hexadecimal constant that may stand behind a minus sign. -/
def signedConstant? : List Char → Option Int
  | '-' :: rest => (constant? rest).map fun n : Nat => -(n : Int)
  | cs => (constant? cs).map fun n : Nat => (n : Int)

theorem toList_hexLiteral (width n : Nat) :
    (hexLiteral width n).toList = '0' :: 'x' :: (Numeral.upperHex width n).toList := by
  unfold hexLiteral
  rw [String.toList_append]
  rfl

theorem upperHex_ne_nil (width n : Nat) : (Numeral.upperHex width n).toList ≠ [] := by
  unfold Numeral.upperHex Numeral.padded
  rw [String.toList_ofList]
  intro hnil
  have hdigits := (List.append_eq_nil_iff.mp hnil).2
  exact Nat.toDigits_ne_nil (List.map_eq_nil_iff.mp hdigits)

theorem constant?_hexLiteral (width n : Nat) :
    constant? (hexLiteral width n).toList = some n := by
  have hdigits : (Numeral.upperHex width n).toList.all isHexDigit = true :=
    List.all_eq_true.mpr fun _ => isHexDigit_of_mem_upperHex
  rw [toList_hexLiteral, constant?, if_pos ⟨Or.inl rfl, upperHex_ne_nil width n, hdigits⟩,
    number_upperHex]

theorem signedConstant?_hexLiteral (width n : Nat) :
    signedConstant? (hexLiteral width n).toList = some (n : Int) := by
  have hread : signedConstant? (hexLiteral width n).toList =
      (constant? (hexLiteral width n).toList).map fun n : Nat => (n : Int) := by
    rw [toList_hexLiteral]
    rfl
  rw [hread, constant?_hexLiteral]
  rfl

theorem signedConstant?_minus_hexLiteral (width n : Nat) :
    signedConstant? ("-" ++ hexLiteral width n).toList = some (-(n : Int)) := by
  have hminus : "-".toList = ['-'] := rfl
  rw [String.toList_append, hminus, List.singleton_append, signedConstant?, constant?_hexLiteral]
  rfl

/-- The text of an integer reads back, also where its opposite is out of range. -/
theorem signedConstant?_ofInt (z : Int) :
    signedConstant? (Literal.ofInt z).text.toList = some z := by
  unfold Literal.ofInt
  dsimp only
  split
  · rw [signedConstant?_minus_hexLiteral, Option.some_inj]
    omega
  · rw [String.empty_append, signedConstant?_hexLiteral, Option.some_inj]
    omega

/-! ### Escaped bytes -/

/-- The characters of some bytes that are all escaped. -/
def escapes (bs : List UInt8) : List Char := bs.flatMap fun b => (Literal.byteEscape b).toList

theorem toList_byteEscape (b : UInt8) :
    (Literal.byteEscape b).toList = '\\' :: 'x' :: (Numeral.lowerHex 2 b.toNat).toList := by
  unfold Literal.byteEscape
  rw [String.toList_append]
  rfl

theorem lowerHex_ne_nil (width n : Nat) : (Numeral.lowerHex width n).toList ≠ [] := by
  unfold Numeral.lowerHex Numeral.padded
  rw [String.toList_ofList]
  intro hnil
  exact Nat.toDigits_ne_nil (List.append_eq_nil_iff.mp hnil).2

theorem byte?_toNat (b : UInt8) : byte? b.toNat = some [b] := by
  unfold byte?
  rw [if_pos b.toNat_lt, UInt8.ofNat_toNat]

/-- An escape denotes its byte and ends with its own digits, if no digit follows. -/
theorem escape?_lowerHex (b : UInt8) {rest : List Char}
    (hrest : ∀ c ∈ rest.head?, isHexDigit c = false) :
    escape? 'x' ((Numeral.lowerHex 2 b.toNat).toList ++ rest) =
      some ([b], (Numeral.lowerHex 2 b.toNat).toList.length) := by
  have htake : ((Numeral.lowerHex 2 b.toNat).toList ++ rest).takeWhile isHexDigit =
      (Numeral.lowerHex 2 b.toNat).toList :=
    (takeWhile_dropWhile_eq_iff.mpr ⟨rfl, fun _ => isHexDigit_of_mem_lowerHex, hrest⟩).1
  unfold escape?
  rw [if_pos rfl, htake]
  dsimp only
  rw [if_neg (lowerHex_ne_nil _ _), number_lowerHex, byte?_toNat]
  rfl

theorem stringBody?_byteEscape (b : UInt8) {rest : List Char}
    (hrest : ∀ c ∈ rest.head?, isHexDigit c = false) :
    stringBody? ((Literal.byteEscape b).toList ++ rest) =
      (stringBody? rest).map fun r => (b :: r.1, r.2) := by
  rw [toList_byteEscape, List.cons_append, List.cons_append, stringBody?,
    escape?_lowerHex b hrest]
  dsimp only
  rw [List.drop_left]
  rfl

/-- A digit of the next byte never stands directly behind an escape. -/
theorem stringBody?_escapes (bs : List UInt8) (rest : List Char) :
    stringBody? (escapes bs ++ '"' :: rest) = some (bs, rest) := by
  unfold escapes
  induction bs with
  | nil =>
    show stringBody? ('"' :: rest) = _
    rw [stringBody?]
  | cons b bs ih =>
    rw [List.flatMap_cons, List.append_assoc, stringBody?_byteEscape, ih]
    · rfl
    · intro c hc
      cases bs with
      | nil =>
        cases hc
        decide
      | cons b' bs =>
        rw [List.flatMap_cons, toList_byteEscape] at hc
        cases hc
        decide

theorem joinLines_eq_self {cs : List Char} (h : ∀ c ∈ cs, isLineEnd c = false) :
    joinLines cs = cs := by
  fun_induction joinLines cs with
  | case1 => rfl
  | case2 rest ih => exact absurd (h '\n' (by simp)) (by decide)
  | case3 rest _ ih => exact absurd (h '\r' (by simp)) (by decide)
  | case4 rest ih => exact absurd (h '\n' (by simp)) (by decide)
  | case5 c rest _ _ _ ih => rw [ih fun d hd => h d (List.mem_cons_of_mem c hd)]

theorem isLineEnd_of_mem_escapes {bs : List UInt8} {c : Char} (h : c ∈ escapes bs) :
    isLineEnd c = false := by
  obtain ⟨b, -, hc⟩ := List.mem_flatMap.mp h
  rw [toList_byteEscape, List.mem_cons, List.mem_cons] at hc
  rcases hc with rfl | rfl | hc
  · decide
  · decide
  · have hdigit := isHexDigit_of_mem_lowerHex hc
    rw [Bool.eq_false_iff]
    intro hend
    simp only [isLineEnd, Bool.or_eq_true, beq_iff_eq] at hend
    rcases hend with rfl | rfl
    · exact absurd hdigit (by decide)
    · exact absurd hdigit (by decide)

theorem denotesBytes_ofBytes (bs : List UInt8) : DenotesBytes (Literal.ofBytes bs).text bs := by
  have hlist : (Literal.ofBytes bs).text.toList = '"' :: (escapes bs ++ ['"']) := by
    unfold Literal.ofBytes Literal.quoted Literal.bare escapes
    simp [String.toList_append, List.flatMap_map]
  have hline : ∀ c ∈ '"' :: (escapes bs ++ ['"']), isLineEnd c = false := by
    rw [List.forall_mem_cons, List.forall_mem_append, List.forall_mem_singleton]
    exact ⟨by decide, fun _ => isLineEnd_of_mem_escapes, by decide⟩
  unfold DenotesBytes
  rw [hlist, joinLines_eq_self hline]
  exact stringBody?_escapes bs []

end SourceText

/-! ### Values -/

/-- The number that a value is; a truth value is 0 or 1. -/
inductive Value.IsNumber : Value → Int → Prop
  | boolean (b : Bool) : IsNumber (.boolean b) (if b then 1 else 0)
  | integer (v : Int64) : IsNumber (.integer v) v.toInt
  | unsigned (v : UInt64) : IsNumber (.unsigned v) v.toNat

/-- The bytes that a value consists of; a text is kept in UTF-8. -/
inductive Value.HasBytes : Value → List UInt8 → Prop
  | visibleString (s : String) : HasBytes (.visibleString s) s.toUTF8.data.toList
  | domain (bs : List UInt8) : HasBytes (.domain bs) bs

namespace Value

variable {v : Value}

theorem toInt?_eq_some_iff {z : Int} : v.toInt? = some z ↔ v.IsNumber z := by
  constructor
  · intro h
    cases v with
    | boolean b =>
      cases h
      cases b with
      | false => exact .boolean false
      | true => exact .boolean true
    | integer v =>
      cases h
      exact .integer v
    | unsigned v =>
      cases h
      exact .unsigned v
    | real x => cases h
    | visibleString s => cases h
    | domain bs => cases h
  · intro h
    cases h with
    | boolean b => cases b <;> rfl
    | integer v => rfl
    | unsigned v => rfl

theorem IsNumber.unique {z z' : Int} (h : v.IsNumber z) (h' : v.IsNumber z') : z = z' :=
  Option.some.inj ((toInt?_eq_some_iff.mpr h).symm.trans (toInt?_eq_some_iff.mpr h'))

theorem bytes_toUTF8 (s : String) : s.toUTF8.data.toList = SourceText.bytes s.toList := by
  rw [String.toUTF8, ← String.utf8Encode_toList, List.utf8Encode, List.data_toByteArray]
  rfl

theorem bytes?_eq_some_iff {bs : List UInt8} : v.bytes? = some bs ↔ v.HasBytes bs := by
  constructor
  · intro h
    cases v with
    | visibleString s =>
      cases h
      have hbytes := HasBytes.visibleString s
      rwa [bytes_toUTF8] at hbytes
    | domain bs =>
      cases h
      exact .domain bs
    | boolean b => cases h
    | integer v => cases h
    | unsigned v => cases h
    | real x => cases h
  · intro h
    cases h with
    | visibleString s =>
      rw [bytes_toUTF8]
      rfl
    | domain bs => rfl

end Value

/-! ### Literals -/

namespace Literal

variable {kind : Kind} {value : Value} {i : Index} {k : SubIndex} {literal : Literal}

theorem format_eq_ok_iff : format kind value i k = .ok literal ↔ of? kind value = some literal := by
  unfold format
  cases of? kind value with
  | none => simp
  | some literal => simp

/-- What does not fit is reported at its place, with the tag of the kind. -/
theorem eq_invalidValue_of_format {e : GenerationError} (h : format kind value i k = .error e) :
    e = .invalidValue i k kind.tag := by
  unfold format at h
  cases hof : of? kind value with
  | none =>
    rw [hof] at h
    cases h
    rfl
  | some literal =>
    rw [hof] at h
    cases h

theorem of?_of_integral (h : kind.form = .integral) : of? kind value = value.toInt?.map ofInt := by
  cases kind with
  | visibleString => cases h
  | domain => cases h
  | real width => cases h
  | unsigned width => rfl
  | integer width => rfl
  | boolean => rfl
  | valueRange id => rfl

theorem format_eq_ok_iff_of_integral (h : kind.form = .integral) :
    format kind value i k = .ok literal ↔ ∃ z, value.IsNumber z ∧ ofInt z = literal := by
  rw [format_eq_ok_iff, of?_of_integral h, Option.map_eq_some_iff]
  simp only [Value.toInt?_eq_some_iff]

theorem format_domain_eq_ok_iff :
    format .domain value i k = .ok literal ↔ ∃ bs, value.HasBytes bs ∧ ofBytes bs = literal := by
  rw [format_eq_ok_iff]
  show value.bytes?.map ofBytes = some literal ↔ _
  rw [Option.map_eq_some_iff]
  simp only [Value.bytes?_eq_some_iff]

/-- A literal shows a number: C reads the number from the text, and the comment has the decimal
digits of its magnitude. -/
structure Shows (literal : Literal) (z : Int) : Prop where
  text : SourceText.signedConstant? literal.text.toList = some z
  comment : literal.comment = "\t/* " ++ Numeral.decimal z.natAbs ++ " */"
  magnitude : Numeral.IsDecimal (Numeral.decimal z.natAbs).toList z.natAbs

theorem shows_ofInt (z : Int) : (ofInt z).Shows z where
  text := SourceText.signedConstant?_ofInt z
  comment := rfl
  magnitude := Numeral.isDecimal_decimal z.natAbs

/-- **Literals read back.**  Under an integral kind exactly the truth values and integers have a
literal, and the literal shows the number; so two of them have the same text exactly when they are
the same number.  As a domain exactly the texts and the domains have a literal, and this is one
string literal that denotes their bytes.  Whatever has no literal under its kind is reported with
its place and the tag of the kind. -/
theorem literals_read_back (value : Value) (i : Index) (k : SubIndex) :
    (∀ kind : Kind, kind.form = .integral →
      ((∃ literal, format kind value i k = .ok literal) ↔ ∃ z, value.IsNumber z) ∧
      (∀ literal z, format kind value i k = .ok literal → value.IsNumber z → literal.Shows z) ∧
      ∀ (kind' : Kind) (value' : Value) (i' : Index) (k' : SubIndex) (literal literal' : Literal),
        kind'.form = .integral → format kind value i k = .ok literal →
        format kind' value' i' k' = .ok literal' →
          (literal.text = literal'.text ↔ ∃ z, value.IsNumber z ∧ value'.IsNumber z)) ∧
    ((∃ literal, format .domain value i k = .ok literal) ↔ ∃ bs, value.HasBytes bs) ∧
    (∀ literal bs, format .domain value i k = .ok literal → value.HasBytes bs →
      SourceText.DenotesBytes literal.text bs) ∧
    ∀ kind e, format kind value i k = .error e → e = .invalidValue i k kind.tag := by
  refine ⟨fun kind hkind => ⟨?_, ?_, ?_⟩, ?_, ?_, fun _ _ => eq_invalidValue_of_format⟩
  · simp [format_eq_ok_iff_of_integral hkind]
  · intro literal z hliteral hz
    obtain ⟨z', hz', rfl⟩ := (format_eq_ok_iff_of_integral hkind).mp hliteral
    rw [hz.unique hz']
    exact shows_ofInt z'
  · intro kind' value' i' k' literal literal' hkind' hliteral hliteral'
    obtain ⟨z, hz, rfl⟩ := (format_eq_ok_iff_of_integral hkind).mp hliteral
    obtain ⟨z', hz', rfl⟩ := (format_eq_ok_iff_of_integral hkind').mp hliteral'
    constructor
    · intro htext
      have hread := (shows_ofInt z).text
      rw [htext, (shows_ofInt z').text] at hread
      exact ⟨z, hz, Option.some.inj hread ▸ hz'⟩
    · rintro ⟨z'', hleft, hright⟩
      rw [hz.unique hleft, hz'.unique hright]
  · simp [format_domain_eq_ok_iff]
  · intro literal bs hliteral hbs
    obtain ⟨bs', hbs', rfl⟩ := format_domain_eq_ok_iff.mp hliteral
    have hsame : bs = bs' := Option.some.inj
      ((Value.bytes?_eq_some_iff.mpr hbs).symm.trans (Value.bytes?_eq_some_iff.mpr hbs'))
    rw [hsame]
    exact SourceText.denotesBytes_ofBytes bs'

/-- The lowest integer, and a byte in front of the digit 3. -/
theorem literals_read_back_lowest :
    (format (.integer 64) (.integer Int64.minValue) 0x2000 0 =
        .ok ⟨"-0x8000000000000000", "\t/* 9223372036854775808 */"⟩ ∧
      SourceText.signedConstant? "-0x8000000000000000".toList = some (-2 ^ 63)) ∧
    format .domain (.domain [0x1A, 0x33]) 0x2000 0 = .ok (bare "\"\\x1a\\x33\"") ∧
      SourceText.DenotesBytes "\"\\x1a\\x33\"" [0x1A, 0x33] := by
  have hlowest : format (.integer 64) (.integer Int64.minValue) 0x2000 0 =
      .ok ⟨"-0x8000000000000000", "\t/* 9223372036854775808 */"⟩ := by decide +kernel
  have hdomain : format .domain (.domain [0x1A, 0x33]) 0x2000 0 = .ok (bare "\"\\x1a\\x33\"") := by
    decide +kernel
  obtain ⟨hinteger, -⟩ := literals_read_back (.integer Int64.minValue) 0x2000 0
  obtain ⟨-, hread, -⟩ := hinteger (.integer 64) rfl
  obtain ⟨-, -, hbytes, -⟩ := literals_read_back (.domain [0x1A, 0x33]) 0x2000 0
  exact ⟨⟨hlowest, (hread _ _ hlowest (.integer _)).text⟩, hdomain,
    hbytes _ _ hdomain (.domain _)⟩

end Literal
end CanopenTables
