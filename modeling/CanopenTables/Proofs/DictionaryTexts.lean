import CanopenTables.Proofs.Identifiers
import CanopenTables.Proofs.DictionarySection
import CanopenTables.Proofs.SourceTokens
import CanopenTables.Proofs.TargetNames

/-!
# Texts of the dictionary in the generated code

Two texts of a dictionary come into the generated code as they are: the text of a string value,
between quotes, and the name of an entry in the title line of its block, where only characters
outside ASCII are replaced.  Neither is escaped, so both stay in their tokens only as long as they
hold nothing that C reads as an end or as an escape.

Main statement: `texts_stay_in_tokens`.
-/

namespace CanopenTables

open SourceText

/-- What becomes of a character in a title. -/
def Text.asciiChar (c : Char) : Char := if c.toNat < 128 then c else '?'

theorem Text.toList_asciiOnly (s : String) : (asciiOnly s).toList = s.toList.map asciiChar :=
  String.toList_map

/-- No character but a question mark is put in the place of another. -/
theorem Text.asciiChar_eq_iff {d : Char} (hd : d.toNat < 128 ∧ d ≠ '?') (c : Char) :
    asciiChar c = d ↔ c = d := by
  unfold asciiChar
  split
  · rfl
  · rename_i hc
    constructor
    · intro h
      exact absurd h.symm hd.2
    · rintro rfl
      exact absurd hd.1 hc

theorem Text.starSlash_joinLines_asciiOnly_iff (s : String) :
    ['*', '/'] <:+: joinLines (asciiOnly s).toList ↔ ['*', '/'] <:+: joinLines s.toList := by
  have hslash := asciiChar_eq_iff (by decide : '\\'.toNat < 128 ∧ '\\' ≠ '?')
  have hfeed := asciiChar_eq_iff (by decide : '\n'.toNat < 128 ∧ '\n' ≠ '?')
  have hreturn := asciiChar_eq_iff (by decide : '\r'.toNat < 128 ∧ '\r' ≠ '?')
  rw [toList_asciiOnly, joinLines_map hslash hfeed hreturn]
  apply starSlash_map_iff
  · exact asciiChar_eq_iff (by decide)
  · exact asciiChar_eq_iff (by decide)

theorem Title.text_inPlace (name : String) : (inPlace name).text = name ++ ". */" := rfl

theorem Title.text_mapped (name : String) :
    (mapped name).text = "Mapped variable " ++ name ++ " */" := rfl

/-- The digits of an index cannot end a comment. -/
theorem isWordChar_of_mem_indexText {i : Index} {c : Char} (h : c ∈ (indexText i).toList) :
    Text.isWordChar c = true := by
  unfold indexText hexLiteral at h
  rw [String.toList_append, List.mem_append] at h
  rcases h with h | h
  · have hall : ∀ d ∈ "0x".toList, Text.isWordChar d = true := by simp [Text.isWordChar]
    exact hall c h
  · exact Numeral.isWordChar_of_mem_upperHex h

namespace Site

/-- The part of a title line in front of the name. -/
def titleOpening (s : Site) : String :=
  " index " ++ indexText s.index ++ " :   " ++ if s.isMapped then "Mapped variable " else ""

/-- The part of a title line behind the name. -/
def titleClosing (s : Site) : String := if s.isMapped then " " else ". "

variable {s : Site}

theorem titleLine_of_code {r : Resolver} {c : EntryCode} (hcode : s.code.value r = .ok c) :
    c.block.titleLine =
      "/*" ++ s.titleOpening ++ Text.asciiOnly s.entry.name ++ s.titleClosing ++ "*/\n" := by
  obtain ⟨values, -, shape, -, rows, -, rfl⟩ := code_value_eq_ok_iff.mp hcode
  show Block.titleLine ⟨s.index, s.title, _⟩ = _
  unfold Block.titleLine titleOpening titleClosing title
  rw [← String.toList_inj]
  by_cases hmapped : s.isMapped = true
  · simp [hmapped, Title.text_mapped, String.toList_append]
  · simp [hmapped, Title.text_inPlace, String.toList_append]

theorem harmless_of_mem_titleOpening {c : Char} (h : c ∈ s.titleOpening.toList) :
    c ≠ '\\' ∧ c ≠ '*' := by
  unfold titleOpening at h
  simp only [String.toList_append, List.mem_append] at h
  rcases h with ((h | h) | h) | h
  · have hall : ∀ d ∈ " index ".toList, d ≠ '\\' ∧ d ≠ '*' := by simp
    exact hall c h
  · have hword := isWordChar_of_mem_indexText h
    constructor
    · rintro rfl
      exact absurd hword (by decide)
    · rintro rfl
      exact absurd hword (by decide)
  · have hall : ∀ d ∈ " :   ".toList, d ≠ '\\' ∧ d ≠ '*' := by simp
    exact hall c h
  · split at h
    · have hall : ∀ d ∈ "Mapped variable ".toList, d ≠ '\\' ∧ d ≠ '*' := by simp
      exact hall c h
    · cases h

theorem harmless_of_mem_titleClosing {c : Char} (h : c ∈ s.titleClosing.toList) :
    c ≠ '\\' ∧ c ≠ '/' ∧ isLineEnd c = false := by
  have hall : ∀ d ∈ ". ".toList, d ≠ '\\' ∧ d ≠ '/' ∧ isLineEnd d = false := by
    simp [isLineEnd]
  unfold titleClosing at h
  split at h
  · exact hall c (List.mem_cons_of_mem '.' h)
  · exact hall c h

theorem isCommentLine_titleLine_iff {r : Resolver} {c : EntryCode}
    (hcode : s.code.value r = .ok c) :
    IsCommentLine c.block.titleLine ↔ ¬ ['*', '/'] <:+: joinLines s.entry.name.toList := by
  rw [titleLine_of_code hcode, isCommentLine_iff, Text.starSlash_joinLines_asciiOnly_iff]
  · intro c hc
    exact harmless_of_mem_titleOpening hc
  · intro c hc
    exact harmless_of_mem_titleClosing hc

end Site

/-- **Texts in their tokens.**  A string value always has a literal without a comment, and this is
one string literal for the bytes of the value exactly when no character of the value is a quote, a
backslash or the end of a line.  The title line of an entry that is laid out is one comment exactly
when its name, with its lines joined, does not hold the end of a comment. -/
theorem texts_stay_in_tokens (v : String) (i : Index) (k : SubIndex) {s : Site} {r : Resolver}
    {c : EntryCode} (hcode : s.code.value r = .ok c) :
    (∃ literal bs,
      Literal.format .visibleString (.visibleString v) i k = .ok literal ∧ literal.comment = "" ∧
      (Value.visibleString v).bytes? = some bs ∧
      (DenotesBytes literal.text bs ↔ ∀ c ∈ v.toList, isPlain c = true)) ∧
    (IsCommentLine c.block.titleLine ↔ ¬ ['*', '/'] <:+: joinLines s.entry.name.toList) := by
  constructor
  · exact ⟨Literal.quoted v, bytes v.toList, rfl, rfl, rfl, denotesBytes_quoted_iff⟩
  · exact Site.isCommentLine_titleLine_iff hcode

/-- The name of the pump in `drive` and the title of its speeds. -/
theorem texts_stay_in_tokens_drive :
    DenotesBytes "\"pump\"" [112, 117, 109, 112] ∧
    ∃ e c, Dictionary.drive.get? 0x2001 = some e ∧
      (⟨Dictionary.drive, 0x2001, e⟩ : Site).code.value Dictionary.driveResolver = .ok c ∧
      IsCommentLine c.block.titleLine := by
  have hstart : Profile.commAreaStart ≤ 0x2001 := by decide
  obtain ⟨e, hget, hname⟩ := Option.map_eq_some_iff.mp
    (by decide +kernel : (Dictionary.drive.get? 0x2001).map Entry.name = some "1st speeds")
  have hsite : (⟨Dictionary.drive, 0x2001, e⟩ : Site) ∈ Dictionary.drive.sites :=
    Dictionary.mem_sites_iff.mpr ⟨rfl, hstart, hget⟩
  obtain ⟨codes, hcodes⟩ := exists_eq_ok_of_isOk (by decide +kernel :
    (Dictionary.drive.entryCodes.value Dictionary.driveResolver).isOk = true)
  obtain ⟨c, -, hcode⟩ := Dictionary.exists_code_of_mem_sites hcodes hsite
  obtain ⟨⟨literal, bs, hliteral, -, hbytes, hstring⟩, htitle⟩ :=
    texts_stay_in_tokens "pump" 0x2002 1 hcode
  cases hliteral
  cases hbytes
  refine ⟨hstring.mpr (by simp [isPlain, isLineEnd]), e, c, hget, hcode, htitle.mpr ?_⟩
  show ¬ ['*', '/'] <:+: joinLines e.name.toList
  rw [hname]
  decide +kernel

/-- A quote in a string ends its literal, and the end of a comment in a name ends the title. -/
theorem not_forall_tokens_whole :
    (¬ ∀ (v : String) (i : Index) (k : SubIndex) (literal : Literal) (bs : List UInt8),
      Literal.format .visibleString (.visibleString v) i k = .ok literal →
      (Value.visibleString v).bytes? = some bs → DenotesBytes literal.text bs) ∧
    ¬ ∀ (s : Site) (r : Resolver) (c : EntryCode), s.code.value r = .ok c →
      IsCommentLine c.block.titleLine := by
  constructor
  · intro h
    have hpipe := h "5\" pipe" 0x2000 0 _ _ rfl rfl
    exact absurd (denotesBytes_quoted_iff.mp hpipe) (by simp [isPlain])
  · intro h
    let gain : Site :=
      ⟨{ node := { name := "Node" }, entries := .ofList [] }, 0x2000,
        .ofVariable "Gain */ Offset" ⟨"Gain", 0x0005, .readWrite, false, false⟩ (.unsigned 1)⟩
    obtain ⟨c, hcode⟩ := exists_eq_ok_of_isOk
      (by decide +kernel : (gain.code.value (Resolver.new 10)).isOk = true)
    have htitle := h gain (Resolver.new 10) c hcode
    exact absurd (by decide +kernel : ['*', '/'] <:+: joinLines gain.entry.name.toList)
      ((Site.isCommentLine_titleLine_iff hcode).mp htitle)

end CanopenTables
