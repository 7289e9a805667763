import Mathlib.Data.List.Infix
import Mathlib.Tactic.SplitIfs

/-!
# How C reads texts

A reader for the two sorts of tokens that hold text of a dictionary.  First of all a line that ends
in a backslash goes on in the next line (`joinLines`).  Then a string literal ends at the first
quote that no backslash escapes, on the line where it began, and denotes bytes (`readString?`), and
a comment ends at the first `*/` (`afterComment?`).  Trigraphs are left aside.

* Every escape is **longer than what it denotes** (`length_le_of_escape?`), and joining lines only
  leaves characters out.  So a literal that denotes as many bytes as stand between its quotes has
  no escapes and no joined lines (`plain_or_shorter`).
* Ordinary characters **denote themselves** (`stringBody?_of_plain`).
* A name in a comment leaves it **one comment** exactly when it does not close it
  (`isCommentLine_iff`).
-/

namespace CanopenTables.SourceText

/-- The bytes of some characters in UTF-8. -/
def bytes (cs : List Char) : List UInt8 := cs.flatMap String.utf8EncodeChar

/-- Characters that end a line. -/
def isLineEnd (c : Char) : Bool := c == '\n' || c == '\r'

/-- Leaves out each backslash at the end of a line together with the end of the line, which may be
two characters. -/
def joinLines : List Char → List Char
  | [] => []
  | '\\' :: '\r' :: '\n' :: rest => joinLines rest
  | '\\' :: '\r' :: rest => joinLines rest
  | '\\' :: '\n' :: rest => joinLines rest
  | c :: rest => c :: joinLines rest

/-! ### String literals -/

def hexDigit? (c : Char) : Option Nat :=
  if '0' ≤ c ∧ c ≤ '9' then some (c.toNat - 48)
  else if 'A' ≤ c ∧ c ≤ 'F' then some (c.toNat - 55)
  else if 'a' ≤ c ∧ c ≤ 'f' then some (c.toNat - 87)
  else none

def isHexDigit (c : Char) : Bool := (hexDigit? c).isSome

def isOctalDigit (c : Char) : Bool := '0' ≤ c && c ≤ '7'

/-- The number that some digits denote. -/
def number (base : Nat) (digits : List Char) : Nat :=
  digits.foldl (fun n c => base * n + (hexDigit? c).getD 0) 0

/-- A number as the only byte, if it is one. -/
def byte? (n : Nat) : Option (List UInt8) := if n < 256 then some [UInt8.ofNat n] else none

/-- The bytes of a code point that a given count of hexadecimal digits denotes. -/
def codePoint? (count : Nat) (digits : List Char) : Option (List UInt8) :=
  if digits.length = count ∧ digits.all isHexDigit then
    let n := number 16 digits
    if n.isValidChar then some (String.utf8EncodeChar (Char.ofNat n)) else none
  else none

/-- The byte of an escape of one letter. -/
def letterEscape? : Char → Option UInt8
  | 'a' => some 7
  | 'b' => some 8
  | 't' => some 9
  | 'n' => some 10
  | 'v' => some 11
  | 'f' => some 12
  | 'r' => some 13
  | '"' => some 34
  | '\'' => some 39
  | '?' => some 63
  | '\\' => some 92
  | _ => none

/-- What an escape denotes that begins with a character behind the backslash, and how many of the
characters that follow belong to it.  Hexadecimal digits are taken as long as there are any, octal
ones up to three. -/
def escape? (c : Char) (rest : List Char) : Option (List UInt8 × Nat) :=
  if c = 'x' then
    let digits := rest.takeWhile isHexDigit
    if digits = [] then none else (byte? (number 16 digits)).map fun bs => (bs, digits.length)
  else if c = 'u' then (codePoint? 4 (rest.take 4)).map fun bs => (bs, 4)
  else if c = 'U' then (codePoint? 8 (rest.take 8)).map fun bs => (bs, 8)
  else if isOctalDigit c then
    let digits := (rest.take 2).takeWhile isOctalDigit
    (byte? (number 8 (c :: digits))).map fun bs => (bs, digits.length)
  else (letterEscape? c).map fun b => ([b], 0)

/-- Reads the rest of a string literal behind its first quote: the bytes, and what follows the last
quote. -/
def stringBody? : List Char → Option (List UInt8 × List Char)
  | [] => none
  | '"' :: rest => some ([], rest)
  | '\\' :: c :: rest =>
    match escape? c rest with
    | none => none
    | some (bs, n) => (stringBody? (rest.drop n)).map fun r => (bs ++ r.1, r.2)
  | c :: rest =>
    if c = '\\' ∨ isLineEnd c then none
    else (stringBody? rest).map fun r => (String.utf8EncodeChar c ++ r.1, r.2)
termination_by cs => cs.length
decreasing_by
  · simp only [List.length_drop, List.length_cons]
    omega
  · simp only [List.length_cons]
    omega

/-- Reads a string literal: the bytes, and what follows. -/
def readString? : List Char → Option (List UInt8 × List Char)
  | '"' :: rest => stringBody? rest
  | _ => none

/-- A text is one string literal, and this denotes some bytes. -/
def DenotesBytes (text : String) (bs : List UInt8) : Prop :=
  readString? (joinLines text.toList) = some (bs, [])

theorem length_of_byte? {n : Nat} {bs : List UInt8} (h : byte? n = some bs) :
    bs.length = 1 := by
  unfold byte? at h
  split at h
  · cases h
    rfl
  · cases h

theorem length_of_codePoint? {count : Nat} {digits : List Char} {bs : List UInt8}
    (h : codePoint? count digits = some bs) : digits.length = count ∧ bs.length ≤ 4 := by
  unfold codePoint? at h
  split at h
  · rename_i hdigits
    dsimp only at h
    split at h
    · cases h
      rw [String.length_utf8EncodeChar]
      exact ⟨hdigits.1, Char.utf8Size_le_four _⟩
    · cases h
  · cases h

/-- An escape has a character at least for each byte, without its backslash. -/
theorem length_le_of_escape? {c : Char} {rest : List Char} {bs : List UInt8} {n : Nat}
    (h : escape? c rest = some (bs, n)) : bs.length ≤ 1 + (rest.take n).length := by
  have hmap {x : Option (List UInt8)} {m : Nat} (h : x.map (fun bs => (bs, m)) = some (bs, n))
      (hx : ∀ bs, x = some bs → bs.length ≤ 1 + (rest.take m).length) :
      bs.length ≤ 1 + (rest.take n).length := by
    obtain ⟨bs', hbs, heq⟩ := Option.map_eq_some_iff.mp h
    cases heq
    exact hx bs hbs
  have hbyte {k m : Nat} (bs : List UInt8) (hbs : byte? k = some bs) :
      bs.length ≤ 1 + (rest.take m).length := by
    have hone := length_of_byte? hbs
    omega
  have hpoint {m : Nat} (hm : 4 ≤ m) (bs : List UInt8)
      (hbs : codePoint? m (rest.take m) = some bs) : bs.length ≤ 1 + (rest.take m).length := by
    have hfour := length_of_codePoint? hbs
    omega
  unfold escape? at h
  dsimp only at h
  split_ifs at h
  · exact hmap h hbyte
  · exact hmap h (hpoint (by decide))
  · exact hmap h (hpoint (by decide))
  · exact hmap h hbyte
  · obtain ⟨b, -, heq⟩ := Option.map_eq_some_iff.mp h
    cases heq
    simp

/-! ### Bytes -/

theorem bytes_cons (c : Char) (cs : List Char) :
    bytes (c :: cs) = String.utf8EncodeChar c ++ bytes cs := List.flatMap_cons

theorem bytes_append (a b : List Char) : bytes (a ++ b) = bytes a ++ bytes b := List.flatMap_append

theorem length_bytes_cons (c : Char) (cs : List Char) :
    (bytes (c :: cs)).length = c.utf8Size + (bytes cs).length := by
  rw [bytes_cons, List.length_append, String.length_utf8EncodeChar]

theorem length_le_length_bytes (cs : List Char) : cs.length ≤ (bytes cs).length := by
  induction cs with
  | nil => exact Nat.le_refl 0
  | cons c cs ih =>
    have hpos := c.utf8Size_pos
    rw [length_bytes_cons, List.length_cons]
    omega

theorem length_bytes_le_of_sublist {a b : List Char} (h : a.Sublist b) :
    (bytes a).length ≤ (bytes b).length := by
  induction h with
  | slnil => exact Nat.le_refl 0
  | cons c _ ih =>
    rw [length_bytes_cons]
    omega
  | cons_cons c _ ih =>
    rw [length_bytes_cons, length_bytes_cons]
    omega

theorem bytes_injective {a b : List Char} (h : bytes a = bytes b) : a = b := by
  have hencode : a.utf8Encode = b.utf8Encode := congrArg List.toByteArray h
  have htext : String.ofList a = String.ofList b := by
    apply String.toByteArray_inj.mp
    rw [String.toByteArray_ofList, String.toByteArray_ofList, hencode]
  rw [← String.toList_ofList (l := a), htext, String.toList_ofList]

/-! ### What string literals denote -/

/-- Characters that stand for themselves in a string literal. -/
def isPlain (c : Char) : Bool := c != '"' && c != '\\' && !isLineEnd c

theorem stringBody?_of_plain {cs : List Char} (h : ∀ c ∈ cs, isPlain c = true) (rest : List Char) :
    stringBody? (cs ++ '"' :: rest) = some (bytes cs, rest) := by
  induction cs with
  | nil =>
    rw [List.nil_append, stringBody?]
    rfl
  | cons c cs ih =>
    obtain ⟨hc, hcs⟩ := List.forall_mem_cons.mp h
    simp only [isPlain, Bool.and_eq_true, bne_iff_ne, Bool.not_eq_true'] at hc
    rw [List.cons_append, stringBody?, ih hcs]
    · simp [hc, bytes_cons]
    · exact hc.1.1
    · intro d rest' hslash
      exact absurd hslash hc.1.2

/-- A string literal has plain characters only, or it is longer than what it denotes. -/
theorem plain_or_shorter {cs rest : List Char} {bs : List UInt8}
    (h : stringBody? cs = some (bs, rest)) :
    (∃ plain, (∀ c ∈ plain, isPlain c = true) ∧ cs = plain ++ '"' :: rest ∧ bs = bytes plain) ∨
      bs.length + (bytes rest).length + 1 < (bytes cs).length := by
  fun_induction stringBody? cs generalizing bs rest with
  | case1 => cases h
  | case2 rest' =>
    cases h
    exact Or.inl ⟨[], by simp, rfl, rfl⟩
  | case3 => cases h
  | case4 c cs bs₁ n hescape ih =>
    -- the escape alone is longer than what it denotes, and the rest is no shorter
    right
    obtain ⟨⟨bs₂, rest'⟩, hrest, heq⟩ := Option.map_eq_some_iff.mp h
    cases heq
    dsimp only
    have hle : bs₂.length + (bytes rest').length + 1 ≤ (bytes (cs.drop n)).length := by
      rcases ih hrest with ⟨plain, -, hplain, rfl⟩ | hlt
      · rw [hplain, bytes_append, List.length_append, length_bytes_cons]
        have hquote : '"'.utf8Size = 1 := rfl
        omega
      · omega
    have htaken := length_le_of_escape? hescape
    have hbytes := length_le_length_bytes (cs.take n)
    have hsplit : (bytes cs).length = (bytes (cs.take n)).length + (bytes (cs.drop n)).length := by
      rw [← List.length_append, ← bytes_append, List.take_append_drop]
    have hslash : '\\'.utf8Size = 1 := rfl
    have hpos := c.utf8Size_pos
    rw [length_bytes_cons, length_bytes_cons, List.length_append]
    omega
  | case5 => cases h
  | case6 c cs hquote _ hc ih =>
    obtain ⟨⟨bs', rest'⟩, hrest, heq⟩ := Option.map_eq_some_iff.mp h
    cases heq
    rcases ih hrest with ⟨plain, hall, rfl, rfl⟩ | hlt
    · left
      have hplain : isPlain c = true := by
        simp only [isPlain, Bool.and_eq_true, bne_iff_ne, Bool.not_eq_true']
        simp only [not_or, Bool.not_eq_true] at hc
        exact ⟨⟨hquote, hc.1⟩, hc.2⟩
      exact ⟨c :: plain, List.forall_mem_cons.mpr ⟨hplain, hall⟩, rfl, (bytes_cons c plain).symm⟩
    · right
      dsimp only
      rw [length_bytes_cons, List.length_append, String.length_utf8EncodeChar]
      omega

/-- Hexadecimal digits are taken as long as there are any, and the octal ones only up to three. -/
example :
    readString? "\"\\x4A\\1012\"".toList = some ([0x4A, 0x41, 0x32], []) ∧
      readString? "\"\\x4A1\"".toList = none := by
  decide +kernel

/-! ### Joined lines -/

theorem joinLines_of_not_mem {a : List Char} (h : '\\' ∉ a) (b : List Char) :
    joinLines (a ++ b) = a ++ joinLines b := by
  induction a with
  | nil => rfl
  | cons c a ih =>
    rw [List.mem_cons, not_or] at h
    rw [List.cons_append, joinLines, ih h.2, List.cons_append]
    all_goals
      intro rest hslash
      exact absurd hslash.symm h.1

theorem joinLines_sublist (cs : List Char) : (joinLines cs).Sublist cs := by
  fun_induction joinLines cs with
  | case1 => exact List.nil_sublist []
  | case2 rest ih => exact ((ih.cons '\n').cons '\r').cons '\\'
  | case3 rest _ ih => exact (ih.cons '\r').cons '\\'
  | case4 rest ih => exact (ih.cons '\n').cons '\\'
  | case5 c rest _ _ _ ih => exact ih.cons_cons c

theorem denotesBytes_quoted_iff {s : String} :
    DenotesBytes ("\"" ++ s ++ "\"") (bytes s.toList) ↔ ∀ c ∈ s.toList, isPlain c = true := by
  have hlist : ("\"" ++ s ++ "\"").toList = ['"'] ++ (s.toList ++ ['"']) := by
    simp [String.toList_append]
  unfold DenotesBytes
  rw [hlist, joinLines_of_not_mem (by decide)]
  show stringBody? (joinLines (s.toList ++ ['"'])) = _ ↔ _
  constructor
  · intro h
    have hle := length_bytes_le_of_sublist (joinLines_sublist (s.toList ++ ['"']))
    rw [bytes_append, List.length_append] at hle
    rcases plain_or_shorter h with ⟨plain, hplain, -, hbytes⟩ | hlt
    · rw [bytes_injective hbytes]
      exact hplain
    · have hquote : (bytes ['"']).length = 1 := rfl
      have hnil : (bytes []).length = 0 := rfl
      omega
  · intro h
    have hslash : '\\' ∉ s.toList ++ ['"'] := by
      intro hmem
      rcases List.mem_append.mp hmem with hmem | hmem
      · exact absurd (h _ hmem) (by decide)
      · exact absurd (List.mem_singleton.mp hmem) (by decide)
    have hjoin := joinLines_of_not_mem hslash []
    rw [List.append_nil] at hjoin
    rw [hjoin, joinLines, List.append_nil]
    exact stringBody?_of_plain h []

/-! ### Comments -/

/-- What follows the first star and slash. -/
def afterStarSlash? : List Char → Option (List Char)
  | [] => none
  | c :: rest => if c = '*' ∧ rest.head? = some '/' then some rest.tail else afterStarSlash? rest

/-- Reads a comment: what follows its end. -/
def afterComment? : List Char → Option (List Char)
  | '/' :: '*' :: rest => afterStarSlash? rest
  | _ => none

/-- A line is one comment, which closes at the end of the line. -/
def IsCommentLine (text : String) : Prop := afterComment? (joinLines text.toList) = some ['\n']

theorem starSlash_cons_iff {c : Char} {cs : List Char} :
    ['*', '/'] <:+: c :: cs ↔ (c = '*' ∧ cs.head? = some '/') ∨ ['*', '/'] <:+: cs := by
  rw [List.infix_cons_iff]
  refine or_congr_left ?_
  cases cs with
  | nil => simp
  | cons d cs => simp [eq_comm]

theorem starSlash_append_left_iff {a : List Char} (h : '*' ∉ a) (b : List Char) :
    ['*', '/'] <:+: a ++ b ↔ ['*', '/'] <:+: b := by
  induction a with
  | nil => rfl
  | cons c a ih =>
    rw [List.mem_cons, not_or] at h
    rw [List.cons_append, starSlash_cons_iff, ih h.2]
    simp [Ne.symm h.1]

theorem starSlash_append_right_iff (a : List Char) {b : List Char} (h : '/' ∉ b) :
    ['*', '/'] <:+: a ++ b ↔ ['*', '/'] <:+: a := by
  induction a with
  | nil =>
    constructor
    · intro hfound
      exact absurd (hfound.subset (by simp)) h
    · intro hfound
      exact absurd (List.infix_nil.mp hfound) (by simp)
  | cons c a ih =>
    rw [List.cons_append, starSlash_cons_iff, starSlash_cons_iff, ih, List.head?_append]
    cases a with
    | nil =>
      have hhead : b.head? ≠ some '/' := fun hb => h (List.mem_of_head? hb)
      simp [hhead]
    | cons d a => simp

/-- The end of a comment is found where it was put exactly when none stands in the text before. -/
theorem afterStarSlash?_eq_some_iff {cs rest : List Char} :
    afterStarSlash? (cs ++ '*' :: '/' :: rest) = some rest ↔ ¬ ['*', '/'] <:+: cs := by
  induction cs with
  | nil => simp [afterStarSlash?]
  | cons c cs ih =>
    rw [List.cons_append, afterStarSlash?, starSlash_cons_iff]
    have hhead : (cs ++ '*' :: '/' :: rest).head? = some '/' ↔ cs.head? = some '/' := by
      cases cs with
      | nil => simp
      | cons d cs => simp
    simp only [hhead]
    split
    · rename_i hfound
      constructor
      · intro hrest
        have hlength := congrArg List.length (Option.some.inj hrest)
        rw [List.length_tail, List.length_append, List.length_cons, List.length_cons] at hlength
        omega
      · intro hnone
        exact absurd (Or.inl hfound) hnone
    · rename_i hfound
      rw [ih]
      simp [hfound]

/-- Lines are joined on both sides of a place where no line ends. -/
theorem joinLines_append (a : List Char) {b : List Char} (h : ∀ c ∈ b.head?, isLineEnd c = false) :
    joinLines (a ++ b) = joinLines a ++ joinLines b := by
  have hbegins {c : Char} (hc : isLineEnd c = true) {a rest : List Char}
      (heq : a ++ b = c :: rest) : ∃ rest', a = c :: rest' := by
    rcases List.append_eq_cons_iff.mp heq with ⟨-, rfl⟩ | ⟨rest', ha, -⟩
    · exact absurd (h c rfl) (by simp [hc])
    · exact ⟨rest', ha⟩
  fun_induction joinLines a with
  | case1 => rfl
  | case2 rest ih => simpa [joinLines] using ih
  | case3 rest hnext ih =>
    rw [List.cons_append, List.cons_append, joinLines, ih]
    intro rest' heq
    obtain ⟨rest'', ha⟩ := hbegins (by decide) heq
    exact hnext rest'' ha
  | case4 rest ih => simpa [joinLines] using ih
  | case5 c rest _ hreturn hfeed ih =>
    rw [List.cons_append, joinLines, ih, List.cons_append]
    · intro rest' hc heq
      obtain ⟨rest'', ha⟩ := hbegins (by decide) heq
      exact hreturn rest'' hc ha
    · intro rest' hc heq
      obtain ⟨rest'', ha⟩ := hbegins (by decide) heq
      exact hreturn rest'' hc ha
    · intro rest' hc heq
      obtain ⟨rest'', ha⟩ := hbegins (by decide) heq
      exact hfeed rest'' hc ha

section map

variable {f : Char → Char}

/-- Characters may be replaced before or after lines are joined, if those that matter stay apart
from the others. -/
theorem joinLines_map (hslash : ∀ c, f c = '\\' ↔ c = '\\') (hfeed : ∀ c, f c = '\n' ↔ c = '\n')
    (hreturn : ∀ c, f c = '\r' ↔ c = '\r') (cs : List Char) :
    joinLines (cs.map f) = (joinLines cs).map f := by
  have hs : f '\\' = '\\' := (hslash _).mpr rfl
  have hn : f '\n' = '\n' := (hfeed _).mpr rfl
  have hr : f '\r' = '\r' := (hreturn _).mpr rfl
  have hmap {g : Char} (hg : ∀ c, f c = g ↔ c = g) {cs rest : List Char}
      (heq : cs.map f = g :: rest) : ∃ rest', cs = g :: rest' ∧ rest'.map f = rest := by
    obtain ⟨c, rest', rfl, hc, hrest⟩ := List.map_eq_cons_iff.mp heq
    rw [(hg c).mp hc]
    exact ⟨rest', rfl, hrest⟩
  fun_induction joinLines cs with
  | case1 => rfl
  | case2 rest ih => simpa [joinLines, hs, hn, hr] using ih
  | case3 rest hnext ih =>
    rw [List.map_cons, List.map_cons, hs, hr, joinLines, ih]
    intro rest' heq
    obtain ⟨rest'', ha, -⟩ := hmap hfeed heq
    exact hnext rest'' ha
  | case4 rest ih => simpa [joinLines, hs, hn] using ih
  | case5 c rest _ hnotReturn hnotFeed ih =>
    rw [List.map_cons, joinLines, ih, List.map_cons]
    · intro rest' hc heq
      obtain ⟨rest'', ha, -⟩ := hmap hreturn heq
      exact hnotReturn rest'' ((hslash c).mp hc) ha
    · intro rest' hc heq
      obtain ⟨rest'', ha, -⟩ := hmap hreturn heq
      exact hnotReturn rest'' ((hslash c).mp hc) ha
    · intro rest' hc heq
      obtain ⟨rest'', ha, -⟩ := hmap hfeed heq
      exact hnotFeed rest'' ((hslash c).mp hc) ha

theorem starSlash_map_iff (hstar : ∀ c, f c = '*' ↔ c = '*') (hslash : ∀ c, f c = '/' ↔ c = '/')
    (cs : List Char) : ['*', '/'] <:+: cs.map f ↔ ['*', '/'] <:+: cs := by
  induction cs with
  | nil => rfl
  | cons c cs ih =>
    rw [List.map_cons, starSlash_cons_iff, starSlash_cons_iff, ih, hstar, List.head?_map]
    cases cs with
    | nil => simp
    | cons d cs => simp [hslash]

end map

/-- A name between the delimiters of a comment leaves it one comment exactly when the joined lines
of the name have no star and slash. -/
theorem isCommentLine_iff {opening name closing : String}
    (hopening : ∀ c ∈ opening.toList, c ≠ '\\' ∧ c ≠ '*')
    (hclosing : ∀ c ∈ closing.toList, c ≠ '\\' ∧ c ≠ '/' ∧ isLineEnd c = false) :
    IsCommentLine ("/*" ++ opening ++ name ++ closing ++ "*/\n") ↔
      ¬ ['*', '/'] <:+: joinLines name.toList := by
  have hlist : ("/*" ++ opening ++ name ++ closing ++ "*/\n").toList =
      ('/' :: '*' :: opening.toList) ++ (name.toList ++ (closing.toList ++ ['*', '/', '\n'])) := by
    simp [String.toList_append]
  have hstart : '\\' ∉ '/' :: '*' :: opening.toList := by
    intro hmem
    simp only [List.mem_cons, Char.reduceEq, false_or] at hmem
    exact (hopening _ hmem).1 rfl
  have hstop : '\\' ∉ closing.toList ++ ['*', '/', '\n'] := by
    intro hmem
    rcases List.mem_append.mp hmem with hmem | hmem
    · exact (hclosing _ hmem).1 rfl
    · simp at hmem
  have hhead : ∀ c ∈ (closing.toList ++ ['*', '/', '\n']).head?, isLineEnd c = false := by
    intro c hc
    cases hchars : closing.toList with
    | nil =>
      rw [hchars] at hc
      cases hc
      decide
    | cons d rest =>
      rw [hchars] at hc hclosing
      cases hc
      exact (hclosing _ List.mem_cons_self).2.2
  have hjoin : joinLines (closing.toList ++ ['*', '/', '\n']) =
      closing.toList ++ ['*', '/', '\n'] := by
    simpa [joinLines] using joinLines_of_not_mem hstop []
  have hstar : '*' ∉ opening.toList := fun hmem => (hopening _ hmem).2 rfl
  have hslash : '/' ∉ closing.toList := fun hmem => (hclosing _ hmem).2.1 rfl
  unfold IsCommentLine
  rw [hlist, joinLines_of_not_mem hstart, joinLines_append _ hhead, hjoin]
  have hbody : opening.toList ++ (joinLines name.toList ++ (closing.toList ++ ['*', '/', '\n'])) =
      (opening.toList ++ (joinLines name.toList ++ closing.toList)) ++ '*' :: '/' :: ['\n'] := by
    simp
  show afterStarSlash? (opening.toList ++ _) = _ ↔ _
  rw [hbody, afterStarSlash?_eq_some_iff, starSlash_append_left_iff hstar,
    starSlash_append_right_iff _ hslash]

end CanopenTables.SourceText
