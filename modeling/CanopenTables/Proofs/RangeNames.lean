import CanopenTables.Proofs.FamilyNames
import CanopenTables.Proofs.TypeSizes

/-!
# Names of ranges

A hyphen stands both between the bounds of a range and in front of a negative one.  Nothing is
ambiguous about it: a bound has a digit at least, and a hyphen after digits is the one between the
bounds.

* **Reading.**  Each reader accepts exactly the texts of its part and returns what stands behind
  them (`afterDigits?_eq_some_iff`, `afterBound?_eq_some_iff`); so a name matches exactly if it has
  the four parts of a range name (`matches?_iff`), and it has them in one way only
  (`Parts.Spells.unique`).
* **Resolving.**  A range name is never the name of a family.  The ranges are registered under range
  names, so a name of a family is answered as if there were no ranges (`answer_of_rangeTypes`),
  whatever the resolver goes through in a generation (`Passes.answer_eq`).

Main statement: `range_names_never_shadow`.
-/

namespace CanopenTables

namespace RangeName

/-! ### Bounds -/

/-- A decimal number with an optional sign. -/
inductive IsBound : List Char → Int → Prop
  | plain {digits : List Char} {n : Nat} (h : Numeral.IsDecimal digits n) : IsBound digits n
  | negative {digits : List Char} {n : Nat} (h : Numeral.IsDecimal digits n) :
    IsBound ('-' :: digits) (-n)

theorem afterDigits?_eq_some_iff {cs rest : List Char} :
    afterDigits? cs = some rest ↔ ∃ digits n, Numeral.IsDecimal digits n ∧ cs = digits ++ rest ∧
      ∀ c ∈ rest.head?, c.isDigit = false := by
  unfold afterDigits?
  constructor
  · intro h
    split at h
    · rename_i hhead
      cases h
      obtain ⟨hcs, hdigits, hrest⟩ :=
        takeWhile_dropWhile_eq_iff.mp (⟨rfl, rfl⟩ : cs.takeWhile Char.isDigit = _ ∧ _)
      have hne : cs.takeWhile Char.isDigit ≠ [] := by
        cases cs with
        | nil => cases hhead
        | cons c cs =>
          rw [List.takeWhile_cons_of_pos (by simpa using hhead)]
          exact List.cons_ne_nil _ _
      obtain ⟨n, hn⟩ := Numeral.exists_isDecimal_iff.mpr ⟨hne, hdigits⟩
      exact ⟨_, n, hn, hcs, hrest⟩
    · cases h
  · rintro ⟨digits, n, hdigits, hcs, hrest⟩
    rw [(takeWhile_dropWhile_eq_iff.mpr ⟨hcs, hdigits.isDigit, hrest⟩).2, if_pos]
    obtain ⟨c, digits, rfl⟩ := List.exists_cons_of_ne_nil hdigits.ne_nil
    rw [hcs]
    exact hdigits.isDigit c List.mem_cons_self

/-- Digits have no sign, so only a hyphen in front starts a negative bound. -/
theorem afterBound?_eq_some_iff {cs rest : List Char} :
    afterBound? cs = some rest ↔ ∃ bound z, IsBound bound z ∧ cs = bound ++ rest ∧
      ∀ c ∈ rest.head?, c.isDigit = false := by
  unfold afterBound?
  split
  · rename_i cs
    rw [afterDigits?_eq_some_iff]
    constructor
    · rintro ⟨digits, n, hdigits, rfl, hrest⟩
      exact ⟨_, _, .negative hdigits, rfl, hrest⟩
    · rintro ⟨bound, z, hbound, hcs, hrest⟩
      cases hbound with
      | plain hdigits =>
        obtain ⟨c, digits, rfl⟩ := List.exists_cons_of_ne_nil hdigits.ne_nil
        obtain ⟨rfl, -⟩ := List.cons.inj hcs
        cases hdigits.isDigit '-' List.mem_cons_self
      | negative hdigits => exact ⟨_, _, hdigits, (List.cons.inj hcs).2, hrest⟩
  · rename_i hsign
    rw [afterDigits?_eq_some_iff]
    constructor
    · rintro ⟨digits, n, hdigits, hcs, hrest⟩
      exact ⟨_, _, .plain hdigits, hcs, hrest⟩
    · rintro ⟨bound, z, hbound, hcs, hrest⟩
      cases hbound with
      | plain hdigits => exact ⟨_, _, hdigits, hcs, hrest⟩
      | negative hdigits => exact absurd hcs (hsign _)

theorem afterBound?_append {bound : List Char} (h : ∃ z, IsBound bound z) {c : Char}
    (hc : c.isDigit = false) (rest : List Char) :
    afterBound? (bound ++ c :: rest) = some (c :: rest) := by
  obtain ⟨z, hz⟩ := h
  refine afterBound?_eq_some_iff.mpr ⟨bound, z, hz, rfl, fun d hd => ?_⟩
  cases hd
  exact hc

theorem closesBounds_iff {cs : List Char} :
    closesBounds cs = true ↔ ∃ lower upper, (∃ z, IsBound lower z) ∧ (∃ z, IsBound upper z) ∧
      cs = lower ++ '-' :: (upper ++ [']']) := by
  unfold closesBounds
  constructor
  · intro h
    split at h
    · rename_i rest hlower
      obtain ⟨lower, zl, hl, rfl, -⟩ := afterBound?_eq_some_iff.mp hlower
      obtain ⟨upper, zu, hu, rfl, -⟩ := afterBound?_eq_some_iff.mp (beq_iff_eq.mp h)
      exact ⟨lower, upper, ⟨zl, hl⟩, ⟨zu, hu⟩, rfl⟩
    · cases h
  · rintro ⟨lower, upper, hlower, hupper, rfl⟩
    rw [afterBound?_append hlower rfl]
    exact beq_iff_eq.mpr (afterBound?_append hupper rfl [])

/-! ### The parts of a name -/

/-- The parts of a range name. -/
structure Parts where
  /-- The word of the base type. -/
  word : List Char
  /-- The digits of the base type. -/
  digits : List Char
  lower : List Char
  upper : List Char
  deriving DecidableEq, Repr

namespace Parts

/-- The bounds of a name, from the bracket on. -/
def bounds (p : Parts) : List Char := '[' :: (p.lower ++ '-' :: (p.upper ++ [']']))

/-- A name consists of four parts and the signs between them. -/
structure Spells (p : Parts) (name : String) : Prop where
  word : ∀ c ∈ p.word, isTypeLetter c = true
  digits : ∀ c ∈ p.digits, c.isDigit = true
  lower : ∃ z, IsBound p.lower z
  upper : ∃ z, IsBound p.upper z
  text : name.toList = p.word ++ (p.digits ++ p.bounds)

namespace Spells

variable {p p' : Parts} {name : String}

theorem cut_word (h : p.Spells name) : name.toList.takeWhile isTypeLetter = p.word ∧
    name.toList.dropWhile isTypeLetter = p.digits ++ p.bounds := by
  refine takeWhile_dropWhile_eq_iff.mpr ⟨h.text, h.word, fun c hc => ?_⟩
  cases hdigits : p.digits with
  | nil =>
    rw [hdigits] at hc
    cases hc
    decide
  | cons digit digits =>
    rw [hdigits] at hc
    obtain rfl : digit = c := Option.some.inj hc
    have hdigit : digit ∈ p.digits := by
      rw [hdigits]
      exact List.mem_cons_self
    exact isTypeLetter_eq_false_of_isDigit (h.digits digit hdigit)

theorem cut_digits (h : p.Spells name) :
    (name.toList.dropWhile isTypeLetter).takeWhile Char.isDigit = p.digits ∧
      (name.toList.dropWhile isTypeLetter).dropWhile Char.isDigit = p.bounds := by
  refine takeWhile_dropWhile_eq_iff.mpr ⟨h.cut_word.2, h.digits, fun c hc => ?_⟩
  cases hc
  decide

theorem lower_upper_eq (h : p.Spells name) (h' : p'.Spells name) :
    p.lower = p'.lower ∧ p.upper = p'.upper := by
  have hbounds := (List.cons.inj (h.cut_digits.2.symm.trans h'.cut_digits.2)).2
  -- both names have the same rest behind the lower bound
  have hread := afterBound?_append h.lower (rfl : '-'.isDigit = false) (p.upper ++ [']'])
  rw [hbounds, afterBound?_append h'.lower (rfl : '-'.isDigit = false)] at hread
  have hrest := (Option.some.inj hread).symm
  rw [hrest] at hbounds
  exact ⟨List.append_cancel_right hbounds, List.append_cancel_right (List.cons.inj hrest).2⟩

theorem unique (h : p.Spells name) (h' : p'.Spells name) : p = p' := by
  have hword := h.cut_word.1.symm.trans h'.cut_word.1
  have hdigits := h.cut_digits.1.symm.trans h'.cut_digits.1
  obtain ⟨hlower, hupper⟩ := h.lower_upper_eq h'
  cases p
  cases p'
  simp only at hword hdigits hlower hupper
  rw [hword, hdigits, hlower, hupper]

end Spells
end Parts

theorem matches?_iff {name : String} :
    matches? name = true ↔ ∃ p : Parts, p.Spells name := by
  unfold matches?
  constructor
  · intro h
    split at h
    · rename_i rest hrest
      obtain ⟨lower, upper, hlower, hupper, rfl⟩ := closesBounds_iff.mp h
      obtain ⟨hdigits, hdigit, -⟩ := takeWhile_dropWhile_eq_iff.mp ⟨rfl, hrest⟩
      obtain ⟨hword, hletter, -⟩ := takeWhile_dropWhile_eq_iff.mp ⟨rfl, hdigits⟩
      exact ⟨⟨_, _, lower, upper⟩, hletter, hdigit, hlower, hupper, hword⟩
    · cases h
  · rintro ⟨p, h⟩
    rw [h.cut_digits.2]
    exact closesBounds_iff.mpr ⟨p.lower, p.upper, h.lower, h.upper, rfl⟩

end RangeName

/-! ### Resolving -/

theorem Family.ne_of_matches {name rangeName : String} {family : Family}
    (hfamily : Family.classify name = some family)
    (hrange : RangeName.matches? rangeName = true) : name ≠ rangeName := by
  rintro rfl
  rw [Family.classify_eq_none_of_matches hrange] at hfamily
  cases hfamily

namespace Dictionary

variable {d : Dictionary} {r r' : Resolver} {name : String} {family : Family}

theorem answer_of_rangeType {number : Nat} {i : Index} {e : Entry} {t : RangeType}
    (hrange : RangeName.matches? e.name = true)
    (h : ((d.rangeType number i e).run r).outcome = .ok (t, r'))
    (hfamily : Family.classify name = some family) (candidates : List Value) :
    r'.answer name candidates = r.answer name candidates := by
  obtain ⟨_, -, _, -, base, r₁, hbase, _, -, _, -, _, -, _, -, heq⟩ := rangeType_run_eq_ok_iff.mp h
  cases heq
  rw [Resolver.answer_register, if_neg (Family.ne_of_matches hfamily hrange),
    Resolver.answer_of_resolveFor hbase]

theorem answer_of_walk {entries : List (Index × Entry)} {number : Nat} {ranges : List RangeType}
    (hranges : ∀ b ∈ entries, RangeName.matches? b.2.name = true)
    (h : (((entries.zipIdx number).mapM fun ((i, e), k) => d.rangeType k i e).run r).outcome =
      .ok (ranges, r'))
    (hfamily : Family.classify name = some family) (candidates : List Value) :
    r'.answer name candidates = r.answer name candidates := by
  induction entries generalizing number r ranges with
  | nil =>
    cases h
    rfl
  | cons b entries ih =>
    rw [List.zipIdx_cons] at h
    obtain ⟨t, r₁, ht, ts, r₂, hts, heq⟩ := Lowering.run_mapM_cons_eq_ok_iff.mp h
    cases heq
    obtain ⟨hb, hentries⟩ := List.forall_mem_cons.mp hranges
    rw [ih hentries hts, answer_of_rangeType hb ht hfamily]

/-- The ranges of a dictionary change no answer to the name of a family, whatever the resolver
knows before. -/
theorem answer_of_rangeTypes {ranges : List RangeType}
    (h : (d.rangeTypes.run r).outcome = .ok (ranges, r'))
    (hfamily : Family.classify name = some family) (candidates : List Value) :
    r'.answer name candidates = r.answer name candidates :=
  answer_of_walk (fun _ hb => matches_of_mem_rangeEntries hb) h hfamily candidates

theorem Passes.answer_eq {k : Nat} (hr : d.Passes k r)
    (hfamily : Family.classify name = some family) (candidates : List Value) :
    r.answer name candidates =
      .ok (family.resolve d.node.defaultStringSize (longestBytes candidates)) := by
  induction hr with
  | start => rw [Resolver.answer_new, hfamily]
  | range _ hb hrun ih =>
    have hrange := matches_of_mem_rangeEntries (List.mem_of_getElem? hb)
    rw [answer_of_rangeType hrange hrun hfamily, ih]
  | lookup _ hresolve ih => rw [Resolver.answer_of_resolveFor hresolve, ih]

/-- **Range names.**  A name declares a range exactly if it consists of letters, digits and two
bounds in brackets, and then it does so in one way only and names no family.  So the ranges of a
dictionary leave the answers to all names of families as they are, and throughout a generation
these names denote their families. -/
theorem range_names_never_shadow (d : Dictionary) (name : String) :
    (RangeName.matches? name = true ↔ ∃ p : RangeName.Parts, p.Spells name) ∧
    (∀ p p' : RangeName.Parts, p.Spells name → p'.Spells name → p = p') ∧
    (RangeName.matches? name = true → Family.classify name = none) ∧
    ∀ family, Family.classify name = some family → ∀ candidates,
      (∀ r ranges r', (d.rangeTypes.run r).outcome = .ok (ranges, r') →
        r'.answer name candidates = r.answer name candidates) ∧
      ∀ k r, d.Passes k r → r.answer name candidates =
        .ok (family.resolve d.node.defaultStringSize (longestBytes candidates)) := by
  refine ⟨RangeName.matches?_iff, fun _ _ => RangeName.Parts.Spells.unique,
    Family.classify_eq_none_of_matches, fun family hfamily candidates => ⟨?_, ?_⟩⟩
  · intro r ranges r' h
    exact answer_of_rangeTypes h hfamily candidates
  · intro k r hr
    exact hr.answer_eq hfamily candidates

/-- The range over `UNSIGNED8` does not hide `UNSIGNED8`. -/
theorem range_names_never_shadow_drive :
    Family.classify "UNSIGNED8" = some (.unsigned 8) ∧
    ∃ ranges r, (drive.rangeTypes.run (.new drive.node.defaultStringSize)).outcome =
        .ok (ranges, r) ∧
      r.answer "UNSIGNED8" [] = .ok ⟨.unsigned 8, none, .unsigned 8, true⟩ := by
  have hfamily : Family.classify "UNSIGNED8" = some (.unsigned 8) := by decide +kernel
  obtain ⟨⟨ranges, r⟩, h⟩ := exists_eq_ok_of_isOk (by decide +kernel :
    (drive.rangeTypes.run (.new drive.node.defaultStringSize)).outcome.isOk = true)
  obtain ⟨-, -, -, hanswer⟩ := range_names_never_shadow drive "UNSIGNED8"
  refine ⟨hfamily, ranges, r, h, ?_⟩
  rw [(hanswer _ hfamily []).1 _ ranges r h, Resolver.answer_new, hfamily]
  rfl

/-- The hyphen after the digits separates, and the next one is a sign. -/
example : (⟨"INTEGER".toList, "16".toList, "-10".toList, "-2".toList⟩ : RangeName.Parts).Spells
    "INTEGER16[-10--2]" where
  word := List.all_eq_true.mp (by decide)
  digits := List.all_eq_true.mp (by decide)
  lower := ⟨_, .negative (Numeral.isDecimal_decimal 10)⟩
  upper := ⟨_, .negative (Numeral.isDecimal_decimal 2)⟩
  text := by decide

end Dictionary
end CanopenTables
