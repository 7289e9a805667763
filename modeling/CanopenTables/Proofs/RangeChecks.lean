import CanopenTables.Proofs.MappedVariables
import CanopenTables.Proofs.RangeRegistration
import Mathlib.Algebra.Group.Int.Defs

/-!
# What a range check admits

The check routine reads a value through the storage type of its range and compares it with the two
bounds, both cast to this type.  A cast keeps the residue of an integer modulo the number of values
of the type (`Storage.emod_wrap`), and an integer that the type holds keeps its value
(`Storage.wrap_eq_self`).

* **What is admitted** are the values between the cast bounds, without a lower end where the lower
  bound is not checked (`RangeType.accepts_iff`).
* **These are the declared values** when both bounds are values of the type; an unsigned type may
  also have a lower bound of zero or less (`RangeType.accepts_iff_of_holds`).
* **A bound outside the type wraps round**, and values of the range are refused
  (`not_forall_rangeCheck_enforces`).

Main statement: `rangeCheck_enforces`.
-/

namespace CanopenTables

/-! ### Casts -/

namespace Storage

/-- The integers that are values of a storage type. -/
def Holds : Storage → Int → Prop
  | unsigned width, v => 0 ≤ v ∧ v < 2 ^ width
  | integer width, v => -2 ^ (width - 1) ≤ v ∧ v < 2 ^ (width - 1)
  | real _, _ => False

/-- What a cast to a storage type makes of an integer. -/
def wrap : Storage → Int → Int
  | unsigned width, z => z % 2 ^ width
  | integer width, z => z.bmod (2 ^ width)
  | real _, z => z

/-- The types of integers have at least one bit. -/
def HasBits (storage : Storage) : Prop :=
  ∀ width, storage = .unsigned width ∨ storage = .integer width → 0 < width

theorem two_pow_eq {width : Nat} (h : 0 < width) : (2 : Int) ^ width = 2 * 2 ^ (width - 1) := by
  obtain ⟨n, rfl⟩ := Nat.exists_eq_add_of_le' h
  rw [Nat.add_sub_cancel, Int.pow_succ, Int.mul_comm]

theorem holds_wrap {storage : Storage} (hbits : storage.HasBits) (hreal : ∀ w, storage ≠ .real w)
    (z : Int) : storage.Holds (storage.wrap z) := by
  cases storage with
  | unsigned width =>
    have hpos : (0 : Int) < 2 ^ width := Int.pow_pos (by decide)
    exact ⟨Int.emod_nonneg z (by omega), Int.emod_lt_of_pos z hpos⟩
  | integer width =>
    have hpow := two_pow_eq (hbits width (Or.inr rfl))
    have hle := Int.le_bmod (x := z) (Nat.two_pow_pos width)
    have hlt := Int.bmod_lt (x := z) (Nat.two_pow_pos width)
    push_cast at hle hlt
    show -2 ^ (width - 1) ≤ z.bmod (2 ^ width) ∧ z.bmod (2 ^ width) < 2 ^ (width - 1)
    omega
  | real width => exact absurd rfl (hreal width)

theorem emod_wrap {storage : Storage} {width : Nat}
    (h : storage = .unsigned width ∨ storage = .integer width) (z : Int) :
    storage.wrap z % 2 ^ width = z % 2 ^ width := by
  rcases h with rfl | rfl
  · exact Int.emod_emod z _
  · show z.bmod (2 ^ width) % 2 ^ width = z % 2 ^ width
    have hmod := Int.bmod_emod (x := z) (m := 2 ^ width)
    push_cast at hmod
    exact hmod

theorem wrap_eq_self {storage : Storage} (hbits : storage.HasBits) {z : Int}
    (h : storage.Holds z) : storage.wrap z = z := by
  cases storage with
  | unsigned width => exact Int.emod_eq_of_lt h.1 h.2
  | integer width =>
    have hpow := two_pow_eq (hbits width (Or.inr rfl))
    obtain ⟨hle, hlt⟩ := h
    apply Int.bmod_eq_of_le_mul_two
    · push_cast
      omega
    · push_cast
      omega
  | real width => rfl

end Storage

/-! ### Verdicts -/

/-- What the check routine finds. -/
inductive Verdict where
  | accepted
  | tooLow
  | tooHigh
  | exceeded
  deriving DecidableEq, Repr

/-- A bound after a cast to a storage type, if it is an integer. -/
def Bound.cast? (storage : Storage) : Bound → Option Int
  | integer z => some (storage.wrap z)
  | real _ => none

/-- The verdict of the comparisons on a value, which are made in the order of the text; none when a
bound is no integer. -/
def RangeCheck.verdict? (c : RangeCheck) (v : Int) : Option Verdict := do
  let low ←
    match c.lower with
    | some bound => (bound.cast? c.storage).map fun z => decide (v < z)
    | none => some false
  let high ← (c.upper.cast? c.storage).map fun z => decide (z < v)
  some (if low then .tooLow else if high then .tooHigh else .accepted)

/-- The verdict of a case on a value of its type. -/
def RangeCase.verdict? : RangeCase → Int → Option Verdict
  | zero _ storage, v => some (if v = storage.wrap 0 then .accepted else .exceeded)
  | bounds _ check, v => check.verdict? v

namespace RangeCheck

theorem accepts_iff_of_upper (storage : Storage) (maximum v : Int) :
    (⟨storage, none, .integer maximum⟩ : RangeCheck).verdict? v = some .accepted ↔
      v ≤ storage.wrap maximum := by
  simp [verdict?, Bound.cast?]

theorem accepts_iff_of_bounds (storage : Storage) (minimum maximum v : Int) :
    (⟨storage, some (.integer minimum), .integer maximum⟩ : RangeCheck).verdict? v =
        some .accepted ↔
      storage.wrap minimum ≤ v ∧ v ≤ storage.wrap maximum := by
  by_cases hlow : v < storage.wrap minimum
  · simp [verdict?, Bound.cast?, hlow, Int.not_le.mpr hlow]
  · simp [verdict?, Bound.cast?, hlow, Int.not_lt.mp hlow]

end RangeCheck

namespace RangeType

variable {t : RangeType} {minimum maximum : Int} (hminimum : t.minimum = .integer minimum)
  (hmaximum : t.maximum = .integer maximum)

include hminimum hmaximum

/-- A value is accepted between the cast bounds; the lower one may not be checked. -/
theorem accepts_iff (v : Int) :
    t.checkCase.verdict? v = some .accepted ↔
      ((t.base.unsigned = true ∧ minimum ≤ 0) ∨ t.base.storage.wrap minimum ≤ v) ∧
        v ≤ t.base.storage.wrap maximum := by
  show t.check.verdict? v = some .accepted ↔ _
  by_cases hfloor : t.base.unsigned = true ∧ minimum ≤ 0
  · have hcheck : t.check = ⟨t.base.storage, none, .integer maximum⟩ := by
      simp [check, hminimum, hmaximum, Bound.isNonPositive, hfloor]
    rw [hcheck, RangeCheck.accepts_iff_of_upper]
    simp [hfloor]
  · have hcheck : t.check = ⟨t.base.storage, some (.integer minimum), .integer maximum⟩ := by
      simp [check, hminimum, hmaximum, Bound.isNonPositive, hfloor]
    rw [hcheck, RangeCheck.accepts_iff_of_bounds]
    simp [hfloor]

/-- Bounds that are values of the type are enforced.  No value of an unsigned type lies below a
bound of zero or less, so this one may be out of the type. -/
theorem accepts_iff_of_holds (hbase : t.base.IsSound)
    (hlower : t.base.storage.Holds minimum ∨ (t.base.unsigned = true ∧ minimum ≤ 0))
    (hupper : t.base.storage.Holds maximum) {v : Int} (hv : t.base.storage.Holds v) :
    t.checkCase.verdict? v = some .accepted ↔ minimum ≤ v ∧ v ≤ maximum := by
  have hbits : t.base.storage.HasBits := fun width hwidth =>
    Family.integerWidths_pos (hbase.width width hwidth)
  have hfloor (h : t.base.unsigned = true ∧ minimum ≤ 0) : minimum ≤ v := by
    obtain ⟨width, hwidth⟩ := hbase.unsigned h.1
    rw [hwidth] at hv
    exact Int.le_trans h.2 hv.1
  rw [accepts_iff hminimum hmaximum, Storage.wrap_eq_self hbits hupper]
  refine and_congr_left fun _ => ?_
  constructor
  · rintro (h | h)
    · exact hfloor h
    · rcases hlower with hlower | hlower
      · rwa [Storage.wrap_eq_self hbits hlower] at h
      · exact hfloor hlower
  · intro h
    rcases hlower with hlower | hlower
    · rw [Storage.wrap_eq_self hbits hlower]
      exact Or.inr h
    · exact Or.inl hlower

end RangeType

/-- The lines of a case with integers for bounds, of which the lower one may not be checked. -/
def checkLines (id : RangeId) (storage : Storage) (minimum? : Option Int) (maximum : Int) :
    String :=
  let read := "      if (*(" ++ storage.spelled ++ "*)value "
  let cast := " (" ++ storage.spelled ++ ")"
  "    case " ++ id.spelled ++ ":\n" ++
    (match minimum? with
      | some minimum =>
        read ++ "<" ++ cast ++ Numeral.signedDecimal minimum ++ ") return OD_VALUE_TOO_LOW;\n"
      | none => "      /* Negative or null low limit ignored because of unsigned type */;\n") ++
    (read ++ ">" ++ cast ++ Numeral.signedDecimal maximum ++ ") return OD_VALUE_TOO_HIGH;\n") ++
    "    break;\n"

theorem RangeType.text_checkCase {t : RangeType} {minimum maximum : Int}
    (hminimum : t.minimum = .integer minimum) (hmaximum : t.maximum = .integer maximum) :
    t.checkCase.text =
      checkLines t.id t.base.storage
        (if t.base.unsigned = true ∧ minimum ≤ 0 then none else some minimum) maximum := by
  have hlow : "*)value < (" = "*)value " ++ "<" ++ " (" := rfl
  have hhigh : "*)value > (" = "*)value " ++ ">" ++ " (" := rfl
  rw [RangeCase.text_eq_spelled]
  unfold RangeCase.spelled RangeCase.spelledBody checkCase RangeCase.id RangeCheck.spelledLower
    RangeCheck.spelledUpper check checkLines
  dsimp only
  rw [hhigh, hlow, hminimum, hmaximum]
  by_cases hfloor : t.base.unsigned = true ∧ minimum ≤ 0
  · have hfree : (t.base.unsigned && (Bound.integer minimum).isNonPositive) = true := by
      simp [Bound.isNonPositive, hfloor]
    rw [if_pos hfloor, if_pos hfree]
    simp only [Bound.text, String.append_assoc]
  · have hchecked : ¬ (t.base.unsigned && (Bound.integer minimum).isNonPositive) = true := by
      simpa [Bound.isNonPositive] using hfloor
    rw [if_neg hfloor, if_neg hchecked]
    simp only [Bound.text, String.append_assoc]

theorem Bound.eq_integer_of_toInt {value : Value} {bound : Bound} {z : Int}
    (h : ofValue? value = some bound) (hz : value.toInt? = some z) : bound = .integer z := by
  cases value with
  | real x => cases hz
  | boolean b => simp_all [ofValue?]
  | integer v => simp_all [ofValue?]
  | unsigned v => simp_all [ofValue?]
  | visibleString s => cases hz
  | domain bytes => cases hz

namespace Dictionary

variable {d : Dictionary} {r : Resolver} {n : Nat}

/-- **Range checks.**  Let the bounds of a range be integers and its base type one of integers.  Of
the values of the base type those between the cast bounds are accepted, without a lower end where
an unsigned type has a lower bound of zero or less; the lines of the case make these comparisons.
If the bounds that count are values of the base type themselves, the values accepted are those
between the declared bounds. -/
theorem rangeCheck_enforces {ranges : List RangeType}
    (h : (d.rangeTypes.run (Resolver.new n)).outcome = .ok (ranges, r)) :
    List.Forall₂
      (fun (b : Index × Entry) t => ∀ minimum maximum,
        (b.2.value? 2).bind Value.toInt? = some minimum →
        (b.2.value? 3).bind Value.toInt? = some maximum →
        t.checkCase.text = checkLines t.id t.base.storage
          (if t.base.unsigned = true ∧ minimum ≤ 0 then none else some minimum) maximum ∧
        ∀ v, t.base.storage.Holds v →
          (t.checkCase.verdict? v = some .accepted ↔
            ((t.base.unsigned = true ∧ minimum ≤ 0) ∨ t.base.storage.wrap minimum ≤ v) ∧
              v ≤ t.base.storage.wrap maximum) ∧
          (t.base.storage.Holds minimum ∨ (t.base.unsigned = true ∧ minimum ≤ 0) →
            t.base.storage.Holds maximum →
              (t.checkCase.verdict? v = some .accepted ↔ minimum ≤ v ∧ v ≤ maximum)))
      d.rangeEntries ranges := by
  obtain ⟨hof, -, -⟩ := registrations_of_walk (Resolver.isSound_new n) h
  refine hof.imp fun b t ht minimum maximum hminimum hmaximum => ?_
  have hbound {k : SubIndex} {bound : Bound} {z : Int}
      (hbound : (b.2.value? k).bind Bound.ofValue? = some bound)
      (hz : (b.2.value? k).bind Value.toInt? = some z) : bound = .integer z := by
    obtain ⟨value, hvalue, hbound⟩ := Option.bind_eq_some_iff.mp hbound
    rw [hvalue, Option.bind_some] at hz
    exact Bound.eq_integer_of_toInt hbound hz
  have hlower := hbound ht.minimum hminimum
  have hupper := hbound ht.maximum hmaximum
  refine ⟨RangeType.text_checkCase hlower hupper, fun v hv => ?_⟩
  exact ⟨RangeType.accepts_iff hlower hupper v, fun hmin hmax =>
    RangeType.accepts_iff_of_holds hlower hupper ht.base hmin hmax hv⟩

theorem rangeCheck_enforces_drive :
    ∃ ranges r, ∃ t : RangeType,
      (drive.rangeTypes.run (Resolver.new 10)).outcome = .ok (ranges, r) ∧
      ranges = [t] ∧ t.base.storage = .unsigned 8 ∧
      ∀ v : Int, 0 ≤ v → v < 256 →
        (t.checkCase.verdict? v = some .accepted ↔ 0 ≤ v ∧ v ≤ 100) := by
  obtain ⟨⟨ranges, r⟩, h⟩ := exists_eq_ok_of_isOk
    (by decide +kernel : (drive.rangeTypes.run (Resolver.new 10)).outcome.isOk = true)
  have hranges : (drive.rangeTypes.run (Resolver.new 10)).outcome.toOption.map Prod.fst =
      some [⟨1, 0x40, ⟨.unsigned 8, none, .unsigned 8, true⟩, .integer 0, .integer 100⟩] := by
    decide +kernel
  rw [h] at hranges
  obtain rfl := Option.some.inj hranges
  obtain ⟨b, hb, hcheck⟩ := getElem?_of_forall₂ (k := 0) (rangeCheck_enforces h) rfl
  rw [(by decide : drive.rangeEntries = [(0x40, .ofRange "UNSIGNED8[0-100]" 0x0005 0 100)])] at hb
  cases hb
  refine ⟨_, r, _, h, rfl, rfl, fun v hpos hlt => ?_⟩
  exact ((hcheck 0 100 rfl rfl).2 v ⟨hpos, hlt⟩).2 (Or.inl ⟨by decide, by decide⟩)
    ⟨by decide, by decide⟩

/-- A range of bytes whose upper bound is no byte. -/
def overwide : Dictionary :=
  { node := { name := "Node" }
    entries := .ofList [(0x0040, .ofRange "UNSIGNED8[0-300]" 0x0005 0 300)] }

/-- The bound 300 becomes 44, and the value 100 is refused. -/
theorem not_forall_rangeCheck_enforces :
    ¬ ∀ (d : Dictionary) (n : Nat) (ranges : List RangeType) (r : Resolver),
      (d.rangeTypes.run (Resolver.new n)).outcome = .ok (ranges, r) →
        List.Forall₂
          (fun (b : Index × Entry) t => ∀ minimum maximum,
            (b.2.value? 2).bind Value.toInt? = some minimum →
            (b.2.value? 3).bind Value.toInt? = some maximum →
            ∀ v, t.base.storage.Holds v →
              (t.checkCase.verdict? v = some .accepted ↔ minimum ≤ v ∧ v ≤ maximum))
          d.rangeEntries ranges := by
  intro h
  obtain ⟨⟨ranges, r⟩, hrun⟩ := exists_eq_ok_of_isOk
    (by decide +kernel : (overwide.rangeTypes.run (Resolver.new 10)).outcome.isOk = true)
  have hranges : (overwide.rangeTypes.run (Resolver.new 10)).outcome.toOption.map Prod.fst =
      some [⟨1, 0x40, ⟨.unsigned 8, none, .unsigned 8, true⟩, .integer 0, .integer 300⟩] := by
    decide +kernel
  rw [hrun] at hranges
  obtain rfl := Option.some.inj hranges
  obtain ⟨b, hb, hcheck⟩ := getElem?_of_forall₂ (k := 0) (h overwide 10 _ r hrun) rfl
  rw [(by decide :
    overwide.rangeEntries = [(0x40, .ofRange "UNSIGNED8[0-300]" 0x0005 0 300)])] at hb
  cases hb
  have haccepted := (hcheck 0 300 rfl rfl 100 ⟨by decide, by decide⟩).mpr ⟨by decide, by decide⟩
  exact absurd haccepted (by decide)

end Dictionary
end CanopenTables
