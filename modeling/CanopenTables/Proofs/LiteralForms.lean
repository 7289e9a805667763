import CanopenTables.DataType.Resolver
import CanopenTables.Literal

/-!
# Which values have a literal

Of the many kinds of data only four ways to write a value remain: as a text, as bytes, with decimal
places, or as an integer.  Whether a value has a literal is decided by the form of the kind
(`Literal.exists_format_iff`), and the form is decided by the family of the data type
(`Family.form_resolve`), whatever values the type has been made large enough for.
-/

namespace CanopenTables

/-- The ways to write a value. -/
inductive LiteralForm where
  | text
  | bytes
  | decimal
  | integral
  deriving DecidableEq, Repr

namespace LiteralForm

/-- Whether a value can be written in a form. -/
def admits : LiteralForm → Value → Bool
  | text, .visibleString _ => true
  | bytes, .visibleString _ => true
  | bytes, .domain _ => true
  | decimal, .real _ => true
  | decimal, .integer _ => true
  | decimal, .unsigned _ => true
  | integral, .boolean _ => true
  | integral, .integer _ => true
  | integral, .unsigned _ => true
  | _, _ => false

/-- Whether the form stands for an array of bytes. -/
def isByteSequence : LiteralForm → Bool
  | text => true
  | bytes => true
  | _ => false

/-- Whether a value, written as bytes, has none. -/
def isBlank (form : LiteralForm) (value : Value) : Bool :=
  form = .bytes ∧ value.byteLength? = some 0

theorem exists_byteLength_of_admits {form : LiteralForm} {value : Value}
    (hform : form.isByteSequence = true) (h : form.admits value = true) :
    ∃ n, value.byteLength? = some n := by
  cases value with
  | visibleString s => exact ⟨_, rfl⟩
  | domain bytes => exact ⟨_, rfl⟩
  | boolean b => cases form <;> cases hform <;> cases h
  | integer v => cases form <;> cases hform <;> cases h
  | unsigned v => cases form <;> cases hform <;> cases h
  | real x => cases form <;> cases hform <;> cases h

end LiteralForm

/-- Integers have no bytes to write. -/
theorem Value.byteLength?_of_toUInt64? {value : Value} (h : value.toUInt64?.isSome = true) :
    value.byteLength? = none := by
  cases value with
  | visibleString s => cases h
  | domain bytes => cases h
  | boolean b => rfl
  | integer v => rfl
  | unsigned v => rfl
  | real x => rfl

theorem longestBytes_singleton {value : Value} {n : Nat} (h : value.byteLength? = some n) :
    longestBytes [value] = n := by
  simp [longestBytes, h]

/-- The form of the values of a kind. -/
def Kind.form : Kind → LiteralForm
  | visibleString => .text
  | domain => .bytes
  | real _ => .decimal
  | _ => .integral

theorem Kind.isByteSequence_form (kind : Kind) :
    kind.form.isByteSequence = kind.isByteSequence := by
  cases kind <;> rfl

theorem Kind.form_eq_bytes_iff {kind : Kind} : kind.form = .bytes ↔ kind = .domain := by
  cases kind <;> simp [form]

namespace Family

/-- The form of the values of a family. -/
def form : Family → LiteralForm
  | string _ => .text
  | domain => .bytes
  | real _ => .decimal
  | _ => .integral

theorem form_resolve (family : Family) (n longest : Nat) :
    (family.resolve n longest).kind.form = family.form := by
  cases family <;> rfl

theorem size_resolve_of_domain {family : Family} {n longest : Nat}
    (h : (family.resolve n longest).kind = .domain) :
    (family.resolve n longest).size = some longest := by
  cases family with
  | domain => rfl
  | string declared => cases h
  | unsigned width => cases h
  | integer width => cases h
  | real width => cases h
  | boolean => cases h

end Family

/-- A value has a literal when the form of the kind admits it. -/
theorem Literal.exists_format_iff {kind : Kind} {value : Value} {i : Index} {k : SubIndex} :
    (∃ literal, Literal.format kind value i k = .ok literal) ↔ kind.form.admits value = true := by
  have hformat : (∃ literal, Literal.format kind value i k = .ok literal) ↔
      (Literal.of? kind value).isSome = true := by
    unfold Literal.format
    cases Literal.of? kind value with
    | none => simp
    | some literal => simp
  rw [hformat]
  cases kind with
  | visibleString => cases value <;> simp [Literal.of?, Kind.form, LiteralForm.admits]
  | domain => cases value <;> simp [Literal.of?, Kind.form, LiteralForm.admits, Value.bytes?]
  | real width => cases value <;> simp [Literal.of?, Literal.ofReal?, Kind.form, LiteralForm.admits]
  | _ => cases value <;> simp [Literal.of?, Kind.form, LiteralForm.admits, Value.toInt?]

/-- For a domain that is as large as its value, no bytes means no size. -/
theorem ResolvedType.isBlank_iff {type : ResolvedType} {value : Value}
    (hsize : type.kind = .domain → type.size = some (longestBytes [value]))
    (hvalue : type.kind.form.admits value = true) :
    type.kind = .domain ∧ type.size = some 0 ↔ type.kind.form.isBlank value = true := by
  unfold LiteralForm.isBlank
  rw [decide_eq_true_iff, Kind.form_eq_bytes_iff]
  refine and_congr_right fun hkind => ?_
  have hform : type.kind.form.isByteSequence = true := by
    rw [hkind]
    rfl
  obtain ⟨n, hn⟩ := LiteralForm.exists_byteLength_of_admits hform hvalue
  rw [hsize hkind, longestBytes_singleton hn, hn]

end CanopenTables
