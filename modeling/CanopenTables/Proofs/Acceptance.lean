import CanopenTables.Proofs.MappedVariables
import CanopenTables.Proofs.RangeAcceptance

/-!
# Which dictionaries are accepted

A generation can fail at many places: a type without a name, a name without a type, a value that has
no literal, a count that is none, a subindex without a description.  For dictionaries whose entries
have been built for their shapes these places come down to a list of conditions,
`Dictionary.Accepted`, that mentions neither the resolver nor the order of the steps.

Once the ranges are registered, what matters about a type is the form of its values
(`Site.exists_resolve_iff`).  With it, each step of laying out an entry is restated as a condition
on forms and values; late checks, such as the size column of a row, turn out to be implied by
earlier ones except at subindex 0.

Main statement: `generate_accepts_iff`.
-/

namespace CanopenTables

namespace Dictionary

/-- The form of the values of a data type, by its code; codes that cannot be resolved have none. -/
def form? (d : Dictionary) (code : UInt16) : Option LiteralForm :=
  (d.typeName? code).bind (Resolver.form? d.rangeNames)

/-- Whether a value can stand at a subindex: its type has a form, in which it can be written, and a
domain at file scope has bytes. -/
def Admits (d : Dictionary) (i : Index) (sub : SubEntry) (value : Value) : Prop :=
  ∃ form, d.form? sub.typeCode = some form ∧ form.admits value = true ∧
    (Profile.isMapped i = true → form.isBlank value = false)

/-- Whether a value can count the others from subindex 0.  Nobody looks at the one of the error
field. -/
def AdmitsCount (d : Dictionary) (i : Index) (sub : SubEntry) (value : Value) : Prop :=
  ∃ form, d.form? sub.typeCode = some form ∧
    (i = Profile.predefinedErrorField ∨
      form.isByteSequence = false ∧ value.toUInt64?.isSome = true)

/-- What a record has to fulfil.  Its elements are counted once more, in the error field too. -/
def AdmitsRecord (d : Dictionary) (i : Index) (count element : SubEntry) : List Value → Prop
  | [] => False
  | first :: rest =>
    rest.length < 256 ∧ d.AdmitsCount i count first ∧ first.toUInt64?.isSome = true ∧
      (d.form? element.typeCode).isSome = true ∧ ∀ value ∈ rest, d.Admits i element value

/-- What an array has to fulfil: each value has a description of its own. -/
def AdmitsArray (d : Dictionary) (i : Index) (subs : List SubEntry) : List Value → Prop
  | [] => False
  | first :: rest =>
    rest.length < 256 ∧ (∃ count, subs[0]? = some count ∧ d.AdmitsCount i count first) ∧
      ∀ k value, rest[k]? = some value →
        ∃ sub, subs[k + 1]? = some sub ∧ d.Admits i sub value

end Dictionary

namespace Site

variable {s : Site} {r : Resolver} {n : Nat} (hr : r.KnowsRanges n s.dictionary.rangeNames)

/-! ### Types and values -/

include hr in
/-- Only the form of a type matters, and for domains that they are as large as the candidates. -/
theorem exists_resolve_iff {sub : SubEntry} {candidates : List Value} {P : ResolvedType → Prop}
    {Q : LiteralForm → Prop}
    (hPQ : ∀ type : ResolvedType,
      (type.kind = .domain → type.size = some (longestBytes candidates)) →
        (P type ↔ Q type.kind.form)) :
    (∃ type, (s.resolve sub candidates).value r = .ok type ∧ P type) ↔
      ∃ form, s.dictionary.form? sub.typeCode = some form ∧ Q form := by
  constructor
  · rintro ⟨type, htype, hP⟩
    obtain ⟨name, hname, hanswer⟩ := resolve_value_eq_ok_iff.mp htype
    rcases hr.answer_cases name candidates with ⟨type', hanswer', hform, hsize⟩ | ⟨⟨e, herror⟩, -⟩
    · obtain rfl : type = type' := Except.ok.inj (hanswer.symm.trans hanswer')
      refine ⟨type.kind.form, ?_, (hPQ type hsize).mp hP⟩
      rw [Dictionary.form?, hname]
      exact hform
    · rw [herror] at hanswer
      cases hanswer
  · rintro ⟨form, hform, hQ⟩
    obtain ⟨name, hname, hform⟩ := Option.bind_eq_some_iff.mp hform
    rcases hr.answer_cases name candidates with ⟨type, hanswer, hform', hsize⟩ | ⟨-, hnone⟩
    · obtain rfl : type.kind.form = form := Option.some.inj (hform'.symm.trans hform)
      exact ⟨type, resolve_value_eq_ok_iff.mpr ⟨name, hname, hanswer⟩, (hPQ type hsize).mpr hQ⟩
    · rw [hnone] at hform
      cases hform

theorem exists_literal_iff {type : ResolvedType} {value : Value} {k : SubIndex}
    (hsize : type.kind = .domain → type.size = some (longestBytes [value])) :
    (¬ (s.isMapped ∧ type.kind = .domain ∧ type.size = some 0) ∧
      ∃ literal, Literal.format type.kind value s.index k = .ok literal) ↔
      type.kind.form.admits value = true ∧
        (s.isMapped = true → type.kind.form.isBlank value = false) := by
  rw [Literal.exists_format_iff, and_comm]
  refine and_congr_right fun hvalue => ?_
  rw [not_and, ResolvedType.isBlank_iff hsize hvalue, Bool.not_eq_true]

theorem exists_elementLiteral_iff {kind : Kind} {value : Value} {k : SubIndex} :
    (∃ literal, s.elementLiteral kind value k = .ok literal) ↔
      kind.form.admits value = true ∧ (s.isMapped = true → kind.form.isBlank value = false) := by
  simp only [elementLiteral_eq_ok_iff, exists_and_right, Literal.exists_format_iff]
  refine and_congr_right fun _ => ?_
  rw [not_and, ← Bool.not_eq_true, LiteralForm.isBlank, decide_eq_true_iff,
    Kind.form_eq_bytes_iff]

/-! ### Shapes -/

section shapes

include hr

theorem exists_scalarCode_iff {value : Value} :
    (∃ c, (s.scalarCode value).value r = .ok c) ↔
      ∃ sub, s.subEntry 0 = .ok sub ∧ s.dictionary.Admits s.index sub value := by
  have hsteps : (∃ c, (s.scalarCode value).value r = .ok c) ↔
      ∃ sub, s.subEntry 0 = .ok sub ∧ ∃ type, (s.resolve sub [value]).value r = .ok type ∧
        (¬ (s.isMapped ∧ type.kind = .domain ∧ type.size = some 0) ∧
          ∃ literal, Literal.format type.kind value s.index 0 = .ok literal) := by
    constructor
    · rintro ⟨c, h⟩
      obtain ⟨sub, hsub, type, htype, hblank, literal, hliteral, -⟩ :=
        scalarCode_value_eq_ok_iff.mp h
      exact ⟨sub, hsub, type, htype, hblank, literal, hliteral⟩
    · rintro ⟨sub, hsub, type, htype, hblank, literal, hliteral⟩
      exact ⟨_, scalarCode_value_eq_ok_iff.mpr
        ⟨sub, hsub, type, htype, hblank, literal, hliteral, rfl⟩⟩
  rw [hsteps]
  exact exists_congr fun sub => and_congr_right fun _ =>
    exists_resolve_iff hr fun type hsize => exists_literal_iff hsize

theorem exists_memberCode_iff {value : Value} {k : SubIndex} :
    (∃ c, (s.memberCode value k).value r = .ok c) ↔
      ∃ sub, s.subEntry k = .ok sub ∧ s.dictionary.Admits s.index sub value := by
  have hsteps : (∃ c, (s.memberCode value k).value r = .ok c) ↔
      ∃ sub, s.subEntry k = .ok sub ∧ ∃ type, (s.resolve sub [value]).value r = .ok type ∧
        (¬ (s.isMapped ∧ type.kind = .domain ∧ type.size = some 0) ∧
          ∃ literal, Literal.format type.kind value s.index k = .ok literal) := by
    constructor
    · rintro ⟨c, h⟩
      obtain ⟨sub, hsub, type, htype, literal, hliteral, hblank, -⟩ :=
        memberCode_value_eq_ok_iff.mp h
      exact ⟨sub, hsub, type, htype, hblank, literal, hliteral⟩
    · rintro ⟨sub, hsub, type, htype, hblank, literal, hliteral⟩
      exact ⟨_, memberCode_value_eq_ok_iff.mpr
        ⟨sub, hsub, type, htype, literal, hliteral, hblank, rfl⟩⟩
  rw [hsteps]
  exact exists_congr fun sub => and_congr_right fun _ =>
    exists_resolve_iff hr fun type hsize => exists_literal_iff hsize

theorem exists_highestCode_iff {values : List Value} :
    (∃ c, (s.highestCode values).value r = .ok c) ↔
      ∃ sub, s.subEntry 0 = .ok sub ∧ ∃ form, s.dictionary.form? sub.typeCode = some form ∧
        (s.index = Profile.predefinedErrorField ∨ ∃ m, s.count values = .ok m) := by
  have hsteps : (∃ c, (s.highestCode values).value r = .ok c) ↔
      ∃ sub, s.subEntry 0 = .ok sub ∧ ∃ type, (s.resolve sub []).value r = .ok type ∧
        ∃ m, s.highestValue values = .ok m := by
    constructor
    · rintro ⟨c, h⟩
      obtain ⟨sub, hsub, type, htype, m, hm, -⟩ := highestCode_value_eq_ok_iff.mp h
      exact ⟨sub, hsub, type, htype, m, hm⟩
    · rintro ⟨sub, hsub, type, htype, m, hm⟩
      exact ⟨_, highestCode_value_eq_ok_iff.mpr ⟨sub, hsub, type, htype, m, hm, rfl⟩⟩
  have hvalue : (∃ m, s.highestValue values = .ok m) ↔
      s.index = Profile.predefinedErrorField ∨ ∃ m, s.count values = .ok m := by
    unfold highestValue
    split
    · rename_i hindex
      simp [hindex]
    · rename_i hindex
      simp [hindex]
  rw [hsteps, hvalue]
  exact exists_congr fun sub => and_congr_right fun _ =>
    exists_resolve_iff hr fun type _ => Iff.rfl

theorem exists_recordCode_iff {values : List Value} :
    (∃ c, (s.recordCode values).value r = .ok c) ↔
      ∃ sub, s.subEntry 1 = .ok sub ∧ ∃ form, s.dictionary.form? sub.typeCode = some form ∧
        (∃ m, s.count values = .ok m) ∧
          ∀ value ∈ values.tail, form.admits value = true ∧
            (s.isMapped = true → form.isBlank value = false) := by
  have hsteps : (∃ c, (s.recordCode values).value r = .ok c) ↔
      ∃ sub, s.subEntry 1 = .ok sub ∧ ∃ type, (s.resolve sub values.tail).value r = .ok type ∧
        ((∃ m, s.count values = .ok m) ∧
          ∀ b ∈ values.tail.zipIdx 1,
            ∃ literal, s.elementLiteral type.kind b.1 (UInt8.ofNat b.2) = .ok literal) := by
    constructor
    · rintro ⟨c, h⟩
      obtain ⟨sub, hsub, type, htype, m, hm, literals, hliterals, -⟩ :=
        recordCode_value_eq_ok_iff.mp h
      exact ⟨sub, hsub, type, htype, ⟨m, hm⟩, exists_forall₂_iff.mp ⟨literals, hliterals⟩⟩
    · rintro ⟨sub, hsub, type, htype, ⟨m, hm⟩, hvalues⟩
      obtain ⟨literals, hliterals⟩ := exists_forall₂_iff.mpr hvalues
      exact ⟨_, recordCode_value_eq_ok_iff.mpr
        ⟨sub, hsub, type, htype, m, hm, literals, hliterals, rfl⟩⟩
  rw [hsteps]
  refine exists_congr fun sub => and_congr_right fun _ =>
    exists_resolve_iff hr fun type _ => and_congr_right fun _ => ?_
  simp only [exists_elementLiteral_iff]
  rw [← List.forall_mem_map (f := Prod.fst)
    (P := fun value => type.kind.form.admits value = true ∧
      (s.isMapped = true → type.kind.form.isBlank value = false)), List.zipIdx_map_fst]

theorem exists_arrayCode_iff {values : List Value} :
    (∃ c, (s.arrayCode values).value r = .ok c) ↔
      ∀ b ∈ values.tail.zipIdx 1, ∃ sub, s.subEntry (UInt8.ofNat b.2) = .ok sub ∧
        s.dictionary.Admits s.index sub b.1 := by
  have hsteps : (∃ c, (s.arrayCode values).value r = .ok c) ↔
      ∀ b ∈ values.tail.zipIdx 1, ∃ c, (s.memberCode b.1 (UInt8.ofNat b.2)).value r = .ok c := by
    constructor
    · rintro ⟨c, h⟩
      obtain ⟨members, hmembers, -⟩ := arrayCode_value_eq_ok_iff.mp h
      exact exists_forall₂_iff.mp ⟨members, hmembers⟩
    · intro h
      obtain ⟨members, hmembers⟩ := exists_forall₂_iff.mpr h
      exact ⟨_, arrayCode_value_eq_ok_iff.mpr ⟨members, hmembers, rfl⟩⟩
  rw [hsteps]
  exact forall₂_congr fun b _ => exists_memberCode_iff hr

end shapes

/-! ### Rows -/

theorem exists_sizeColumn_iff {type : ResolvedType} {value : Value} {k : SubIndex} :
    (∃ size, s.sizeColumn type value k = .ok size) ↔
      type.kind.form.isByteSequence = false ∨ ∃ m, value.byteLength? = some m := by
  unfold sizeColumn
  rw [Kind.isByteSequence_form]
  cases type.kind.isByteSequence with
  | false => simp
  | true =>
    cases value.byteLength? with
    | none => simp
    | some m => simp

theorem exists_rows_iff {first : Value} {rest : List Value} :
    (∃ rows, (s.rows (first :: rest)).value r = .ok rows) ↔
      (∃ row, (s.row (first :: rest) first 0).value r = .ok row) ∧
        ∀ b ∈ rest.zipIdx 1,
          ∃ row, (s.row (first :: rest) b.1 (UInt8.ofNat b.2)).value r = .ok row := by
  simp only [rows_value_eq_ok_iff]
  rw [exists_forall₂_iff, List.zipIdx_cons, List.forall_mem_cons]
  rfl

section rows

include hr

theorem exists_row_iff {values : List Value} {value : Value} {k : SubIndex} :
    (∃ row, (s.row values value k).value r = .ok row) ↔
      ∃ sub, s.subEntry k = .ok sub ∧ ∃ form, s.dictionary.form? sub.typeCode = some form ∧
        ((k = 0 ∧ s.index = Profile.predefinedErrorField) ∨ form.isByteSequence = false ∨
          ∃ m, value.byteLength? = some m) := by
  have hsteps : (∃ row, (s.row values value k).value r = .ok row) ↔
      ∃ sub, s.subEntry k = .ok sub ∧
        ∃ declared, (s.resolve sub (s.rowCandidates values value)).value r = .ok declared ∧
          ∃ size, s.sizeColumn (s.rowType k declared) value k = .ok size := by
    constructor
    · rintro ⟨row, h⟩
      obtain ⟨sub, hsub, declared, hdeclared, size, hsize, -⟩ := row_value_eq_ok_iff.mp h
      exact ⟨sub, hsub, declared, hdeclared, size, hsize⟩
    · rintro ⟨sub, hsub, declared, hdeclared, size, hsize⟩
      exact ⟨_, row_value_eq_ok_iff.mpr ⟨sub, hsub, declared, hdeclared, size, hsize, rfl⟩⟩
  rw [hsteps]
  refine exists_congr fun sub => and_congr_right fun _ =>
    exists_resolve_iff hr fun declared _ => ?_
  rw [exists_sizeColumn_iff]
  unfold rowType
  split
  · rename_i hcount
    simp [hcount, errorCountType, Kind.form, LiteralForm.isByteSequence]
  · rename_i hcount
    simp [hcount]

theorem exists_row_of_admits {values : List Value} {value : Value} {k : SubIndex} {sub : SubEntry}
    (hsub : s.subEntry k = .ok sub) (h : s.dictionary.Admits s.index sub value) :
    ∃ row, (s.row values value k).value r = .ok row := by
  obtain ⟨form, hform, hvalue, -⟩ := h
  refine (exists_row_iff hr).mpr ⟨sub, hsub, form, hform, Or.inr ?_⟩
  cases hbytes : form.isByteSequence with
  | false => exact Or.inl rfl
  | true => exact Or.inr (LiteralForm.exists_byteLength_of_admits hbytes hvalue)

/-- The count of a sequence is looked at twice: where it is written down and in its row. -/
theorem exists_highestCode_and_row_iff {first : Value} {rest : List Value} :
    (∃ c, (s.highestCode (first :: rest)).value r = .ok c) ∧
        (∃ row, (s.row (first :: rest) first 0).value r = .ok row) ↔
      ∃ sub, s.subEntry 0 = .ok sub ∧ s.dictionary.AdmitsCount s.index sub first := by
  rw [exists_highestCode_iff hr, exists_row_iff hr]
  constructor
  · rintro ⟨⟨sub, hsub, form, hform, hcount⟩, ⟨sub', hsub', form', hform', hsize⟩⟩
    obtain rfl : sub = sub' := Except.ok.inj (hsub.symm.trans hsub')
    obtain rfl : form = form' := Option.some.inj (hform.symm.trans hform')
    refine ⟨sub, hsub, form, hform, ?_⟩
    by_cases hindex : s.index = Profile.predefinedErrorField
    · exact Or.inl hindex
    · obtain ⟨m, hm⟩ := hcount.resolve_left hindex
      obtain ⟨v, hv, -⟩ := count_eq_ok_iff.mp hm
      have hsome : first.toUInt64?.isSome = true := Option.isSome_iff_exists.mpr ⟨v, hv⟩
      refine Or.inr ⟨?_, hsome⟩
      -- a count has no bytes, so its type cannot be an array of bytes
      rcases hsize with ⟨-, hindex'⟩ | hform | ⟨m, hm⟩
      · exact absurd hindex' hindex
      · exact hform
      · rw [Value.byteLength?_of_toUInt64? hsome] at hm
        cases hm
  · rintro ⟨sub, hsub, form, hform, hcount⟩
    refine ⟨⟨sub, hsub, form, hform, hcount.imp_right fun h => ?_⟩,
      ⟨sub, hsub, form, hform, hcount.imp (fun h => ⟨rfl, h⟩) fun h => Or.inl h.1⟩⟩
    obtain ⟨v, hv⟩ := Option.isSome_iff_exists.mp h.2
    exact ⟨v.toNat, count_eq_ok_iff.mpr ⟨v, hv, rfl⟩⟩

end rows

/-! ### Entries -/

theorem exists_code_iff :
    (∃ c, s.code.value r = .ok c) ↔
      (s.entry.object.values ≠ [] ∧ s.entry.object.values.length ≤ 256) ∧
        (∃ shape, (s.shapeCode s.entry.object.values).value r = .ok shape) ∧
          ∃ rows, (s.rows s.entry.object.values).value r = .ok rows := by
  constructor
  · rintro ⟨c, h⟩
    obtain ⟨values, hvalues, shape, hshape, rows, hrows, -⟩ := code_value_eq_ok_iff.mp h
    obtain ⟨rfl, hne, hlength⟩ := values_eq_ok_iff.mp hvalues
    exact ⟨⟨hne, hlength⟩, ⟨shape, hshape⟩, ⟨rows, hrows⟩⟩
  · rintro ⟨⟨hne, hlength⟩, ⟨shape, hshape⟩, ⟨rows, hrows⟩⟩
    exact ⟨_, code_value_eq_ok_iff.mpr
      ⟨_, values_eq_ok_iff.mpr ⟨rfl, hne, hlength⟩, shape, hshape, rows, hrows, rfl⟩⟩

/-- A sequence is laid out when its count is admitted and the subindexes from 1 on have code and
rows. -/
theorem exists_code_of_sequence_iff (hr : r.KnowsRanges n s.dictionary.rangeNames) {first : Value}
    {rest : List Value} (hobject : s.entry.object = .sequence (first :: rest)) :
    (∃ c, s.code.value r = .ok c) ↔
      rest.length < 256 ∧
        (∃ sub, s.subEntry 0 = .ok sub ∧ s.dictionary.AdmitsCount s.index sub first) ∧
          (∃ c, (s.elementsCode (first :: rest)).value r = .ok c) ∧
            ∀ b ∈ rest.zipIdx 1,
              ∃ row, (s.row (first :: rest) b.1 (UInt8.ofNat b.2)).value r = .ok row := by
  have hvalues : s.entry.object.values = first :: rest := by
    rw [hobject]
    rfl
  have hshape : (∃ c, (s.shapeCode (first :: rest)).value r = .ok c) ↔
      (∃ c, (s.highestCode (first :: rest)).value r = .ok c) ∧
        ∃ c, (s.elementsCode (first :: rest)).value r = .ok c := by
    simp only [shapeCode_value_eq_ok_iff_of_sequence hobject]
    constructor
    · rintro ⟨c, highest, hhighest, elements, helements, -⟩
      exact ⟨⟨highest, hhighest⟩, ⟨elements, helements⟩⟩
    · rintro ⟨⟨highest, hhighest⟩, ⟨elements, helements⟩⟩
      exact ⟨_, highest, hhighest, elements, helements, rfl⟩
  rw [exists_code_iff, hvalues, hshape, exists_rows_iff, ← exists_highestCode_and_row_iff hr,
    List.length_cons]
  constructor
  · rintro ⟨⟨-, hlength⟩, ⟨hhighest, helements⟩, hrow, hrows⟩
    exact ⟨hlength, ⟨hhighest, hrow⟩, helements, hrows⟩
  · rintro ⟨hlength, ⟨hhighest, hrow⟩, helements, hrows⟩
    exact ⟨⟨List.cons_ne_nil _ _, hlength⟩, ⟨hhighest, helements⟩, hrow, hrows⟩

end Site

/-! ### Built entries -/

namespace Entry

theorem hasIdenticalSubs_ofRecord (name : String) (count element : SubEntry)
    (values : List Value) : (ofRecord name count element values).hasIdenticalSubs = true :=
  (by decide : StructureFlags.ofRecord.contains .identical = true)

theorem hasIdenticalSubs_ofArray (name : String) (subs : List SubEntry) (values : List Value) :
    (ofArray name subs values).hasIdenticalSubs = false :=
  (by decide : StructureFlags.ofArray.contains .identical = false)

theorem sub?_ofRecord {name : String} {count element : SubEntry} {values : List Value}
    {k : SubIndex} (hk : 0 < k.toNat) :
    (ofRecord name count element values).sub? k = some element := by
  have hsubs : (ofRecord name count element values).subEntries = [count, element] := rfl
  have hpos : 0 < k := UInt8.lt_iff_toNat_lt.mpr hk
  obtain ⟨j, hj⟩ := Nat.exists_eq_add_of_le' hk
  unfold sub?
  rw [hasIdenticalSubs_ofRecord, hsubs, hj, List.getElem?_cons_succ]
  cases j with
  | zero => rfl
  | succ j => simp [hpos]

theorem sub?_ofArray {name : String} {subs : List SubEntry} {values : List Value} {k : SubIndex} :
    (ofArray name subs values).sub? k = subs[k.toNat]? := by
  have hsubs : (ofArray name subs values).subEntries = subs := rfl
  unfold sub?
  rw [hasIdenticalSubs_ofArray, hsubs]
  cases subs[k.toNat]? with
  | none => simp
  | some sub => rfl

end Entry

/-- Fewer than 256 values after the first are told apart by the bytes of their subindexes. -/
theorem toNat_of_mem_zipIdx {rest : List Value} (hlength : rest.length < 256) {b : Value × Nat}
    (hb : b ∈ rest.zipIdx 1) : (UInt8.ofNat b.2).toNat = b.2 := by
  have hlt := List.snd_lt_add_of_mem_zipIdx hb
  exact UInt8.toNat_ofNat_of_lt' (by show b.2 < 256; omega)

namespace Dictionary

variable {d : Dictionary}

section built

variable {r : Resolver} {n : Nat} (hr : r.KnowsRanges n d.rangeNames) {i : Index} {name : String}

include hr

theorem exists_code_ofVariable_iff {sub : SubEntry} {value : Value} :
    (∃ c, (⟨d, i, .ofVariable name sub value⟩ : Site).code.value r = .ok c) ↔
      d.Admits i sub value := by
  rw [Site.exists_code_iff]
  show ([value] ≠ [] ∧ [value].length ≤ 256) ∧
    (∃ c, (Site.shapeCode _ [value]).value r = .ok c) ∧
      (∃ rows, (Site.rows _ [value]).value r = .ok rows) ↔ _
  rw [Site.shapeCode_of_single rfl, Site.exists_scalarCode_iff hr, Site.exists_rows_iff]
  constructor
  · rintro ⟨-, ⟨sub', hsub, h⟩, -⟩
    obtain rfl : sub = sub' := Except.ok.inj hsub
    exact h
  · intro h
    exact ⟨by simp, ⟨sub, rfl, h⟩, Site.exists_row_of_admits hr rfl h, by simp⟩

theorem exists_code_ofRecord_iff {count element : SubEntry} {values : List Value} :
    (∃ c, (⟨d, i, .ofRecord name count element values⟩ : Site).code.value r = .ok c) ↔
      d.AdmitsRecord i count element values := by
  cases values with
  | nil =>
    rw [Site.exists_code_iff]
    simp [Entry.ofRecord, Object.values, AdmitsRecord]
  | cons first rest =>
    rw [Site.exists_code_of_sequence_iff hr rfl, Site.elementsCode,
      if_pos (Entry.hasIdenticalSubs_ofRecord name count element _), Site.exists_recordCode_iff hr]
    constructor
    · rintro ⟨hlength, ⟨sub, hsub, hcount⟩, ⟨sub', hsub', form, hform, ⟨m, hm⟩, hvalues⟩, -⟩
      obtain rfl : count = sub := Except.ok.inj hsub
      obtain rfl : element = sub' := Except.ok.inj hsub'
      obtain ⟨v, hv, -⟩ := Site.count_eq_ok_iff.mp hm
      exact ⟨hlength, hcount, Option.isSome_iff_exists.mpr ⟨v, hv⟩,
        Option.isSome_iff_exists.mpr ⟨form, hform⟩, fun value hvalue =>
          ⟨form, hform, hvalues value hvalue⟩⟩
    · rintro ⟨hlength, hcount, hfirst, hform, hvalues⟩
      obtain ⟨v, hv⟩ := Option.isSome_iff_exists.mp hfirst
      obtain ⟨form, hform⟩ := Option.isSome_iff_exists.mp hform
      refine ⟨hlength, ⟨count, rfl, hcount⟩, ⟨element, rfl, form, hform,
        ⟨v.toNat, Site.count_eq_ok_iff.mpr ⟨v, hv, rfl⟩⟩, fun value hvalue => ?_⟩, fun b hb => ?_⟩
      · obtain ⟨form', hform', h⟩ := hvalues value hvalue
        obtain rfl : form = form' := Option.some.inj (hform.symm.trans hform')
        exact h
      · have hpos : 0 < (UInt8.ofNat b.2).toNat := by
          rw [toNat_of_mem_zipIdx hlength hb]
          exact List.le_snd_of_mem_zipIdx hb
        exact Site.exists_row_of_admits hr
          (Site.subEntry_eq_ok_iff.mpr (Entry.sub?_ofRecord hpos))
          (hvalues b.1 (List.fst_mem_of_mem_zipIdx hb))

theorem exists_code_ofArray_iff {subs : List SubEntry} {values : List Value} :
    (∃ c, (⟨d, i, .ofArray name subs values⟩ : Site).code.value r = .ok c) ↔
      d.AdmitsArray i subs values := by
  cases values with
  | nil =>
    rw [Site.exists_code_iff]
    simp [Entry.ofArray, Object.values, AdmitsArray]
  | cons first rest =>
    have hidentical : ¬ (Entry.ofArray name subs (first :: rest)).hasIdenticalSubs = true := by
      rw [Entry.hasIdenticalSubs_ofArray]
      exact Bool.false_ne_true
    rw [Site.exists_code_of_sequence_iff hr rfl, Site.elementsCode, if_neg hidentical,
      Site.exists_arrayCode_iff hr]
    simp only [Site.subEntry_eq_ok_iff, Entry.sub?_ofArray]
    refine and_congr_right fun hlength => and_congr_right fun _ => ?_
    have hsubs : (∀ b ∈ rest.zipIdx 1, ∃ sub, subs[(UInt8.ofNat b.2).toNat]? = some sub ∧
        d.Admits i sub b.1) ↔
          ∀ k value, rest[k]? = some value → ∃ sub, subs[k + 1]? = some sub ∧
            d.Admits i sub value := by
      rw [← forall_mem_zipIdx_iff
        (P := fun value k => ∃ sub, subs[k]? = some sub ∧ d.Admits i sub value)]
      refine forall₂_congr fun b hb => ?_
      rw [toNat_of_mem_zipIdx hlength hb]
    rw [← hsubs]
    constructor
    · rintro ⟨h, -⟩
      exact h
    · intro h
      refine ⟨h, fun b hb => ?_⟩
      obtain ⟨sub, hsub, hadmits⟩ := h b hb
      exact Site.exists_row_of_admits hr
        (Site.subEntry_eq_ok_iff.mpr (Entry.sub?_ofArray.trans hsub)) hadmits

end built

/-! ### Dictionaries -/

/-- The conditions under which the documents of a dictionary of built entries are generated. -/
structure Accepted (d : Dictionary) : Prop where
  ranges : ∀ b ∈ d.rangeEntries, d.RangeAccepted b.1 b.2
  ofVariable : ∀ i name sub value,
    (i, .ofVariable name sub value) ∈ d.entriesIn Profile.commAreaStart 0xFFFF →
      d.Admits i sub value
  ofRecord : ∀ i name count element values,
    (i, .ofRecord name count element values) ∈ d.entriesIn Profile.commAreaStart 0xFFFF →
      d.AdmitsRecord i count element values
  ofArray : ∀ i name subs values,
    (i, .ofArray name subs values) ∈ d.entriesIn Profile.commAreaStart 0xFFFF →
      d.AdmitsArray i subs values
  /-- A byte holds the number of heartbeats. -/
  heartbeats : ∀ e, d.get? Profile.consumerHeartbeat = some e →
    ∃ m, (e.value? 0).bind Value.toUInt64? = some m ∧ m.toNat < 256

theorem exists_heartbeatTimers_iff (d : Dictionary) :
    (∃ timers, d.heartbeatTimers = .ok timers) ↔
      ∀ e, d.get? Profile.consumerHeartbeat = some e →
        ∃ m, (e.value? 0).bind Value.toUInt64? = some m ∧ m.toNat < 256 := by
  unfold heartbeatTimers contains value? get? AscendingMap.contains
  cases d.entries.get? Profile.consumerHeartbeat with
  | none => simp
  | some e =>
    simp only [Option.isSome_some, if_true, Option.bind_some, Option.some.injEq,
      forall_eq']
    cases (e.value? 0).bind Value.toUInt64? with
    | none => simp
    | some m =>
      by_cases hm : m.toNat < 256
      · simp [hm]
      · simp [hm]

theorem exists_entryCodes_iff {r : Resolver} :
    (∃ codes, d.entryCodes.value r = .ok codes) ↔
      ∀ i e, (i, e) ∈ d.entriesIn Profile.commAreaStart 0xFFFF →
        ∃ c, (⟨d, i, e⟩ : Site).code.value r = .ok c := by
  rw [entryCodes_value, exists_mapM_eq_ok_iff, sites, List.forall_mem_map, Prod.forall]

/-- **Exact acceptance.**  The documents of a dictionary of built entries are generated exactly when
its ranges, its variables, records and arrays, and its number of heartbeats fulfil their
conditions. -/
theorem generate_accepts_iff (hbuilt : d.IsBuilt) (headerName : String) (aliases : PointerAliases)
    (config : Config) :
    (∃ files, (d.generate headerName aliases config).outcome = .ok files) ↔ d.Accepted := by
  rw [exists_generate_iff]
  constructor
  · rintro ⟨ranges, r, hranges, hcodes, htimers⟩
    have hr := knowsRanges_of_rangeTypes hranges
    have hentries := exists_entryCodes_iff.mp hcodes
    exact
      { ranges := (exists_rangeTypes_iff d _).mp ⟨_, hranges⟩
        ofVariable := fun i name sub value hmem =>
          (exists_code_ofVariable_iff hr).mp (hentries i _ hmem)
        ofRecord := fun i name count element values hmem =>
          (exists_code_ofRecord_iff hr).mp (hentries i _ hmem)
        ofArray := fun i name subs values hmem =>
          (exists_code_ofArray_iff hr).mp (hentries i _ hmem)
        heartbeats := (exists_heartbeatTimers_iff d).mp htimers }
  · intro h
    obtain ⟨⟨ranges, r⟩, hranges⟩ := (exists_rangeTypes_iff d _).mpr h.ranges
    have hr := knowsRanges_of_rangeTypes hranges
    refine ⟨ranges, r, hranges, exists_entryCodes_iff.mpr ?_,
      (exists_heartbeatTimers_iff d).mpr h.heartbeats⟩
    intro i e hb
    cases hbuilt (i, e) hb with
    | ofVariable name sub value =>
      exact (exists_code_ofVariable_iff hr).mpr (h.ofVariable i name sub value hb)
    | ofRecord name count element values =>
      exact (exists_code_ofRecord_iff hr).mpr (h.ofRecord i name count element values hb)
    | ofArray name subs values =>
      exact (exists_code_ofArray_iff hr).mpr (h.ofArray i name subs values hb)

theorem accepted_drive : drive.Accepted :=
  (generate_accepts_iff isBuilt_drive "Drive.h" .empty {}).mp
    (exists_eq_ok_of_isOk (by decide +kernel))

end Dictionary
end CanopenTables
