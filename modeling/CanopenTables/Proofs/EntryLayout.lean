import CanopenTables.EntryCode
import CanopenTables.Proofs.Answers
import Mathlib.Algebra.GroupWithZero.Nat

/-!
# How an entry is laid out

Laying out an entry only asks the resolver for types, so each of its steps has a value that depends
on the answers alone.  For each step one equivalence says when it succeeds and with what: the
lookups it makes, the types it is given, the checks it passes, and the code that it then returns.
`code_value_eq_ok_iff` puts them together for a whole entry, and `entryCodes_value_eq_ok_iff` for
all entries of a dictionary.

`Site.LaidOut` is the outcome of these steps for the three shapes, one rule each; properties of the
generated code are proved by cases on it (`laidOut_of_shapeCode`).
-/

namespace CanopenTables

open Lowering (Asks LooksUp value_bind value_liftM_bind value_mapM)

/-- Code without a highest subindex is put behind code by appending its lists. -/
theorem ShapeCode.foldl_append (members : List ShapeCode)
    (h : ∀ member ∈ members, member.highest = none) (c : ShapeCode) :
    members.foldl append c =
      { highest := c.highest
        locals := c.locals ++ members.flatMap (·.locals)
        definitions := c.definitions ++ members.flatMap (·.definitions)
        declarations := c.declarations ++ members.flatMap (·.declarations)
        mappedCount := c.mappedCount + (members.map (·.mappedCount)).sum } := by
  induction members generalizing c with
  | nil => simp
  | cons member members ih =>
    obtain ⟨hmember, hmembers⟩ := List.forall_mem_cons.mp h
    rw [List.foldl_cons, ih hmembers]
    simp [append, hmember, Nat.add_assoc]

theorem EntryCode.table_mem_items_block (c : EntryCode) :
    .table c.table c.rows ∈ c.block.items :=
  List.mem_append_right _ List.mem_cons_self

/-! ### Built entries -/

/-- Entries whose structure flags agree with their values and descriptions. -/
inductive Entry.IsBuilt : Entry → Prop
  | ofVariable (name : String) (sub : SubEntry) (value : Value) :
    IsBuilt (.ofVariable name sub value)
  | ofRecord (name : String) (count element : SubEntry) (values : List Value) :
    IsBuilt (.ofRecord name count element values)
  | ofArray (name : String) (subs : List SubEntry) (values : List Value) :
    IsBuilt (.ofArray name subs values)

/-- The entries that are laid out have been built for a shape. -/
def Dictionary.IsBuilt (d : Dictionary) : Prop :=
  ∀ b ∈ d.entriesIn Profile.commAreaStart 0xFFFF, b.2.IsBuilt

theorem Dictionary.IsBuilt.entry_of_mem_sites {d : Dictionary} (h : d.IsBuilt) {s : Site}
    (hs : s ∈ d.sites) : s.entry.IsBuilt := by
  obtain ⟨b, hb, rfl⟩ := List.mem_map.mp hs
  exact h b hb

namespace Site

variable {s : Site} {r : Resolver}

/-! ### Lookups -/

theorem subEntry_eq_ok_iff {k : SubIndex} {sub : SubEntry} :
    s.subEntry k = .ok sub ↔ s.entry.sub? k = some sub := by
  unfold subEntry
  cases s.entry.sub? k with
  | none => simp
  | some sub => simp

theorem values_eq_ok_iff {values : List Value} :
    s.values = .ok values ↔
      s.entry.object.values = values ∧ values ≠ [] ∧ values.length ≤ 256 := by
  unfold Site.values
  dsimp only
  constructor
  · intro h
    split at h
    · cases h
    · rename_i hne
      split at h
      · cases h
      · rename_i hlen
        cases h
        exact ⟨rfl, hne, Nat.not_lt.mp hlen⟩
  · rintro ⟨rfl, hne, hlen⟩
    rw [if_neg hne, if_neg (Nat.not_lt.mpr hlen)]

theorem count_eq_ok_iff {values : List Value} {n : Nat} :
    s.count values = .ok n ↔ ∃ m, values.head?.bind Value.toUInt64? = some m ∧ m.toNat = n := by
  unfold count
  cases values.head?.bind Value.toUInt64? with
  | none => simp
  | some m => simp

theorem resolve_value_eq_ok_iff {sub : SubEntry} {candidates : List Value} {type : ResolvedType} :
    (s.resolve sub candidates).value r = .ok type ↔
      ∃ name, s.dictionary.typeName? sub.typeCode = some name ∧
        r.answer name candidates = .ok type := by
  unfold resolve
  rw [value_liftM_bind, bind_eq_ok_iff]
  refine exists_congr fun name => and_congr ?_ (by rw [Lowering.value_resolveFor])
  unfold typeName
  cases s.dictionary.typeName? sub.typeCode with
  | none => simp
  | some name => simp

/-! ### Steps that only look types up -/

theorem looksUp_resolve (s : Site) (sub : SubEntry) (candidates : List Value) :
    LooksUp (s.resolve sub candidates) :=
  .bind (.liftM _) fun name => .resolveFor name candidates

theorem looksUp_scalarCode (s : Site) (value : Value) : LooksUp (s.scalarCode value) :=
  .bind (.liftM _) fun sub => .bind (s.looksUp_resolve sub _) fun _ =>
    .ite (.fail _) (.bind (.liftM _) fun _ => .pure _)

theorem looksUp_highestCode (s : Site) (values : List Value) : LooksUp (s.highestCode values) :=
  .bind (.liftM _) fun sub => .bind (s.looksUp_resolve sub _) fun _ =>
    .bind (.liftM _) fun _ => .pure _

theorem looksUp_recordCode (s : Site) (values : List Value) : LooksUp (s.recordCode values) :=
  .bind (.liftM _) fun sub => .bind (s.looksUp_resolve sub _) fun _ =>
    .bind (.liftM _) fun _ => .bind (.mapM (fun _ => .liftM _) _) fun _ => .pure _

theorem looksUp_memberCode (s : Site) (value : Value) (k : SubIndex) :
    LooksUp (s.memberCode value k) :=
  .bind (.liftM _) fun sub => .bind (s.looksUp_resolve sub _) fun _ =>
    .bind (.liftM _) fun _ => .ite (.fail _) (.pure _)

theorem looksUp_arrayCode (s : Site) (values : List Value) : LooksUp (s.arrayCode values) :=
  .bind (.mapM (fun _ => s.looksUp_memberCode _ _) _) fun _ => .pure _

theorem looksUp_elementsCode (s : Site) (values : List Value) : LooksUp (s.elementsCode values) :=
  .ite (s.looksUp_recordCode values) (s.looksUp_arrayCode values)

theorem looksUp_shapeCode (s : Site) (values : List Value) : LooksUp (s.shapeCode values) := by
  unfold shapeCode
  cases s.entry.object with
  | single value => exact s.looksUp_scalarCode value
  | sequence _ =>
    exact .bind (s.looksUp_highestCode values) fun _ =>
      .bind (s.looksUp_elementsCode values) fun _ => .pure _

theorem looksUp_row (s : Site) (values : List Value) (value : Value) (k : SubIndex) :
    LooksUp (s.row values value k) :=
  .bind (.liftM _) fun sub => .bind (s.looksUp_resolve sub _) fun _ =>
    .bind (.liftM _) fun _ => .pure _

theorem looksUp_rows (s : Site) (values : List Value) : LooksUp (s.rows values) :=
  .mapM (fun _ => s.looksUp_row values _ _) _

theorem looksUp_code (s : Site) : LooksUp s.code :=
  .bind (.liftM _) fun values => .bind (s.looksUp_shapeCode values) fun _ =>
    .bind (s.looksUp_rows values) fun _ => .pure _

theorem asks_codeReported (s : Site) : Asks s.codeReported :=
  .bind (.report _) fun _ => s.looksUp_code.asks

/-! ### Shapes -/

theorem scalarCode_value_eq_ok_iff {value : Value} {c : ShapeCode} :
    (s.scalarCode value).value r = .ok c ↔
      ∃ sub, s.subEntry 0 = .ok sub ∧ ∃ type, (s.resolve sub [value]).value r = .ok type ∧
        ¬ (s.isMapped ∧ type.kind = .domain ∧ type.size = some 0) ∧
        ∃ literal, Literal.format type.kind value s.index 0 = .ok literal ∧
          s.scalarLayout sub type literal = c := by
  unfold scalarCode
  rw [value_liftM_bind, bind_eq_ok_iff]
  refine exists_congr fun sub => and_congr_right fun _ => ?_
  rw [value_bind (s.looksUp_resolve sub _).asks fun _ =>
    .ite (.fail _) (.bind (.liftM _) fun _ => .pure _), bind_eq_ok_iff]
  refine exists_congr fun type => and_congr_right fun _ => ?_
  split
  · rename_i hblank
    simp [hblank]
  · rename_i hblank
    rw [value_liftM_bind, bind_eq_ok_iff]
    simp [hblank]

theorem highestCode_value_eq_ok_iff {values : List Value} {c : ShapeCode} :
    (s.highestCode values).value r = .ok c ↔
      ∃ sub, s.subEntry 0 = .ok sub ∧ ∃ type, (s.resolve sub []).value r = .ok type ∧
        ∃ n, s.highestValue values = .ok n ∧
          { highest := some ⟨type.storage, Symbol.highestSubIndex s.node s.index, n⟩ } = c := by
  unfold highestCode
  rw [value_liftM_bind, bind_eq_ok_iff]
  refine exists_congr fun sub => and_congr_right fun _ => ?_
  rw [value_bind (s.looksUp_resolve sub _).asks fun _ => .bind (.liftM _) fun _ => .pure _,
    bind_eq_ok_iff]
  refine exists_congr fun type => and_congr_right fun _ => ?_
  rw [value_liftM_bind, bind_eq_ok_iff]
  simp

/-- An element of a record has a literal, and a domain at file scope has a byte. -/
theorem elementLiteral_eq_ok_iff {kind : Kind} {value : Value} {k : SubIndex}
    {literal : Literal} :
    s.elementLiteral kind value k = .ok literal ↔
      Literal.format kind value s.index k = .ok literal ∧
        ¬ (s.isMapped ∧ kind = .domain ∧ value.byteLength? = some 0) := by
  unfold elementLiteral
  rw [bind_eq_ok_iff]
  split
  · rename_i hblank
    simp [hblank]
  · rename_i hblank
    simp [hblank, pure_eq_ok_iff]

theorem recordCode_value_eq_ok_iff {values : List Value} {c : ShapeCode} :
    (s.recordCode values).value r = .ok c ↔
      ∃ sub, s.subEntry 1 = .ok sub ∧ ∃ type, (s.resolve sub values.tail).value r = .ok type ∧
        ∃ n, s.count values = .ok n ∧
          ∃ literals, List.Forall₂
              (fun (b : Value × Nat) literal =>
                s.elementLiteral type.kind b.1 (UInt8.ofNat b.2) = .ok literal)
              (values.tail.zipIdx 1) literals ∧
            s.recordLayout values type n literals = c := by
  unfold recordCode
  rw [value_liftM_bind, bind_eq_ok_iff]
  refine exists_congr fun sub => and_congr_right fun _ => ?_
  rw [value_bind (s.looksUp_resolve sub _).asks fun _ =>
    .bind (.liftM _) fun _ => .bind (.mapM (fun _ => .liftM _) _) fun _ => .pure _,
    bind_eq_ok_iff]
  refine exists_congr fun type => and_congr_right fun _ => ?_
  rw [value_liftM_bind, bind_eq_ok_iff]
  refine exists_congr fun n => and_congr_right fun _ => ?_
  rw [value_bind (.mapM (fun _ => .liftM _) _) fun _ => .pure _, bind_eq_ok_iff,
    value_mapM fun _ => .liftM _]
  simp [mapM_eq_ok_iff]

theorem memberCode_value_eq_ok_iff {value : Value} {k : SubIndex} {c : ShapeCode} :
    (s.memberCode value k).value r = .ok c ↔
      ∃ sub, s.subEntry k = .ok sub ∧ ∃ type, (s.resolve sub [value]).value r = .ok type ∧
        ∃ literal, Literal.format type.kind value s.index k = .ok literal ∧
          ¬ (s.isMapped ∧ type.kind = .domain ∧ type.size = some 0) ∧
          s.memberLayout k sub type literal = c := by
  unfold memberCode
  rw [value_liftM_bind, bind_eq_ok_iff]
  refine exists_congr fun sub => and_congr_right fun _ => ?_
  rw [value_bind (s.looksUp_resolve sub _).asks fun _ =>
    .bind (.liftM _) fun _ => .ite (.fail _) (.pure _), bind_eq_ok_iff]
  refine exists_congr fun type => and_congr_right fun _ => ?_
  rw [value_liftM_bind, bind_eq_ok_iff]
  refine exists_congr fun literal => and_congr_right fun _ => ?_
  split
  · rename_i hblank
    simp [hblank]
  · rename_i hblank
    simp [hblank]

/-- Each member of an array is laid out for a subindex of the entry. -/
theorem exists_memberLayout_of_mem {values : List (Value × Nat)} {members : List ShapeCode}
    (h : List.Forall₂
      (fun (b : Value × Nat) member => (s.memberCode b.1 (UInt8.ofNat b.2)).value r = .ok member)
      values members) {member : ShapeCode} (hmember : member ∈ members) :
    ∃ k sub type literal, s.subEntry k = .ok sub ∧ member = s.memberLayout k sub type literal := by
  obtain ⟨b, -, hb⟩ := exists_mem_left_of_forall₂ h hmember
  obtain ⟨sub, hsub, type, -, literal, -, -, rfl⟩ := memberCode_value_eq_ok_iff.mp hb
  exact ⟨UInt8.ofNat b.2, sub, type, literal, hsub, rfl⟩

theorem arrayCode_value_eq_ok_iff {values : List Value} {c : ShapeCode} :
    (s.arrayCode values).value r = .ok c ↔
      ∃ members, List.Forall₂
          (fun (b : Value × Nat) member =>
            (s.memberCode b.1 (UInt8.ofNat b.2)).value r = .ok member)
          (values.tail.zipIdx 1) members ∧
        members.foldl ShapeCode.append {} = c := by
  unfold arrayCode
  rw [value_bind (.mapM (fun _ => (s.looksUp_memberCode _ _).asks) _) fun _ => .pure _,
    bind_eq_ok_iff, value_mapM fun _ => (s.looksUp_memberCode _ _).asks]
  simp [mapM_eq_ok_iff]

theorem shapeCode_of_single {value : Value} (h : s.entry.object = .single value)
    (values : List Value) : s.shapeCode values = s.scalarCode value := by
  unfold shapeCode
  rw [h]

/-- A sequence is a highest subindex, followed by the subindexes from 1 on. -/
theorem shapeCode_value_eq_ok_iff_of_sequence {vs : List Value} (h : s.entry.object = .sequence vs)
    {values : List Value} {c : ShapeCode} :
    (s.shapeCode values).value r = .ok c ↔
      ∃ highest, (s.highestCode values).value r = .ok highest ∧
        ∃ elements, (s.elementsCode values).value r = .ok elements ∧
          highest.append elements = c := by
  unfold shapeCode
  rw [h]
  show Lowering.value (s.highestCode values >>= fun highest => s.elementsCode values >>=
    fun elements => pure (highest.append elements)) r = .ok c ↔ _
  rw [value_bind (s.looksUp_highestCode values).asks fun _ =>
    .bind (s.looksUp_elementsCode values).asks fun _ => .pure _, bind_eq_ok_iff]
  refine exists_congr fun highest => and_congr_right fun _ => ?_
  rw [value_bind (s.looksUp_elementsCode values).asks fun _ => .pure _, bind_eq_ok_iff]
  simp

/-- The code of a sequence: the variable that holds the highest subindex, and the elements. -/
def sequenceLayout (s : Site) (storage : Storage) (n : Nat) (elements : ShapeCode) : ShapeCode :=
  ShapeCode.append { highest := some ⟨storage, Symbol.highestSubIndex s.node s.index, n⟩ } elements

/-- What the shape of an entry has become with the answers of a resolver. -/
inductive LaidOut (s : Site) (r : Resolver) : ShapeCode → Prop
  | scalar {value : Value} {sub : SubEntry} {type : ResolvedType} {literal : Literal}
      (hobject : s.entry.object = .single value)
      (hsub : s.subEntry 0 = .ok sub)
      (htype : (s.resolve sub [value]).value r = .ok type)
      (hblank : ¬ (s.isMapped ∧ type.kind = .domain ∧ type.size = some 0))
      (hliteral : Literal.format type.kind value s.index 0 = .ok literal) :
      LaidOut s r (s.scalarLayout sub type literal)
  | record {values : List Value} {count sub : SubEntry} {countType type : ResolvedType}
      {highest n : Nat} {literals : List Literal}
      (hobject : s.entry.object = .sequence values)
      (hidentical : s.entry.hasIdenticalSubs = true)
      (hcount : s.subEntry 0 = .ok count)
      (hcountType : (s.resolve count []).value r = .ok countType)
      (hhighest : s.highestValue values = .ok highest)
      (hsub : s.subEntry 1 = .ok sub)
      (htype : (s.resolve sub values.tail).value r = .ok type)
      (hn : s.count values = .ok n)
      (hliterals : List.Forall₂
        (fun (b : Value × Nat) literal =>
          s.elementLiteral type.kind b.1 (UInt8.ofNat b.2) = .ok literal)
        (values.tail.zipIdx 1) literals) :
      LaidOut s r (s.sequenceLayout countType.storage highest
        (s.recordLayout values type n literals))
  | array {values : List Value} {count : SubEntry} {countType : ResolvedType} {highest : Nat}
      {members : List ShapeCode}
      (hobject : s.entry.object = .sequence values)
      (hidentical : s.entry.hasIdenticalSubs = false)
      (hcount : s.subEntry 0 = .ok count)
      (hcountType : (s.resolve count []).value r = .ok countType)
      (hhighest : s.highestValue values = .ok highest)
      (hmembers : List.Forall₂
        (fun (b : Value × Nat) member =>
          (s.memberCode b.1 (UInt8.ofNat b.2)).value r = .ok member)
        (values.tail.zipIdx 1) members) :
      LaidOut s r (s.sequenceLayout countType.storage highest
        (members.foldl ShapeCode.append {}))

theorem laidOut_of_shapeCode {c : ShapeCode}
    (h : (s.shapeCode s.entry.object.values).value r = .ok c) : s.LaidOut r c := by
  cases hobject : s.entry.object with
  | single value =>
    rw [shapeCode_of_single hobject, scalarCode_value_eq_ok_iff] at h
    obtain ⟨sub, hsub, type, htype, hblank, literal, hliteral, rfl⟩ := h
    exact .scalar hobject hsub htype hblank hliteral
  | sequence values =>
    rw [shapeCode_value_eq_ok_iff_of_sequence hobject, hobject] at h
    obtain ⟨highest, hhighest, elements, helements, rfl⟩ := h
    obtain ⟨count, hcount, countType, hcountType, n, hn, rfl⟩ :=
      highestCode_value_eq_ok_iff.mp hhighest
    unfold elementsCode at helements
    split at helements
    · rename_i hidentical
      obtain ⟨sub, hsub, type, htype, n', hn', literals, hliterals, rfl⟩ :=
        recordCode_value_eq_ok_iff.mp helements
      exact .record hobject hidentical hcount hcountType hn hsub htype hn' hliterals
    · rename_i hidentical
      obtain ⟨members, hmembers, rfl⟩ := arrayCode_value_eq_ok_iff.mp helements
      exact .array hobject (Bool.eq_false_iff.mpr hidentical) hcount hcountType hn hmembers

/-! ### The subindex table and the whole entry -/

theorem row_value_eq_ok_iff {values : List Value} {value : Value} {k : SubIndex} {row : Row} :
    (s.row values value k).value r = .ok row ↔
      ∃ sub, s.subEntry k = .ok sub ∧
        ∃ declared, (s.resolve sub (s.rowCandidates values value)).value r = .ok declared ∧
          ∃ size, s.sizeColumn (s.rowType k declared) value k = .ok size ∧
            ⟨sub.access, sub.save, s.rowType k declared, size, s.targetName k sub⟩ = row := by
  unfold Site.row
  rw [value_liftM_bind, bind_eq_ok_iff]
  refine exists_congr fun sub => and_congr_right fun _ => ?_
  rw [value_bind (s.looksUp_resolve sub _).asks fun _ => .bind (.liftM _) fun _ => .pure _,
    bind_eq_ok_iff]
  refine exists_congr fun declared => and_congr_right fun _ => ?_
  rw [value_liftM_bind, bind_eq_ok_iff]
  simp

theorem rows_value_eq_ok_iff {values : List Value} {rows : List Row} :
    (s.rows values).value r = .ok rows ↔
      List.Forall₂
        (fun (b : Value × Nat) row =>
          (s.row values b.1 (UInt8.ofNat b.2)).value r = .ok row)
        values.zipIdx rows := by
  unfold Site.rows
  rw [value_mapM fun _ => (s.looksUp_row values _ _).asks, mapM_eq_ok_iff]

theorem code_value_eq_ok_iff {c : EntryCode} :
    s.code.value r = .ok c ↔
      ∃ values, s.values = .ok values ∧ ∃ shape, (s.shapeCode values).value r = .ok shape ∧
        ∃ rows, (s.rows values).value r = .ok rows ∧
          { index := s.index
            title := s.title
            shape := shape
            callbacks := s.callbackArray values.length
            table := Symbol.table s.node s.index
            rows := rows } = c := by
  unfold code
  rw [value_liftM_bind, bind_eq_ok_iff]
  refine exists_congr fun values => and_congr_right fun _ => ?_
  rw [value_bind (s.looksUp_shapeCode values).asks fun _ =>
    .bind (s.looksUp_rows values).asks fun _ => .pure _, bind_eq_ok_iff]
  refine exists_congr fun shape => and_congr_right fun _ => ?_
  rw [value_bind (s.looksUp_rows values).asks fun _ => .pure _, bind_eq_ok_iff]
  simp

theorem laidOut_of_code {c : EntryCode} (h : s.code.value r = .ok c) : s.LaidOut r c.shape := by
  obtain ⟨values, hvalues, shape, hshape, rows, -, rfl⟩ := code_value_eq_ok_iff.mp h
  obtain ⟨rfl, -⟩ := values_eq_ok_iff.mp hvalues
  exact laidOut_of_shapeCode hshape

/-- An entry that is laid out has a value, and no more of them than there are subindexes. -/
theorem size_of_code {c : EntryCode} (h : s.code.value r = .ok c) :
    s.entry.object.values ≠ [] ∧ s.entry.object.size ≤ 256 := by
  obtain ⟨values, hvalues, -⟩ := code_value_eq_ok_iff.mp h
  obtain ⟨rfl, hne, hsize⟩ := values_eq_ok_iff.mp hvalues
  exact ⟨hne, hsize⟩

theorem index_of_code {c : EntryCode} (h : s.code.value r = .ok c) : c.index = s.index := by
  obtain ⟨values, -, shape, -, rows, -, rfl⟩ := code_value_eq_ok_iff.mp h
  rfl

theorem length_rows_of_code {c : EntryCode} (h : s.code.value r = .ok c) :
    c.rows.length = s.entry.object.values.length := by
  obtain ⟨values, hvalues, shape, -, rows, hrows, rfl⟩ := code_value_eq_ok_iff.mp h
  obtain ⟨rfl, -⟩ := values_eq_ok_iff.mp hvalues
  rw [← (rows_value_eq_ok_iff.mp hrows).length_eq, List.length_zipIdx]

/-- What is reported about an entry does not matter to its code. -/
theorem codeReported_value (s : Site) (r : Resolver) : s.codeReported.value r = s.code.value r := by
  unfold codeReported
  rw [value_bind (.report _) fun _ => s.looksUp_code.asks, Lowering.value_report]
  rfl

end Site

namespace Dictionary

variable {d : Dictionary} {r : Resolver}

theorem entryCodes_value (d : Dictionary) (r : Resolver) :
    d.entryCodes.value r = d.sites.mapM fun s => s.code.value r := by
  unfold entryCodes
  rw [value_mapM fun s => s.asks_codeReported]
  simp only [Site.codeReported_value]

/-- The entries are laid out one by one, all with the answers of one resolver. -/
theorem entryCodes_value_eq_ok_iff {codes : List EntryCode} :
    d.entryCodes.value r = .ok codes ↔
      List.Forall₂ (fun s c => s.code.value r = .ok c) d.sites codes := by
  rw [entryCodes_value, mapM_eq_ok_iff]

section members

variable {codes : List EntryCode} (h : d.entryCodes.value r = .ok codes)

include h

theorem exists_code_of_mem_sites {s : Site} (hs : s ∈ d.sites) :
    ∃ c ∈ codes, s.code.value r = .ok c :=
  exists_mem_right_of_forall₂ (entryCodes_value_eq_ok_iff.mp h) hs

theorem exists_site_of_mem_codes {c : EntryCode} (hc : c ∈ codes) :
    ∃ s ∈ d.sites, s.code.value r = .ok c :=
  exists_mem_left_of_forall₂ (entryCodes_value_eq_ok_iff.mp h) hc

end members

end Dictionary
end CanopenTables
