import CanopenTables.Proofs.Declarators
import CanopenTables.Proofs.TableRows

/-!
# Rows and the storage behind them

A row of a subindex table tells the stack how to read and write a variable: through which type, and
how many bytes.  The type is resolved twice, once where the variable is declared and once for the
row, and not always for the same values.

* **The values do not matter** to the storage, to the kind and to whether there is a size
  (`Resolver.alike_of_answer`); they matter to the size of strings and domains alone.
* **Where a size column counts bytes**, row and variable of a scalar or an array are resolved for
  the same single value, so the declared array has room for it (`Resolver.KnowsRanges.exists_size`).

Main statement: `rows_match_storage`.
-/

namespace CanopenTables

/-! ### One type name, different values -/

/-- What a family takes from the values at hand is a size, if it has one. -/
theorem Family.resolve_alike (family : Family) (n longest longest' : Nat) :
    (family.resolve n longest).storage = (family.resolve n longest').storage ∧
      (family.resolve n longest).kind = (family.resolve n longest').kind ∧
      (family.resolve n longest).size.isSome = (family.resolve n longest').size.isSome := by
  cases family with
  | unsigned width => exact ⟨rfl, rfl, rfl⟩
  | integer width => exact ⟨rfl, rfl, rfl⟩
  | real width => exact ⟨rfl, rfl, rfl⟩
  | string declared => exact ⟨rfl, rfl, rfl⟩
  | domain => exact ⟨rfl, rfl, rfl⟩
  | boolean => exact ⟨rfl, rfl, rfl⟩

namespace Resolver

variable {r : Resolver} {n : Nat} {name : String} {candidates candidates' : List Value}
  {type type' : ResolvedType}

/-- Two answers to one name differ in the number of elements at most. -/
theorem alike_of_answer (h : r.answer name candidates = .ok type)
    (h' : r.answer name candidates' = .ok type') :
    type.storage = type'.storage ∧ type.kind = type'.kind ∧
      type.size.isSome = type'.size.isSome := by
  cases hr : r.known.lookup name with
  | some known =>
    rw [answer_of_lookup_eq_some hr] at h h'
    cases h
    cases h'
    exact ⟨rfl, rfl, rfl⟩
  | none =>
    rw [answer_of_lookup_eq_none hr, answer_new] at h h'
    cases hc : Family.classify name with
    | none =>
      rw [hc] at h
      cases h
    | some family =>
      rw [hc] at h h'
      cases h
      cases h'
      exact family.resolve_alike _ _ _

/-- A string or a domain has a size, and there is room for all candidates: a string is also as
large as the default size, and a domain is no larger than its longest candidate. -/
theorem KnowsRanges.exists_size {names : List String} (hr : r.KnowsRanges n names)
    (h : r.answer name candidates = .ok type) (hkind : type.kind.isByteSequence = true) :
    ∃ size, type.size = some size ∧ longestBytes candidates ≤ size ∧
      (type.kind = .visibleString → n ≤ size) ∧
      (type.kind = .domain → size = longestBytes candidates) := by
  by_cases hname : name ∈ names
  · obtain ⟨range, id, hrange, hanswer⟩ := hr.range name hname
    rw [hanswer] at h
    cases h
    rw [hrange] at hkind
    cases hkind
  · rw [hr.other name hname, answer_new] at h
    cases hc : Family.classify name with
    | none =>
      rw [hc] at h
      cases h
    | some family =>
      rw [hc] at h
      cases h
      cases family with
      | string declared =>
        refine ⟨_, rfl, ?_, fun _ => ?_, fun hdomain => nomatch hdomain⟩
        · exact Nat.le_trans (Nat.le_max_right n _) (Nat.le_max_left _ _)
        · exact Nat.le_trans (Nat.le_max_left n _) (Nat.le_max_left _ _)
      | domain => exact ⟨_, rfl, Nat.le_refl _, fun htext => (nomatch htext), fun _ => rfl⟩
      | unsigned width => cases hkind
      | integer width => cases hkind
      | real width => cases hkind
      | boolean => cases hkind

end Resolver

/-! ### A row and its variable -/

/-- The form in which an entry is laid out. -/
def Dictionary.shape? (d : Dictionary) (i : Index) : Option Shape := (d.get? i).map Entry.shape

/-- A row and a variable belong together: the row points at the variable and says how it is
stored. -/
structure Row.Describes (row : Row) (d : Dictionary) (x : Index) (k : Nat) (v : Declarator) :
    Prop where
  /-- A row of an entry guards a leading digit, which only the name of the node can bring in. -/
  target : row.target = if d.contains x then Text.guardDigit v.name else v.name
  exact : Text.beginsWithDigit d.node.name = false → row.target = v.name
  storage : v.storage = row.type.storage
  pointer : v.pointer = true ↔
    d.shape? x = some .record ∧ 1 ≤ k ∧ row.type.size.isSome = true
  /-- Numbers, truth values and ranges take the bytes of the storage type. -/
  sizeOf : row.type.kind.isByteSequence = false → row.size = .sizeOf v.storage
  /-- For strings and domains there are at least as many bytes as the row says, and the row says at
  least as many as the value has. -/
  bytes : row.type.kind.isByteSequence = true →
    d.shape? x = some .scalar ∨ d.shape? x = some .array →
      ∃ value stored shown declared, d.value? x (UInt8.ofNat k) = some value ∧
        value.byteLength? = some stored ∧ row.size = .bytes shown ∧ v.extent = .fixed declared ∧
        stored ≤ shown ∧ shown ≤ declared ∧
        (row.type.kind = .domain → stored = shown ∧ shown = declared)

namespace Site

variable {s : Site} {r : Resolver} {c : ShapeCode}

theorem byteLength?_of_laidOut (h : s.LaidOut r c) (hshape : s.entry.shape ≠ .scalar)
    (hindex : s.index ≠ Profile.predefinedErrorField) {value : Value}
    (hvalue : s.entry.object.values[0]? = some value) : value.byteLength? = none := by
  have hcount {values : List Value} {n : Nat} (hobject : s.entry.object = .sequence values)
      (hn : s.highestValue values = .ok n) : value.byteLength? = none := by
    unfold highestValue at hn
    rw [if_neg hindex] at hn
    obtain ⟨m, hm, -⟩ := count_eq_ok_iff.mp hn
    rw [hobject, ← List.head?_eq_getElem?] at hvalue
    have hfirst : values.head? = some value := hvalue
    rw [hfirst] at hm
    exact Value.byteLength?_of_toUInt64? (Option.isSome_iff_exists.mpr ⟨m, hm⟩)
  cases h with
  | scalar hobject => exact absurd (Entry.shape_of_single hobject) hshape
  | record hobject _ _ _ hhighest => exact hcount hobject hhighest
  | array hobject _ _ _ hhighest => exact hcount hobject hhighest

/-- A variable is declared as its row asks for it, although row and variable may have been resolved
for different values. -/
theorem Backs.alike {k : Nat} {v : Declarator} {sub : SubEntry}
    {candidates candidates' : List Value} {type declared : ResolvedType}
    (hbacks : s.Backs r k v sub candidates type)
    (hdeclared : (s.resolve sub candidates').value r = .ok declared) :
    v.storage = declared.storage ∧
      (v.pointer = true ↔
        s.entry.shape = .record ∧ 1 ≤ k ∧ declared.size.isSome = true) := by
  obtain ⟨name, hname, hanswer⟩ := resolve_value_eq_ok_iff.mp hbacks.resolve
  obtain ⟨name', hname', hanswer'⟩ := resolve_value_eq_ok_iff.mp hdeclared
  obtain rfl : name = name' := Option.some.inj (hname.symm.trans hname')
  obtain ⟨hstorage, -, hsome⟩ := Resolver.alike_of_answer hanswer hanswer'
  rw [hbacks.storage, hbacks.pointer, hstorage, hsome]
  exact ⟨rfl, Iff.rfl⟩

/-- A size in bytes comes from the bytes of the value. -/
theorem exists_stored_of_sizeColumn {type : ResolvedType} {value : Value} {k : SubIndex}
    {size : SizeColumn} (hkind : type.kind.isByteSequence = true)
    (h : s.sizeColumn type value k = .ok size) :
    ∃ stored, value.byteLength? = some stored ∧
      size = .bytes (if type.kind = .visibleString then
        max stored s.dictionary.node.defaultStringSize else stored) := by
  unfold sizeColumn at h
  rw [hkind, if_pos rfl] at h
  cases hstored : value.byteLength? with
  | none =>
    rw [hstored] at h
    cases h
  | some stored =>
    rw [hstored] at h
    exact ⟨stored, rfl, (Except.ok.inj h).symm⟩

/-- A type that has been resolved for a value has room for the bytes that the size column of the
value shows, and for a domain no more than that. -/
theorem exists_sizes
    (hr : r.KnowsRanges s.dictionary.node.defaultStringSize s.dictionary.rangeNames)
    {name : String} {value : Value} {type : ResolvedType} {k : SubIndex} {size : SizeColumn}
    (hanswer : r.answer name [value] = .ok type) (hkind : type.kind.isByteSequence = true)
    (hsize : s.sizeColumn type value k = .ok size) :
    ∃ stored shown declared, value.byteLength? = some stored ∧ size = .bytes shown ∧
      type.size = some declared ∧ stored ≤ shown ∧ shown ≤ declared ∧
      (type.kind = .domain → stored = shown ∧ shown = declared) := by
  obtain ⟨stored, hstored, rfl⟩ := exists_stored_of_sizeColumn hkind hsize
  obtain ⟨declared, hdeclared, hle, htext, hdomain⟩ := hr.exists_size hanswer hkind
  rw [longestBytes_singleton hstored] at hle hdomain
  refine ⟨stored, _, declared, hstored, rfl, hdeclared, ?_, ?_, fun hkind' => ?_⟩
  · split
    · exact Nat.le_max_left _ _
    · exact Nat.le_refl _
  · split
    · rename_i hvisible
      exact Nat.max_le.mpr ⟨hle, htext hvisible⟩
    · exact hle
  · rw [hdomain hkind', hkind', if_neg (by decide)]
    exact ⟨rfl, rfl⟩

/-- A scalar and the members of an array are resolved for their own values, in their rows as in
their variables, so the variable has room for what the row shows. -/
theorem exists_extent_of_backs (hbuilt : s.entry.IsBuilt) (hshape : s.LaidOut r c)
    (hr : r.KnowsRanges s.dictionary.node.defaultStringSize s.dictionary.rangeNames) {k : Nat}
    (hcount : ¬ (s.index = Profile.predefinedErrorField ∧ k = 0)) {v : Declarator}
    {sub : SubEntry} {candidates : List Value} {type declared : ResolvedType} {value : Value}
    {size : SizeColumn} (hbacks : s.Backs r k v sub candidates type)
    (hvalue : s.entry.object.values[k]? = some value)
    (hdeclared : (s.resolve sub (s.rowCandidates s.entry.object.values value)).value r =
      .ok declared)
    (hsize : s.sizeColumn declared value (UInt8.ofNat k) = .ok size)
    (hkind : declared.kind.isByteSequence = true)
    (hsort : s.entry.shape = .scalar ∨ s.entry.shape = .array) :
    ∃ stored shown length, value.byteLength? = some stored ∧ size = .bytes shown ∧
      v.extent = .fixed length ∧ stored ≤ shown ∧ shown ≤ length ∧
      (declared.kind = .domain → stored = shown ∧ shown = length) := by
  have hcandidates : s.rowCandidates s.entry.object.values value = [value] := by
    have hrecord : s.entry.shape ≠ .record := by
      intro hrecord
      rw [hrecord] at hsort
      simp at hsort
    unfold rowCandidates
    rw [hbuilt.hasIdenticalSubs_of_shape hrecord, if_neg Bool.false_ne_true]
  rw [hcandidates] at hdeclared
  obtain ⟨name, -, hanswer⟩ := resolve_value_eq_ok_iff.mp hdeclared
  obtain ⟨stored, shown, length, hstored, hshown, hlength, hle⟩ :=
    exists_sizes hr hanswer hkind hsize
  have hsingle : s.entry.shape = .scalar ∨ (s.entry.shape = .array ∧ 1 ≤ k) := by
    refine hsort.imp_right fun harray => ⟨harray, Nat.one_le_iff_ne_zero.mpr fun hzero => ?_⟩
    -- what counts the members of an array would be shown with bytes that it does not have
    subst hzero
    rw [byteLength?_of_laidOut hshape (by simp [harray]) (by simpa using hcount) hvalue] at hstored
    cases hstored
  obtain ⟨value', hvalue', rfl, hextent⟩ := hbacks.single hsingle
  obtain rfl : value = value' := Option.some.inj (hvalue.symm.trans hvalue')
  obtain rfl : type = declared := Except.ok.inj (hbacks.resolve.symm.trans hdeclared)
  rw [hlength] at hextent
  exact ⟨stored, shown, length, hstored, hshown, hextent, hle⟩

section describes

variable {d : Dictionary} {code : EntryCode} (hs : s ∈ d.sites) (hbuilt : s.entry.IsBuilt)
  (hcode : s.code.value r = .ok code)

include hbuilt hcode

theorem length_declarators_of_code : code.shape.declarators.length = code.rows.length := by
  rw [← List.length_map Declarator.name, ShapeCode.map_name_declarators,
    ← List.length_map Row.target, targets_of_code hbuilt hcode, List.length_map]

theorem target_eq_of_declarators {k : Nat} {row : Row} {v : Declarator}
    (hrow : code.rows[k]? = some row) (hv : code.shape.declarators[k]? = some v) :
    row.target = Text.guardDigit v.name := by
  have htargets := targets_of_code hbuilt hcode
  rw [← ShapeCode.map_name_declarators, List.map_map] at htargets
  have hat := congrArg (fun targets => targets[k]?) htargets
  simp only [List.getElem?_map, hrow, hv, Option.map_some] at hat
  exact Option.some.inj hat

theorem exists_declarator_of_row {k : Nat} {row : Row} (hrow : code.rows[k]? = some row) :
    ∃ v sub candidates type, code.shape.declarators[k]? = some v ∧
      s.Backs r k v sub candidates type := by
  have hshape := laidOut_of_code hcode
  have hbytes : code.shape.declarators.length ≤ 256 := by
    rw [length_declarators_of_laidOut hshape (size_of_code hcode).1]
    exact (size_of_code hcode).2
  have hk : k < code.rows.length := (List.getElem?_eq_some_iff.mp hrow).1
  rw [← length_declarators_of_code hbuilt hcode] at hk
  have hv := List.getElem?_eq_getElem hk
  obtain ⟨sub, candidates, type, hbacks⟩ := exists_backs_of_laidOut hbuilt hshape hbytes hv
  exact ⟨_, sub, candidates, type, hv, hbacks⟩

include hs

theorem exists_describes (hr : r.KnowsRanges d.node.defaultStringSize d.rangeNames) {k : Nat}
    {row : Row} (hrow : code.rows[k]? = some row)
    (hcount : ¬ (s.index = Profile.predefinedErrorField ∧ k = 0)) :
    ∃ v, code.shape.declarators[k]? = some v ∧ row.Describes d s.index k v := by
  obtain ⟨rfl, -, hget⟩ := Dictionary.mem_sites_iff.mp hs
  have hentry : s.dictionary.shape? s.index = some s.entry.shape := by
    rw [Dictionary.shape?, hget, Option.map_some]
  have hshape := laidOut_of_code hcode
  obtain ⟨value, sub, declared, hvalue, hlt, hsub, hdeclared, htype, hsize⟩ :=
    exists_of_getElem?_rows hcode hrow
  rw [rowType_eq_declared hlt hcount] at htype
  subst htype
  obtain ⟨v, sub', candidates, type, hv, hbacks⟩ := exists_declarator_of_row hbuilt hcode hrow
  have htarget := target_eq_of_declarators hbuilt hcode hrow hv
  obtain rfl : sub' = sub := Except.ok.inj (hbacks.subEntry.symm.trans hsub)
  obtain ⟨hstorage, hpointer⟩ := hbacks.alike hdeclared
  refine ⟨v, hv, ?_, fun hnode => ?_, ?_, ?_, fun hkind => ?_, fun hkind hsort => ?_⟩
  · rw [Dictionary.contains, AscendingMap.contains,
      show s.dictionary.entries.get? s.index = _ from hget]
    exact htarget
  · rw [htarget]
    apply guardDigit_names_of_laidOut hshape hnode
    rw [← ShapeCode.map_name_declarators]
    exact List.mem_map_of_mem (List.mem_of_getElem? hv)
  · exact hstorage
  · rw [hpointer, hentry, Option.some.injEq]
  · rw [size_eq_of_sizeColumn hkind hsize, hstorage]
  · rw [hentry, Option.some.injEq, Option.some.injEq] at hsort
    obtain ⟨stored, shown, length, hstored⟩ :=
      exists_extent_of_backs hbuilt hshape hr hcount hbacks hvalue hdeclared hsize hkind hsort
    refine ⟨value, stored, shown, length, ?_, hstored⟩
    rw [Dictionary.value?, hget]
    show s.entry.object.values[(UInt8.ofNat k).toNat]? = _
    rw [UInt8.toNat_ofNat_of_lt' hlt, hvalue]

end describes

end Site

/-! ### All rows of a document -/

theorem EntryCode.filter_definitions {codes : List EntryCode}
    (h : ∀ c ∈ codes, ∀ m ∈ c.shape.definitions, m.address.index = c.index) (x : Index) :
    ((codes.flatMap (·.shape.definitions)).filter fun m => m.address.index = x) =
      (codes.filter fun c => c.index = x).flatMap (·.shape.definitions) := by
  induction codes with
  | nil => rfl
  | cons c codes ih =>
    obtain ⟨hc, hcodes⟩ := List.forall_mem_cons.mp h
    rw [List.flatMap_cons, List.filter_append, ih hcodes]
    by_cases hx : c.index = x
    · have hall : (c.shape.definitions.filter fun m => m.address.index = x) =
          c.shape.definitions := by
        rw [List.filter_eq_self]
        intro m hm
        rw [hc m hm, hx, decide_eq_true rfl]
      rw [hall, List.filter_cons_of_pos (by simp [hx]), List.flatMap_cons]
    · have hnone : (c.shape.definitions.filter fun m => m.address.index = x) = [] := by
        rw [List.filter_eq_nil_iff]
        intro m hm
        rw [hc m hm, decide_eq_true_iff]
        exact hx
      rw [hnone, List.filter_cons_of_neg (by simp [hx]), List.nil_append]

namespace Dictionary

variable {d : Dictionary} {headerName : String} {aliases : PointerAliases} {config : Config}

section documents

variable {r : Resolver} {codes : List EntryCode} {ranges : List RangeType} {fallbacks : List Block}
  {timers : Nat} {source : SourceDocument} (hcodes : d.entryCodes.value r = .ok codes)
  (hsource : source = (d.documentsOf headerName aliases config ranges codes fallbacks timers).1)

include hcodes

theorem index_of_definitions :
    ∀ c ∈ codes, ∀ m ∈ c.shape.definitions, m.address.index = c.index := by
  intro c hc m hm
  obtain ⟨s, -, hcode⟩ := exists_site_of_mem_codes hcodes hc
  have haddress : m.address ∈ c.shape.definitions.map MappedDefinition.address :=
    List.mem_map_of_mem hm
  rw [Site.addresses_of_laidOut (Site.laidOut_of_code hcode)] at haddress
  rw [Site.index_of_code hcode]
  split at haddress
  · obtain ⟨k, -, hk⟩ := List.mem_map.mp haddress
    rw [← hk]
  · cases haddress

include hsource

theorem declaratorsAt_of_mem_codes {c : EntryCode} (hc : c ∈ codes)
    (hblock : source.blocks.get? c.index = some c.block) :
    source.declaratorsAt c.index = c.shape.declarators := by
  have hsingle : (codes.filter fun b => b.index = c.index) = [c] :=
    filter_eq_singleton_of_nodup (nodup_map_index_of_entryCodes hcodes) hc
  unfold SourceDocument.declaratorsAt
  rw [hblock, definitions_documentsOf hsource,
    EntryCode.filter_definitions (index_of_definitions hcodes), hsingle, List.flatMap_singleton]
  exact c.declarators_block

theorem declaratorsAt_of_not_contains {x : Index} (hx : d.contains x = false) {b : Block}
    (hblock : source.blocks.get? x = some b) :
    source.declaratorsAt x = b.items.flatMap BlockItem.declarators := by
  have hnone : (codes.filter fun b => b.index = x) = [] := by
    rw [List.filter_eq_nil_iff]
    intro c hc heq
    rw [← of_decide_eq_true heq, contains_of_mem_entryCodes hcodes hc] at hx
    cases hx
  unfold SourceDocument.declaratorsAt
  rw [hblock, definitions_documentsOf hsource,
    EntryCode.filter_definitions (index_of_definitions hcodes), hnone, List.flatMap_nil,
    List.flatMap_nil, List.append_nil]
  rfl

end documents

/-- The fallback of the error field has two variables, and its second row describes the second. -/
theorem describes_errorField {x : Index} (hx : d.contains x = false) :
    ∃ count field,
      (Fallback.errorFieldItems d.node.name).flatMap BlockItem.declarators = [count, field] ∧
      ∀ row, (Fallback.errorFieldRows d.node.name)[1]? = some row → row.Describes d x 1 field := by
  refine ⟨_, _, rfl, fun row hrow => ?_⟩
  cases hrow
  refine ⟨?_, fun _ => rfl, rfl, ?_, fun _ => rfl, fun hkind => nomatch hkind⟩
  · rw [hx]
    rfl
  · simp

/-- **Rows and storage.**  In the documents of a dictionary of built entries each row of a subindex
table describes the variable that the entry declares for the subindex: the row points at it, and
they have one storage type.  Only the elements of a record whose type has a size are pointers.
Numbers, truth values and ranges are as large as the storage type.  Of the string or domain in a
scalar or an array no more bytes are shown than declared, and no fewer than are stored; all three
are the same for a domain.  The count of the error field has a type of its own.  Rows and variables
stand in the text. -/
theorem rows_match_storage (hbuilt : d.IsBuilt) {files : DocumentPair}
    (h : (d.generate headerName aliases config).outcome = .ok files) :
    ∃ source header,
      (d.documents headerName aliases config).outcome = .ok (source, header) ∧
      files = ⟨source.text, header.text⟩ ∧
      ∀ x rows, source.HasRows x rows →
        (∃ name, source.PrintsAt x (BlockItem.table name rows).spelled) ∧
        (∀ v ∈ source.declaratorsAt x, Declares source.text v) ∧
        (source.declaratorsAt x).length = rows.length ∧
        ∀ k row, rows[k]? = some row → ¬ (x = Profile.predefinedErrorField ∧ k = 0) →
          ∃ v, (source.declaratorsAt x)[k]? = some v ∧ row.Describes d x k v := by
  obtain ⟨source, header, ranges, r, codes, fallbacks, timers, hdocuments, hfiles, hranges, hcodes,
    hfallbacks, hsource⟩ := exists_stages_of_generate h
  have hr := knowsRanges_of_rangeTypes hranges
  refine ⟨source, header, hdocuments, hfiles, fun x rows hrows => ⟨hrows.printsAt,
    fun v hv => SourceDocument.declares_of_mem_declaratorsAt hv, ?_⟩⟩
  rcases hasRows_cases hcodes hfallbacks hsource hrows with
    ⟨s, hs, c, hc, rfl, hcode, hblock, rfl⟩ | ⟨rfl, hx, rfl, b, hblock, hitems⟩
  · have hentry := hbuilt.entry_of_mem_sites hs
    rw [← Site.index_of_code hcode] at hblock
    rw [← Site.index_of_code hcode, declaratorsAt_of_mem_codes hcodes hsource hc hblock,
      Site.index_of_code hcode]
    exact ⟨Site.length_declarators_of_code hentry hcode, fun k row hrow hcount =>
      Site.exists_describes hs hentry hcode hr hrow hcount⟩
  · obtain ⟨count, field, hitems', hfield⟩ := describes_errorField hx
    rw [declaratorsAt_of_not_contains hcodes hsource hx hblock, hitems, hitems']
    refine ⟨rfl, fun k row hrow hcount => ?_⟩
    have hk : k < 2 := (List.getElem?_eq_some_iff.mp hrow).1
    obtain rfl : k = 1 := by
      have hne : k ≠ 0 := fun hzero => hcount ⟨rfl, hzero⟩
      omega
    exact ⟨field, rfl, hfield row hrow⟩

theorem rows_match_storage_drive :
    ∃ source header rows row v,
      (drive.documents "Drive.h" .empty {}).outcome = .ok (source, header) ∧
      source.HasRows 0x2002 rows ∧ rows[1]? = some row ∧ row.size = .bytes 10 ∧
      (source.declaratorsAt 0x2002)[1]? = some v ∧
      v = ⟨.unsigned 8, false, "Unit_Name", .fixed 10⟩ ∧ row.Describes drive 0x2002 1 v := by
  obtain ⟨files, source, header, h, hdocuments, hdrive⟩ := exists_documents_drive
  obtain ⟨source', header', hdocuments', -, hrows⟩ := rows_match_storage isBuilt_drive h
  cases hdocuments.symm.trans hdocuments'
  have htable := SourceDocument.hasRows_of_items hdrive.unit
    (List.mem_cons_of_mem _ List.mem_cons_self)
  have hdeclarators := SourceDocument.declaratorsAt_of_items hdrive.unit
  rw [hdrive.definitions] at hdeclarators
  obtain ⟨-, -, -, hdescribes⟩ := hrows 0x2002 _ htable
  obtain ⟨v, hv, hdescribes⟩ := hdescribes 1 _ rfl (by decide)
  have hv' : some _ = some v := (congrArg (fun vs => vs[1]?) hdeclarators).symm.trans hv
  obtain rfl := Option.some.inj hv'
  exact ⟨source, header, _, _, _, hdocuments, htable, rfl, rfl, hv, rfl, hdescribes⟩

end Dictionary
end CanopenTables
