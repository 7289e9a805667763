import CanopenTables.Proofs.MappedVariables

/-!
# Entries are emitted independently

All entries share one resolver and add to one emission, one after the other.  For each entry there
is a dictionary of its own, with the type area and this entry only.  Generating the entries together
comes to the same as generating each of these dictionaries with a resolver of its own and glueing
the results.

Three facts carry the proof.  The entries see a dictionary only through its node and the names of
its types, which a restriction to the type area and one entry keeps (`code_eq_of_types`); laying an
entry out leaves all answers of the resolver as they are; and the entries are walked through in
ascending order of their indexes.

Main statement: `emitted_composition`.
-/

namespace CanopenTables

namespace AscendingMap

variable {κ α : Type} [Ranked κ]

/-- The bindings whose keys satisfy a condition. -/
def filterKeys (p : κ → Bool) (m : AscendingMap κ α) : AscendingMap κ α :=
  ⟨m.toList.filter fun b => p b.1, m.ascending.filter _⟩

theorem get?_filterKeys_of_pos {p : κ → Bool} {k : κ} (hk : p k = true) (m : AscendingMap κ α) :
    (m.filterKeys p).get? k = m.get? k := by
  refine Option.ext fun a => ?_
  rw [get?_eq_some_iff, get?_eq_some_iff]
  simp [filterKeys, hk]

end AscendingMap

/-! ### Glueing emissions -/

namespace Emission

/-- An emission is glued from parts, one for each of some indexes: its lists are concatenations in
the order of the indexes, its maps are unions, and what is counted is added up. -/
structure Glues (whole : Emission) (indexes : List Index) (parts : Index → Emission) : Prop where
  definitions : whole.definitions = indexes.flatMap fun x => (parts x).definitions
  declarations : whole.declarations = indexes.flatMap fun x => (parts x).declarations
  pointers : whole.pointers = indexes.flatMap fun x => (parts x).pointers
  count : whole.definitions.length = (indexes.map fun x => (parts x).definitions.length).sum
  mappedCount : whole.mappedCount = (indexes.map fun x => (parts x).mappedCount).sum
  blocks : ∀ i b, whole.blocks.get? i = some b ↔
    ∃ x ∈ indexes, (parts x).blocks.get? i = some b
  callbacks : ∀ i a, whole.callbacks.get? i = some a ↔
    ∃ x ∈ indexes, (parts x).callbacks.get? i = some a
  /-- Only the part of an index has a block there. -/
  block_at : ∀ x ∈ indexes, whole.blocks.get? x = (parts x).blocks.get? x

variable {aliases : PointerAliases} {codes : List EntryCode}

theorem get?_ofList_codes {α : Type} (f : EntryCode → α)
    (hnodup : (codes.map EntryCode.index).Nodup) {i : Index} {a : α} :
    (AscendingMap.ofList (codes.map fun c => (c.index, f c))).get? i = some a ↔
      ∃ c ∈ codes, c.index = i ∧ f c = a := by
  have hkeys : (codes.map fun c => (c.index, f c)).map Prod.fst = codes.map EntryCode.index := by
    rw [List.map_map]
    rfl
  rw [AscendingMap.get?_ofList_eq_some_iff (hkeys ▸ hnodup), List.mem_map]
  simp only [Prod.mk.injEq]

section parts

variable {parts : Index → Emission}
  (hparts : ∀ c ∈ codes, parts c.index = ofCodes aliases [c])

include hparts

theorem concatenation_of_parts {α : Type} {f : EntryCode → List α} {g : Emission → List α}
    (hg : ∀ codes, g (ofCodes aliases codes) = codes.flatMap f) :
    g (ofCodes aliases codes) = (codes.map EntryCode.index).flatMap fun x => g (parts x) := by
  rw [hg, List.flatMap_map]
  refine List.flatMap_congr fun c hc => ?_
  rw [hparts c hc, hg, List.flatMap_singleton]

theorem sum_of_parts :
    (ofCodes aliases codes).mappedCount =
      ((codes.map EntryCode.index).map fun x => (parts x).mappedCount).sum := by
  rw [ofCodes_eq, List.map_map]
  refine congrArg List.sum (List.map_congr_left fun c hc => ?_)
  rw [Function.comp_apply, hparts c hc, ofCodes_eq]
  simp

theorem union_of_parts (hnodup : (codes.map EntryCode.index).Nodup) {α : Type} {f : EntryCode → α}
    {g : Emission → AscendingMap Index α}
    (hg : ∀ codes, g (ofCodes aliases codes) = .ofList (codes.map fun c => (c.index, f c)))
    (i : Index) (a : α) :
    (g (ofCodes aliases codes)).get? i = some a ↔
      ∃ x ∈ codes.map EntryCode.index, (g (parts x)).get? i = some a := by
  rw [hg, get?_ofList_codes f hnodup]
  simp only [List.mem_map, exists_exists_and_eq_and]
  refine exists_congr fun c => and_congr_right fun hc => ?_
  have hsingle : ([c].map EntryCode.index).Nodup := List.pairwise_singleton _ _
  rw [hparts c hc, hg, get?_ofList_codes f hsingle]
  simp

/-- The emission of entries with different indexes is glued from the emissions of the single
entries. -/
theorem glues_ofCodes (hnodup : (codes.map EntryCode.index).Nodup) :
    (ofCodes aliases codes).Glues (codes.map EntryCode.index) parts := by
  have hdefinitions := concatenation_of_parts hparts (g := definitions)
    fun codes => by rw [ofCodes_eq]
  have hblocks (codes : List EntryCode) : (ofCodes aliases codes).blocks =
      .ofList (codes.map fun c => (c.index, c.block)) := by rw [ofCodes_eq]
  refine
    { definitions := hdefinitions
      declarations := concatenation_of_parts hparts (g := declarations)
        fun codes => by rw [ofCodes_eq]
      pointers := concatenation_of_parts hparts (g := pointers) fun codes => by rw [ofCodes_eq]
      count := by rw [hdefinitions, List.length_flatMap]
      mappedCount := sum_of_parts hparts
      blocks := union_of_parts hparts hnodup hblocks
      callbacks := union_of_parts hparts hnodup (g := callbacks) fun codes => by rw [ofCodes_eq]
      block_at := fun x hx => ?_ }
  obtain ⟨c, hc, rfl⟩ := List.mem_map.mp hx
  have hwhole : (ofCodes aliases codes).blocks.get? c.index = some c.block := by
    rw [hblocks, get?_ofList_codes _ hnodup]
    exact ⟨c, hc, rfl, rfl⟩
  have hsingle : ([c].map EntryCode.index).Nodup := List.pairwise_singleton _ _
  rw [hwhole, hparts c hc, hblocks, eq_comm, get?_ofList_codes _ hsingle]
  exact ⟨c, List.mem_singleton_self c, rfl, rfl⟩

end parts

end Emission

/-! ### What an entry sees of its dictionary -/

namespace Dictionary

variable {d d' : Dictionary}

theorem entriesIn_congr {first last : Index}
    (h : ∀ i, first ≤ i → i ≤ last → d.get? i = d'.get? i) :
    d.entriesIn first last = d'.entriesIn first last := by
  refine AscendingMap.eq_of_mem_iff (d.entries.ascending.filter _) (d'.entries.ascending.filter _)
    fun ⟨i, e⟩ => ?_
  unfold entriesIn
  rw [List.mem_filter, List.mem_filter, ← AscendingMap.get?_eq_some_iff,
    ← AscendingMap.get?_eq_some_iff]
  refine and_congr_left fun hinterval => ?_
  obtain ⟨hfirst, hlast⟩ : first ≤ i ∧ i ≤ last := by simpa using hinterval
  have hget : d.entries.get? i = d'.entries.get? i := h i hfirst hlast
  rw [hget]

section typeArea

variable (harea : ∀ i, i ≤ Profile.typeAreaEnd → d.get? i = d'.get? i)

include harea

theorem typeName?_congr (code : UInt16) : d.typeName? code = d'.typeName? code := by
  unfold typeName?
  cases Profile.typeName? code with
  | some name => rfl
  | none =>
    dsimp only
    split
    · rename_i hcode
      rw [harea code (of_decide_eq_true hcode)]
    · rfl

theorem rangeEntries_congr : d.rangeEntries = d'.rangeEntries := by
  unfold rangeEntries
  rw [entriesIn_congr fun i _ hi => harea i hi]

end typeArea

end Dictionary

section types

variable {d d' : Dictionary} (hname : d.node.name = d'.node.name)
  (hstring : d.node.defaultStringSize = d'.node.defaultStringSize)
  (htypes : ∀ code, d.typeName? code = d'.typeName? code)

include htypes in
theorem Site.resolve_eq_of_types (i : Index) (e : Entry) :
    (⟨d, i, e⟩ : Site).resolve = (⟨d', i, e⟩ : Site).resolve := by
  funext sub candidates
  unfold resolve typeName
  rw [htypes]

include hname htypes

namespace Site

theorem shapeCode_eq_of_types (i : Index) (e : Entry) :
    (⟨d, i, e⟩ : Site).shapeCode = (⟨d', i, e⟩ : Site).shapeCode := by
  funext values
  unfold shapeCode scalarCode highestCode elementsCode recordCode arrayCode memberCode
  unfold scalarLayout recordLayout memberLayout node
  rw [resolve_eq_of_types htypes i e, hname]
  rfl

include hstring

theorem rows_eq_of_types (i : Index) (e : Entry) :
    (⟨d, i, e⟩ : Site).rows = (⟨d', i, e⟩ : Site).rows := by
  funext values
  unfold rows row sizeColumn targetName node
  rw [resolve_eq_of_types htypes i e, hname, hstring]
  rfl

/-- Two dictionaries with the same node name, the same default size of strings and the same names of
types give an entry the same code. -/
theorem code_eq_of_types (i : Index) (e : Entry) :
    (⟨d, i, e⟩ : Site).code = (⟨d', i, e⟩ : Site).code := by
  unfold code callbackArray node
  rw [shapeCode_eq_of_types hname htypes i e, rows_eq_of_types hname hstring htypes i e, hname]
  rfl

end Site

theorem Dictionary.rangeTypes_eq_of_types (hentries : d.rangeEntries = d'.rangeEntries) :
    d.rangeTypes = d'.rangeTypes := by
  unfold rangeTypes
  rw [hentries]
  congr 1
  funext ⟨⟨i, e⟩, number⟩
  simp only [rangeType, rangeBaseName, hname, htypes]

end types

namespace Dictionary

variable {d : Dictionary} {aliases : PointerAliases}

/-! ### Restricted dictionaries -/

/-- The dictionary with the entries of the type area and the entry at one index. -/
def restrictedTo (d : Dictionary) (x : Index) : Dictionary :=
  { d with entries := d.entries.filterKeys fun i => Profile.inTypeArea i || i == x }

theorem node_restrictedTo (d : Dictionary) (x : Index) : (d.restrictedTo x).node = d.node := rfl

theorem get?_restrictedTo_of_le (d : Dictionary) (x : Index) {i : Index}
    (hi : i ≤ Profile.typeAreaEnd) : (d.restrictedTo x).get? i = d.get? i :=
  AscendingMap.get?_filterKeys_of_pos (by simp [Profile.inTypeArea, hi]) d.entries

theorem typeName?_restrictedTo (d : Dictionary) (x : Index) (code : UInt16) :
    (d.restrictedTo x).typeName? code = d.typeName? code :=
  typeName?_congr (fun _ => d.get?_restrictedTo_of_le x) code

theorem rangeTypes_restrictedTo (d : Dictionary) (x : Index) :
    (d.restrictedTo x).rangeTypes = d.rangeTypes :=
  rangeTypes_eq_of_types (congrArg Node.name (d.node_restrictedTo x)) (d.typeName?_restrictedTo x)
    (rangeEntries_congr fun _ => d.get?_restrictedTo_of_le x)

theorem listedIndexes_eq_map_entriesIn (d : Dictionary) :
    d.listedIndexes = (d.entriesIn Profile.commAreaStart 0xFFFF).map Prod.fst := by
  unfold listedIndexes indexesIn indexes AscendingMap.keys entriesIn
  rw [List.filter_map]
  rfl

theorem listedIndexes_eq_map_sites (d : Dictionary) :
    d.listedIndexes = d.sites.map Site.index := by
  unfold sites
  rw [listedIndexes_eq_map_entriesIn, List.map_map]
  rfl

theorem sites_ascending (d : Dictionary) :
    d.sites.Pairwise fun s t => rank s.index < rank t.index := by
  unfold sites
  rw [List.pairwise_map]
  exact d.entries.ascending.filter _

/-- Above the type area only the chosen entry is left. -/
theorem entriesIn_restrictedTo {b : Index × Entry}
    (hb : b ∈ d.entriesIn Profile.commAreaStart 0xFFFF) :
    (d.restrictedTo b.1).entriesIn Profile.commAreaStart 0xFFFF = [b] := by
  obtain ⟨hlisted, hrange⟩ := List.mem_filter.mp hb
  refine AscendingMap.eq_of_mem_iff ((d.restrictedTo b.1).entries.ascending.filter _)
    (List.pairwise_singleton _ b) fun c => ?_
  rw [List.mem_singleton]
  constructor
  · intro hc
    obtain ⟨hc, hcrange⟩ := List.mem_filter.mp hc
    obtain ⟨hclisted, hckey⟩ := List.mem_filter.mp hc
    have hindex : c.1 = b.1 := by
      rcases Bool.or_eq_true_iff.mp hckey with harea | hindex
      · exfalso
        simp only [Profile.inTypeArea, Profile.typeAreaEnd, Profile.commAreaStart,
          Bool.and_eq_true, decide_eq_true_eq, UInt16.le_iff_toNat_le, UInt16.reduceToNat]
          at harea hcrange
        omega
      · exact beq_iff_eq.mp hindex
    have hget : d.entries.get? b.1 = some c.2 :=
      AscendingMap.get?_eq_some_iff.mpr (hindex ▸ hclisted)
    have hget' : d.entries.get? b.1 = some b.2 := AscendingMap.get?_eq_some_iff.mpr hlisted
    exact Prod.ext hindex (Option.some.inj (hget.symm.trans hget'))
  · rintro rfl
    exact List.mem_filter.mpr ⟨List.mem_filter.mpr ⟨hlisted, by simp⟩, hrange⟩

theorem entryCodes_value_restrictedTo {s : Site} (hs : s ∈ d.sites) (r : Resolver) :
    (d.restrictedTo s.index).entryCodes.value r = (fun c => [c]) <$> s.code.value r := by
  obtain ⟨⟨i, e⟩, hb, rfl⟩ := List.mem_map.mp hs
  have hcode : (⟨d.restrictedTo i, i, e⟩ : Site).code = (⟨d, i, e⟩ : Site).code :=
    Site.code_eq_of_types (congrArg Node.name (d.node_restrictedTo i))
      (congrArg Node.defaultStringSize (d.node_restrictedTo i)) (d.typeName?_restrictedTo i) i e
  have hsites : (d.restrictedTo i).sites = [⟨d.restrictedTo i, i, e⟩] := by
    unfold sites
    rw [entriesIn_restrictedTo hb]
    rfl
  show (d.restrictedTo i).entryCodes.value r = (fun c => [c]) <$> (⟨d, i, e⟩ : Site).code.value r
  rw [entryCodes_value, hsites, List.mapM_cons, hcode]
  cases (⟨d, i, e⟩ : Site).code.value r with
  | error e => rfl
  | ok c => rfl

/-! ### Emissions -/

/-- What the entries of a dictionary emit, with a resolver of their own. -/
def emitted (d : Dictionary) (aliases : PointerAliases) : Except GenerationError Emission :=
  (fun p => Emission.ofCodes aliases p.2) <$>
    d.rangesAndCodes.value (Resolver.new d.node.defaultStringSize)

section ranges

variable {ranges : List RangeType} {r : Resolver}
  (hranges : (d.rangeTypes.run (Resolver.new d.node.defaultStringSize)).outcome = .ok (ranges, r))

include hranges

theorem emitted_of_rangeTypes :
    d.emitted aliases = Emission.ofCodes aliases <$> d.entryCodes.value r := by
  unfold emitted
  rw [rangesAndCodes_value, hranges]
  show _ <$> ((ranges, ·) <$> d.entryCodes.value r) = _
  cases d.entryCodes.value r with
  | error e => rfl
  | ok codes => rfl

theorem emitted_restrictedTo {s : Site} (hs : s ∈ d.sites) :
    (d.restrictedTo s.index).emitted aliases =
      (fun c => Emission.ofCodes aliases [c]) <$> s.code.value r := by
  have hranges' : ((d.restrictedTo s.index).rangeTypes.run
      (Resolver.new (d.restrictedTo s.index).node.defaultStringSize)).outcome =
        .ok (ranges, r) := by
    rw [rangeTypes_restrictedTo]
    exact hranges
  rw [emitted_of_rangeTypes hranges', entryCodes_value_restrictedTo hs]
  cases s.code.value r with
  | error e => rfl
  | ok c => rfl

/-- The code of all entries, when each restriction emits something. -/
theorem exists_codes_of_parts {parts : Index → Emission}
    (hparts : ∀ x ∈ d.listedIndexes, (d.restrictedTo x).emitted aliases = .ok (parts x)) :
    ∃ codes, d.entryCodes.value r = .ok codes ∧
      codes.map EntryCode.index = d.listedIndexes ∧
      ∀ c ∈ codes, parts c.index = Emission.ofCodes aliases [c] := by
  have hsite : ∀ s ∈ d.sites, ∃ c, s.code.value r = .ok c ∧
      Emission.ofCodes aliases [c] = parts s.index := by
    intro s hs
    have hlisted : s.index ∈ d.listedIndexes := by
      rw [listedIndexes_eq_map_sites]
      exact List.mem_map_of_mem hs
    have hpart := hparts s.index hlisted
    rw [emitted_restrictedTo hranges hs, map_eq_ok_iff] at hpart
    exact hpart
  obtain ⟨codes, hcodes⟩ := exists_mapM_eq_ok_iff.mpr fun s hs => (hsite s hs).imp fun _ h => h.1
  rw [← entryCodes_value] at hcodes
  have hwalk := entryCodes_value_eq_ok_iff.mp hcodes
  refine ⟨codes, hcodes, ?_, fun c hc => ?_⟩
  · rw [listedIndexes_eq_map_sites]
    exact (map_eq_map_of_forall₂ hwalk fun s c hc => (Site.index_of_code hc).symm).symm
  · obtain ⟨s, hs, hcode⟩ := exists_mem_left_of_forall₂ hwalk hc
    obtain ⟨c', hc', hpart⟩ := hsite s hs
    obtain rfl : c = c' := Except.ok.inj (hcode.symm.trans hc')
    rw [Site.index_of_code hcode, hpart]

/-- The first entry that cannot be emitted ends the whole run with its error. -/
theorem emitted_eq_error_of_first {x : Index} (hx : x ∈ d.listedIndexes) {e : GenerationError}
    (herror : (d.restrictedTo x).emitted aliases = .error e)
    (hbelow : ∀ y ∈ d.listedIndexes, y < x →
      ∃ part, (d.restrictedTo y).emitted aliases = .ok part) :
    d.emitted aliases = .error e := by
  rw [listedIndexes_eq_map_sites] at hx
  obtain ⟨s, hs, rfl⟩ := List.mem_map.mp hx
  have hcode : s.code.value r = .error e := by
    rw [emitted_restrictedTo hranges hs] at herror
    cases hc : s.code.value r with
    | error e' =>
      rw [hc] at herror
      exact congrArg Except.error (Except.error.inj herror)
    | ok c =>
      rw [hc] at herror
      cases herror
  obtain ⟨before, after, hsplit⟩ := List.append_of_mem hs
  -- the sites before the failing one stand at smaller indexes
  have hbefore : ∀ t ∈ before, ∃ c, t.code.value r = .ok c := by
    intro t ht
    have hmem : t ∈ d.sites := hsplit ▸ List.mem_append_left _ ht
    have hlt : t.index < s.index := by
      have hascending := d.sites_ascending
      rw [hsplit, List.pairwise_append] at hascending
      exact hascending.2.2 t ht s List.mem_cons_self
    have hlisted : t.index ∈ d.listedIndexes := by
      rw [listedIndexes_eq_map_sites]
      exact List.mem_map_of_mem hmem
    obtain ⟨part, hpart⟩ := hbelow t.index hlisted hlt
    rw [emitted_restrictedTo hranges hmem, map_eq_ok_iff] at hpart
    obtain ⟨c, hc, -⟩ := hpart
    exact ⟨c, hc⟩
  rw [emitted_of_rangeTypes hranges, entryCodes_value, hsplit,
    mapM_eq_error_of_first hbefore hcode]
  rfl

end ranges

/-- **Composition.**  Let the ranges of a dictionary be worked out.  If each restriction to the type
area and one entry emits something, the dictionary emits what these parts make when they are glued
in ascending order.  If some restriction fails, the dictionary fails with the error of the
restriction at the smallest such index. -/
theorem emitted_composition
    (hranges : ∃ p, (d.rangeTypes.run (Resolver.new d.node.defaultStringSize)).outcome = .ok p) :
    (∀ parts : Index → Emission,
      (∀ x ∈ d.listedIndexes, (d.restrictedTo x).emitted aliases = .ok (parts x)) →
      ∃ whole, d.emitted aliases = .ok whole ∧ whole.Glues d.listedIndexes parts) ∧
    (∀ x ∈ d.listedIndexes, ∀ e, (d.restrictedTo x).emitted aliases = .error e →
      (∀ y ∈ d.listedIndexes, y < x → ∃ part, (d.restrictedTo y).emitted aliases = .ok part) →
      d.emitted aliases = .error e) := by
  obtain ⟨⟨ranges, r⟩, hranges⟩ := hranges
  refine ⟨fun parts hparts => ?_, fun x hx e herror hbelow =>
    emitted_eq_error_of_first hranges hx herror hbelow⟩
  obtain ⟨codes, hcodes, hindexes, hcodeparts⟩ := exists_codes_of_parts hranges hparts
  have hnodup : (codes.map EntryCode.index).Nodup := by
    rw [hindexes]
    refine (d.entries.keys_ascending.filter _).imp fun {i j} hij heq => ?_
    rw [heq] at hij
    exact Nat.lt_irrefl _ hij
  refine ⟨Emission.ofCodes aliases codes, ?_, ?_⟩
  · rw [emitted_of_rangeTypes hranges, hcodes]
    rfl
  · rw [← hindexes]
    exact Emission.glues_ofCodes hcodeparts hnodup

/-- A drive with two entries whose types have no definition. -/
def faultyDrive : Dictionary :=
  (drive.insert 0x2001 (.ofVariable "Limit" ⟨"Limit", 0x0261, .readWrite, false, false⟩
    (.unsigned 1))).insert 0x2002 (.ofVariable "Mode" ⟨"Mode", 0x0262, .readWrite, false, false⟩
      (.unsigned 1))

theorem emitted_composition_drive :
    (∃ parts : Index → Emission,
      (∀ x ∈ [0x1000, 0x2000, 0x2001, 0x2002],
        (drive.restrictedTo x).emitted .empty = .ok (parts x)) ∧
      ∃ whole, drive.emitted .empty = .ok whole ∧
        whole.Glues [0x1000, 0x2000, 0x2001, 0x2002] parts) ∧
    faultyDrive.emitted .empty = .error (.missingTypeDefinition 0x0261) := by
  constructor
  · have hlisted : drive.listedIndexes = [0x1000, 0x2000, 0x2001, 0x2002] := by decide
    have hranges := exists_eq_ok_of_isOk (by decide +kernel :
      (drive.rangeTypes.run (Resolver.new drive.node.defaultStringSize)).outcome.isOk = true)
    have hpart (x : Index) : ∃ part, x ∈ drive.listedIndexes →
        (drive.restrictedTo x).emitted .empty = .ok part := by
      by_cases hx : x ∈ drive.listedIndexes
      · refine (exists_eq_ok_of_isOk ?_).imp fun _ h _ => h
        simp only [hlisted, List.mem_cons, List.not_mem_nil, or_false] at hx
        rcases hx with rfl | rfl | rfl | rfl
        · decide +kernel
        · decide +kernel
        · decide +kernel
        · decide +kernel
      · exact ⟨.empty, fun h => absurd h hx⟩
    obtain ⟨parts, hparts⟩ := Classical.skolem.mp hpart
    rw [← hlisted]
    exact ⟨parts, hparts, (emitted_composition hranges).1 parts hparts⟩
  · have hlisted : faultyDrive.listedIndexes = [0x1000, 0x2000, 0x2001, 0x2002] := by decide
    have hranges := exists_eq_ok_of_isOk (by decide +kernel :
      (faultyDrive.rangeTypes.run
        (Resolver.new faultyDrive.node.defaultStringSize)).outcome.isOk = true)
    refine (emitted_composition hranges).2 0x2001 (by decide) _ rfl fun y hy hlt =>
      exists_eq_ok_of_isOk ?_
    simp only [hlisted, List.mem_cons, List.not_mem_nil, or_false] at hy
    rcases hy with rfl | rfl | rfl | rfl
    · decide +kernel
    · decide +kernel
    · exact absurd hlt (by decide)
    · exact absurd hlt (by decide)

end Dictionary
end CanopenTables
