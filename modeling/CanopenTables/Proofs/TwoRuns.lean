import CanopenTables.Proofs.Composition

/-!
# What a generation depends on

A run puts entries into a dictionary and generates the documents from it.  Two runs whose nodes
have the same name, identifier, role and default size of strings, and whose last entries are the
same at each index up to 0x0260 and from 0x1000 on, have the same result.  Nothing else has any
influence: neither the order of the insertions nor what they overwrote, neither the description of
the node nor the entries between the two areas.

* Where two dictionaries **agree** (`AgreesWhereRead`), each stage has the same outcome: every query
  is about an interval of indexes that lies within one of the areas, or about a single index there.
* A dictionary holds at each index what was **inserted last** (`get?_insertAll`), so that agreement
  can be read off the two histories.

Main statement: `run_outcome_eq`.
-/

namespace CanopenTables

namespace AscendingMap

variable {κ α : Type} [Ranked κ] [BEq κ] [LawfulBEq κ]

theorem get?_insertAll (m : AscendingMap κ α) (bindings : List (κ × α)) (k : κ) :
    (m.insertAll bindings).get? k = (bindings.reverse.lookup k).or (m.get? k) := by
  induction bindings generalizing m with
  | nil => rfl
  | cons b bindings ih =>
    have hlast : List.lookup k [b] = if rank k = rank b.1 then some b.2 else none := by
      rw [List.lookup_cons]
      by_cases hk : k = b.1
      · simp [hk]
      · have hrank : rank k ≠ rank b.1 := fun h => hk (Ranked.rank_injective h)
        simp [beq_eq_false_iff_ne.mpr hk, hrank]
    show ((m.insert b.1 b.2).insertAll bindings).get? k = _
    rw [ih, get?_insert, List.reverse_cons, List.lookup_append, Option.or_assoc, hlast]
    split
    · rfl
    · rfl

end AscendingMap

/-! ### The node -/

theorem Fallback.block_congr {node node' : Node} (hname : node.name = node'.name)
    (hid : node.id = node'.id) (i : Index) (name : String) :
    block node i name = block node' i name := by
  unfold block Fallback.items
  rw [hname, hid]

/-- The text of a source shows the name, the identifier and the role of its node. -/
theorem SourceDocument.text_congr (source : SourceDocument) {node : Node}
    (hname : source.node.name = node.name) (hid : source.node.id = node.id)
    (hrole : source.node.role = node.role) : { source with node := node }.text = source.text := by
  unfold text identityText timersText indexTableText scanText transmitText statusArray nodeDataText
  dsimp only
  rw [hname, hid, hrole]

namespace Dictionary

/-! ### Dictionaries that agree -/

/-- Two dictionaries agree where a generation reads them. -/
structure AgreesWhereRead (d d' : Dictionary) : Prop where
  name : d.node.name = d'.node.name
  id : d.node.id = d'.node.id
  role : d.node.role = d'.node.role
  defaultStringSize : d.node.defaultStringSize = d'.node.defaultStringSize
  /-- The entries of the type area, and those from the communication area on. -/
  get? : ∀ i, i ≤ 0x0260 ∨ 0x1000 ≤ i → d.get? i = d'.get? i

namespace AgreesWhereRead

variable {d d' : Dictionary} (h : d.AgreesWhereRead d')

include h

theorem get?_of_le_typeAreaEnd (i : Index) (hi : i ≤ Profile.typeAreaEnd) :
    d.get? i = d'.get? i :=
  h.get? i (Or.inl hi)

theorem get?_of_commAreaStart_le {i : Index} (hi : Profile.commAreaStart ≤ i) :
    d.get? i = d'.get? i :=
  h.get? i (Or.inr hi)

theorem listedEntries_eq :
    d.entriesIn Profile.commAreaStart 0xFFFF = d'.entriesIn Profile.commAreaStart 0xFFFF :=
  entriesIn_congr fun _ hi _ => h.get?_of_commAreaStart_le hi

theorem typeName?_eq (code : UInt16) : d.typeName? code = d'.typeName? code :=
  typeName?_congr h.get?_of_le_typeAreaEnd code

theorem rangeTypes_eq : d.rangeTypes = d'.rangeTypes :=
  rangeTypes_eq_of_types h.name h.typeName?_eq (rangeEntries_congr h.get?_of_le_typeAreaEnd)

theorem entryCodes_value_eq (r : Resolver) : d.entryCodes.value r = d'.entryCodes.value r := by
  rw [entryCodes_value, entryCodes_value]
  unfold sites
  rw [h.listedEntries_eq, List.mapM_map, List.mapM_map]
  refine mapM_congr fun ⟨i, e⟩ _ => ?_
  exact congrArg (Lowering.value · r)
    (Site.code_eq_of_types h.name h.defaultStringSize h.typeName?_eq i e)

theorem rangesAndCodes_value_eq (r : Resolver) :
    d.rangesAndCodes.value r = d'.rangesAndCodes.value r := by
  rw [rangesAndCodes_value, rangesAndCodes_value, h.rangeTypes_eq]
  simp only [h.entryCodes_value_eq]

theorem missingIndexes_eq : d.missingIndexes = d'.missingIndexes := by
  unfold missingIndexes
  refine List.filter_congr fun i hi => ?_
  have hget : d.entries.get? i = d'.entries.get? i :=
    h.get?_of_commAreaStart_le (Fallback.inCommArea_of_mem hi).1
  unfold definesInCommArea contains AscendingMap.contains
  rw [hget]

theorem fallbackBlocks_outcome_eq : d.fallbackBlocks.outcome = d'.fallbackBlocks.outcome := by
  unfold fallbackBlocks
  rw [Reported.outcome_mapM, Reported.outcome_mapM, h.missingIndexes_eq]
  refine mapM_congr fun i hi => ?_
  have hstart := (Fallback.inCommArea_of_mem (mem_missingIndexes_iff.mp hi).1).1
  unfold fallbackBlock entryName?
  rw [h.get?_of_commAreaStart_le hstart, Reported.outcome_bind, Reported.outcome_bind,
    Fallback.block_congr h.name h.id, h.name]

theorem heartbeatTimers_eq : d.heartbeatTimers = d'.heartbeatTimers := by
  have hget : d.get? Profile.consumerHeartbeat = d'.get? Profile.consumerHeartbeat :=
    h.get?_of_commAreaStart_le (by decide)
  have hcontains : d.contains Profile.consumerHeartbeat = d'.contains Profile.consumerHeartbeat :=
    congrArg Option.isSome hget
  unfold heartbeatTimers value?
  rw [hget, hcontains]

theorem listedIndexes_eq : d.listedIndexes = d'.listedIndexes := by
  rw [listedIndexes_eq_map_entriesIn, listedIndexes_eq_map_entriesIn, h.listedEntries_eq]

variable (headerName : String) (aliases : PointerAliases) (config : Config)

/-- The documents differ in the description of the node at most, which no text shows. -/
theorem texts_documentsOf_eq (ranges : List RangeType) (codes : List EntryCode)
    (fallbacks : List Block) (timers : Nat) :
    let documents := d.documentsOf headerName aliases config ranges codes fallbacks timers
    let documents' := d'.documentsOf headerName aliases config ranges codes fallbacks timers
    documents.1.text = documents'.1.text ∧ documents.2.text = documents'.2.text := by
  intro documents documents'
  have hsource : documents.1 = { documents'.1 with node := d.node } := by
    show (documentsOf d headerName aliases config ranges codes fallbacks timers).1 = _
    unfold documentsOf
    dsimp only [documents', documentsOf]
    rw [h.name, h.listedIndexes_eq]
  have hheader : documents.2 = documents'.2 := by
    show (documentsOf d headerName aliases config ranges codes fallbacks timers).2 = _
    unfold documentsOf
    dsimp only [documents', documentsOf]
    rw [h.name]
  rw [hsource, hheader]
  exact ⟨documents'.1.text_congr h.name.symm h.id.symm h.role.symm, rfl⟩

/-- Each stage has the same outcome, so the whole generation has. -/
theorem generate_outcome_eq :
    (d.generate headerName aliases config).outcome =
      (d'.generate headerName aliases config).outcome := by
  rw [generate_outcome, generate_outcome, documents_outcome, documents_outcome,
    h.defaultStringSize, h.rangesAndCodes_value_eq, h.fallbackBlocks_outcome_eq,
    h.heartbeatTimers_eq]
  simp only [bind_assoc]
  refine congrArg _ (funext fun p => congrArg _ (funext fun fallbacks => congrArg _ (funext
    fun timers => ?_)))
  obtain ⟨hsource, hheader⟩ :=
    h.texts_documentsOf_eq headerName aliases config p.1 p.2 fallbacks timers
  show Except.ok (DocumentPair.mk _ _) = Except.ok (DocumentPair.mk _ _)
  rw [hsource, hheader]

end AgreesWhereRead

/-! ### Histories of insertions -/

theorem insertAllReported_outcome (d : Dictionary) (insertions : List (Index × Entry)) :
    (d.insertAllReported insertions).outcome =
      .ok { d with entries := d.entries.insertAll insertions } := by
  induction insertions generalizing d with
  | nil => rfl
  | cons b insertions ih =>
    show ((d.insertReported b.1 b.2 >>= (·.insertAllReported insertions))).outcome = _
    rw [Reported.outcome_bind]
    show ((d.insert b.1 b.2).insertAllReported insertions).outcome = _
    rw [ih]
    rfl

/-- The entry that some insertions put at an index last. -/
def lastInserted? (insertions : List (Index × Entry)) (i : Index) : Option Entry :=
  insertions.reverse.lookup i

/-- A run: entries are inserted one after the other, and then the documents are generated. -/
def run (node : Node) (insertions : List (Index × Entry)) (headerName : String)
    (aliases : PointerAliases) (config : Config) : Reported DocumentPair := do
  let d ← ({ node := node } : Dictionary).insertAllReported insertions
  d.generate headerName aliases config

theorem run_outcome (node : Node) (insertions : List (Index × Entry)) (headerName : String)
    (aliases : PointerAliases) (config : Config) :
    (run node insertions headerName aliases config).outcome =
      (generate ⟨node, .ofList insertions⟩ headerName aliases config).outcome := by
  unfold run
  rw [Reported.outcome_bind, insertAllReported_outcome]
  rfl

theorem get?_ofList (node : Node) (insertions : List (Index × Entry)) (i : Index) :
    get? ⟨node, .ofList insertions⟩ i = lastInserted? insertions i := by
  show (AscendingMap.empty.insertAll insertions).get? i = _
  rw [AscendingMap.get?_insertAll, AscendingMap.get?_empty, Option.or_none]
  rfl

/-- Two runs are given the same of all that counts. -/
structure SameInput (node node' : Node) (insertions insertions' : List (Index × Entry)) :
    Prop where
  name : node.name = node'.name
  id : node.id = node'.id
  role : node.role = node'.role
  defaultStringSize : node.defaultStringSize = node'.defaultStringSize
  /-- The last entries at the indexes up to 0x0260 and from 0x1000 on. -/
  last : ∀ i, i ≤ 0x0260 ∨ 0x1000 ≤ i →
    lastInserted? insertions i = lastInserted? insertions' i

/-- **Independence.**  Two runs that are given the same node name, identifier, role and default size
of strings, and the same last entries in the two areas, end in the same documents or in the same
error. -/
theorem run_outcome_eq {node node' : Node} {insertions insertions' : List (Index × Entry)}
    (h : SameInput node node' insertions insertions') (headerName : String)
    (aliases : PointerAliases) (config : Config) :
    (run node insertions headerName aliases config).outcome =
      (run node' insertions' headerName aliases config).outcome := by
  have hagree : AgreesWhereRead ⟨node, .ofList insertions⟩ ⟨node', .ofList insertions'⟩ :=
    { name := h.name
      id := h.id
      role := h.role
      defaultStringSize := h.defaultStringSize
      get? := fun i hi => by rw [get?_ofList, get?_ofList, h.last i hi] }
  rw [run_outcome, run_outcome, hagree.generate_outcome_eq]

/-- A setpoint in percent. -/
def setpoint (name : String) : Entry :=
  .ofVariable name ⟨name, 0x0040, .readWrite, true, false⟩ (.unsigned 50)

/-- A first version of the setpoint is replaced. -/
def draftedInsertions : List (Index × Entry) :=
  [(0x2000, setpoint "Draft"), (0x0040, .ofRange "UNSIGNED8[0-100]" 0x0005 0 100),
    (0x2000, setpoint "Setpoint")]

/-- The same without the draft and in another order, and an entry between the areas. -/
def plainInsertions : List (Index × Entry) :=
  [(0x0800, setpoint "Reserve"), (0x2000, setpoint "Setpoint"),
    (0x0040, .ofRange "UNSIGNED8[0-100]" 0x0005 0 100)]

theorem sameInput_insertions :
    SameInput { name := "Drive", description := "A drive." } { name := "Drive" }
      draftedInsertions plainInsertions where
  name := rfl
  id := rfl
  role := rfl
  defaultStringSize := rfl
  last i hi := by
    have hreserve : i ≠ 0x0800 := by
      rintro rfl
      revert hi
      decide
    by_cases hsetpoint : i = 0x2000
    · rw [hsetpoint]
      rfl
    · by_cases hrange : i = 0x0040
      · rw [hrange]
        rfl
      · simp [lastInserted?, draftedInsertions, plainInsertions, List.lookup_cons,
          beq_eq_false_iff_ne.mpr hreserve, beq_eq_false_iff_ne.mpr hsetpoint,
          beq_eq_false_iff_ne.mpr hrange]

theorem run_outcome_eq_insertions :
    ∃ files,
      (run { name := "Drive", description := "A drive." } draftedInsertions "Drive.h" .empty
        {}).outcome = .ok files ∧
      (run { name := "Drive" } plainInsertions "Drive.h" .empty {}).outcome = .ok files := by
  obtain ⟨files, h⟩ := exists_eq_ok_of_isOk (by decide +kernel :
    (run { name := "Drive" } plainInsertions "Drive.h" .empty {}).outcome.isOk = true)
  exact ⟨files, (run_outcome_eq sameInput_insertions "Drive.h" .empty {}).trans h, h⟩

end Dictionary
end CanopenTables
