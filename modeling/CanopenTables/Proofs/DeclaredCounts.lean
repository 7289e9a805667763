import CanopenTables.Proofs.CallbackArrays
import CanopenTables.Proofs.ShapeTargets

/-!
# Declared counts

The first value of a sequence declares how many subindexes follow it, and the generated code passes
this number on: as the highest subindex of the entry, and, for the entry of the heartbeats to
watch, as the number of timers.  The subindex table takes its length from the values themselves.
Nothing compares the two, so what is published exceeds the table exactly when what is declared
does (`Entry.CountWithin`).

Only the error field does not pass its count on: it starts without errors, whatever it declares.

Main statement: `declared_counts_published`.
-/

namespace CanopenTables

namespace Entry

/-- The number of further subindexes that the value at subindex 0 declares. -/
def declaredCount? (e : Entry) : Option Nat :=
  ((e.value? 0).bind Value.toUInt64?).map UInt64.toNat

/-- An entry does not declare more subindexes than it has. -/
def CountWithin (e : Entry) : Prop := ∀ n, e.declaredCount? = some n → n ≤ e.object.size - 1

theorem countWithin_iff {e : Entry} {n : Nat} (h : e.declaredCount? = some n) :
    e.CountWithin ↔ n ≤ e.object.size - 1 := by
  unfold CountWithin
  rw [h]
  simp

end Entry

namespace Site

variable {s : Site} {r : Resolver}

theorem count_values_eq_ok_iff {n : Nat} :
    s.count s.entry.object.values = .ok n ↔ s.entry.declaredCount? = some n := by
  have hfirst : s.entry.value? 0 = s.entry.object.values.head? := by
    rw [List.head?_eq_getElem?]
    rfl
  rw [count_eq_ok_iff, Entry.declaredCount?, hfirst, Option.map_eq_some_iff]

/-- Apart from the error field, the highest subindex is the declared one. -/
theorem highestValue_values_eq_ok_iff {n : Nat} :
    s.highestValue s.entry.object.values = .ok n ↔
      if s.index = Profile.predefinedErrorField then n = 0
      else s.entry.declaredCount? = some n := by
  unfold highestValue
  split
  · rw [Except.ok.injEq]
    exact eq_comm
  · exact count_values_eq_ok_iff

end Site

theorem Block.mem_items_of_highestSubIndexes {b : Block} {h : HighestSubIndex}
    (hsingle : b.highestSubIndexes = [h]) : .highest h.storage h.name h.value ∈ b.items := by
  have hmem : h ∈ b.highestSubIndexes := by simp [hsingle]
  obtain ⟨item, hitem, heq⟩ := List.mem_filterMap.mp hmem
  cases item with
  | highest storage name value =>
    cases heq
    exact hitem
  | _ => cases heq

/-- What the block of a sequence publishes, next to its table. -/
structure SourceDocument.PublishesCount (source : SourceDocument) (x : Index) (e : Entry)
    (b : Block) (n : Nat) (rows : List Row) : Prop where
  block : source.blocks.get? x = some b
  /-- The block has one variable for the highest subindex and one table. -/
  published : b.highestSubIndexes.map (fun h => (h.name, h.value)) =
    [(Symbol.highestSubIndex source.node.name x, n)]
  table : b.tables = [rows]
  /-- Both stand in the text. -/
  printsAt_highest : ∃ storage, source.PrintsAt x
    (BlockItem.highest storage (Symbol.highestSubIndex source.node.name x) n).spelled
  printsAt_table : ∃ name, source.PrintsAt x (BlockItem.table name rows).spelled
  /-- The table goes by the values, and what is published by the first of them. -/
  length_rows : rows.length = e.object.size
  of_errorField : x = Profile.predefinedErrorField → n = 0
  declared : x ≠ Profile.predefinedErrorField → e.declaredCount? = some n
  within_iff : n ≤ rows.length - 1 ↔ x = Profile.predefinedErrorField ∨ e.CountWithin

namespace Dictionary

variable {d : Dictionary} {headerName : String} {aliases : PointerAliases} {config : Config}

theorem heartbeatTimers_eq_ok_iff {n : Nat} :
    d.heartbeatTimers = .ok n ↔
      match d.get? Profile.consumerHeartbeat with
      | none => n = 0
      | some e => e.declaredCount? = some n ∧ n < 256 := by
  unfold heartbeatTimers contains value? get? AscendingMap.contains
  cases d.entries.get? Profile.consumerHeartbeat with
  | none => simp [eq_comm]
  | some e =>
    simp only [Option.isSome_some, if_true, Option.bind_some, Entry.declaredCount?]
    cases (e.value? 0).bind Value.toUInt64? with
    | none => simp
    | some m =>
      simp only [Option.map_some, Option.some.injEq]
      split
      · rename_i hbyte
        rw [Except.ok.injEq]
        constructor
        · rintro rfl
          exact ⟨rfl, hbyte⟩
        · exact And.left
      · rename_i hbyte
        simp only [reduceCtorEq, false_iff, not_and]
        rintro rfl
        exact hbyte

theorem publishesCount_of_code {source : SourceDocument} {x : Index} {e : Entry} {r : Resolver}
    {c : EntryCode} (hshape : e.shape ≠ .scalar) (hcode : (Site.mk d x e).code.value r = .ok c)
    (hnode : source.node = d.node) (hblock : source.blocks.get? x = some c.block) :
    ∃ n, source.PublishesCount x e c.block n c.rows := by
  rcases Site.highest_of_laidOut (Site.laidOut_of_code hcode) with
    ⟨hscalar, -⟩ | ⟨-, storage, n, hvalue, hhighest⟩
  · exact absurd hscalar hshape
  have hvalue := Site.highestValue_values_eq_ok_iff.mp hvalue
  have hlength : c.rows.length = e.object.size := Site.length_rows_of_code hcode
  have hsingle : c.block.highestSubIndexes =
      [⟨storage, Symbol.highestSubIndex source.node.name x, n⟩] := by
    rw [c.highestSubIndexes_block, hhighest, hnode]
    rfl
  refine ⟨n, ?_⟩
  refine
    { block := hblock
      published := by rw [hsingle, List.map_singleton]
      table := c.tables_block
      printsAt_highest := ⟨storage, SourceDocument.printsAt_of_mem_items hblock
        (Block.mem_items_of_highestSubIndexes hsingle)⟩
      printsAt_table := SourceDocument.printsAt_of_tables hblock c.tables_block
      length_rows := hlength
      of_errorField := fun hx => ?_
      declared := fun hx => ?_
      within_iff := ?_ }
  · rwa [if_pos hx] at hvalue
  · rwa [if_neg hx] at hvalue
  · rw [hlength]
    by_cases hx : x = Profile.predefinedErrorField
    · rw [if_pos hx] at hvalue
      simp [hx, hvalue]
    · rw [if_neg hx] at hvalue
      rw [Entry.countWithin_iff hvalue]
      simp [hx]

/-- **Declared counts.**  In a generation that succeeds, the block of a sequence publishes the
number that its first value declares, except for the error field, which publishes zero; the table
next to it has a row for each value.  So what is published is within the table exactly at the error
field and where what is declared is within the entry.  The number of timers is what the entry of the
heartbeats declares, or zero without such an entry, and in the same way it is within the subindexes
from 1 on exactly when what is declared is. -/
theorem declared_counts_published {files : DocumentPair}
    (h : (d.generate headerName aliases config).outcome = .ok files) :
    ∃ source header,
      (d.documents headerName aliases config).outcome = .ok (source, header) ∧
      files = ⟨source.text, header.text⟩ ∧
      (∀ x e, Profile.commAreaStart ≤ x → d.get? x = some e → e.shape ≠ .scalar →
        ∃ b n rows, source.PublishesCount x e b n rows) ∧
      PrintsIn source.spelledTimers source.text ∧
      (d.get? Profile.consumerHeartbeat = none → source.heartbeatTimers = 0) ∧
      ∀ e, d.get? Profile.consumerHeartbeat = some e →
        e.declaredCount? = some source.heartbeatTimers ∧ source.heartbeatTimers < 256 ∧
          (source.heartbeatTimers ≤ e.object.size - 1 ↔ e.CountWithin) := by
  obtain ⟨source, header, hdocuments, hfiles⟩ := generate_outcome_eq_ok_iff.mp h
  obtain ⟨ranges, codes, fallbacks, timers, hvalue, hfallbacks, htimers, hof⟩ :=
    documents_outcome_eq_ok_iff.mp hdocuments
  obtain ⟨r, -, hcodes⟩ := rangesAndCodes_value_eq_ok_iff.mp hvalue
  have hsource : source = (d.documentsOf headerName aliases config ranges codes fallbacks
    timers).1 := congrArg Prod.fst hof.symm
  have htimers : d.heartbeatTimers = .ok source.heartbeatTimers := by
    rw [hsource]
    exact htimers
  have htimers := heartbeatTimers_eq_ok_iff.mp htimers
  refine ⟨source, header, hdocuments, hfiles.symm, fun x e hstart hget hshape => ?_,
    source.printsIn_timers, fun hnone => ?_, fun e hget => ?_⟩
  · obtain ⟨c, -, hcode, -, hblock⟩ :=
      exists_block_of_get? hcodes hfallbacks hsource hstart hget
    have hnode : source.node = d.node := by
      rw [hsource]
      rfl
    obtain ⟨n, hpublishes⟩ := publishesCount_of_code hshape hcode hnode hblock
    exact ⟨c.block, n, c.rows, hpublishes⟩
  · rwa [hnone] at htimers
  · rw [hget] at htimers
    exact ⟨htimers.1, htimers.2, (Entry.countWithin_iff htimers.1).symm⟩

theorem declared_counts_published_drive :
    ∃ files source header b rows,
      (drive.generate "Drive.h" .empty {}).outcome = .ok files ∧
      (drive.documents "Drive.h" .empty {}).outcome = .ok (source, header) ∧
      source.blocks.get? 0x2001 = some b ∧ b.highestSubIndexes.map (·.value) = [2] ∧
      b.tables = [rows] ∧
      rows.length = 3 ∧ source.heartbeatTimers = 0 := by
  obtain ⟨files, source, header, h, hdocuments, -⟩ := exists_documents_drive
  obtain ⟨source', header', hdocuments', -, hpublishes, -, hnone, -⟩ := declared_counts_published h
  cases hdocuments.symm.trans hdocuments'
  obtain ⟨e, hget, hcount, hsize, hshape⟩ : ∃ e, drive.get? 0x2001 = some e ∧
      e.declaredCount? = some 2 ∧ e.object.size = 3 ∧ e.shape ≠ .scalar :=
    ⟨_, rfl, by decide, by decide, by decide⟩
  obtain ⟨b, n, rows, hp⟩ := hpublishes 0x2001 e (by decide) hget hshape
  obtain rfl : 2 = n := Option.some.inj (hcount.symm.trans (hp.declared (by decide)))
  have hpublished : b.highestSubIndexes.map (·.value) = [2] := by
    simpa using congrArg (List.map Prod.snd) hp.published
  exact ⟨files, source, header, b, rows, h, hdocuments, hp.block, hpublished, hp.table,
    hp.length_rows.trans hsize, hnone (by decide)⟩

/-- A node that is told to watch three heartbeats and is given one to watch. -/
def watcher : Dictionary :=
  { node := { name := "Node" }
    entries := .ofList
      [(0x1016, .ofRecord "Consumer Heartbeat Time" ⟨"Count", 0x0005, .readOnly, false, false⟩
        ⟨"Consumer Heartbeat Time", 0x0007, .readWrite, false, false⟩
        [.unsigned 3, .unsigned 0])] }

/-- The documents of the watcher publish a highest subindex of 3 next to a table of two rows, and
have three timers. -/
theorem not_forall_counts_within :
    (¬ ∀ (d : Dictionary) (headerName : String) (aliases : PointerAliases) (config : Config)
        (source : SourceDocument) (header : HeaderDocument),
      (d.documents headerName aliases config).outcome = .ok (source, header) →
      ∀ (x : Index) (e : Entry) (b : Block) (published : HighestSubIndex) (rows : List Row),
        Profile.commAreaStart ≤ x → d.get? x = some e → e.shape ≠ .scalar →
        source.blocks.get? x = some b → b.highestSubIndexes = [published] → b.tables = [rows] →
          published.value ≤ rows.length - 1) ∧
    ¬ ∀ (d : Dictionary) (headerName : String) (aliases : PointerAliases) (config : Config)
        (source : SourceDocument) (header : HeaderDocument),
      (d.documents headerName aliases config).outcome = .ok (source, header) →
      ∀ e, d.get? Profile.consumerHeartbeat = some e →
        source.heartbeatTimers ≤ e.object.size - 1 := by
  obtain ⟨⟨source, header⟩, h⟩ := exists_eq_ok_of_isOk
    (by decide +kernel : (watcher.documents "Node.h" .empty {}).outcome.isOk = true)
  have hseen : (watcher.documents "Node.h" .empty {}).outcome.toOption.map (fun p =>
      ((p.1.blocks.get? 0x1016).map fun b => (b.highestSubIndexes, b.tables.map List.length),
        p.1.heartbeatTimers)) =
      some (some ([⟨.unsigned 8, "Node_highestSubIndex_obj1016", 3⟩], [2]), 3) := by
    decide +kernel
  rw [h] at hseen
  obtain ⟨hblock, htimers⟩ := Prod.ext_iff.mp (Option.some.inj hseen)
  obtain ⟨e, hget, hsize, hshape⟩ : ∃ e, watcher.get? 0x1016 = some e ∧ e.object.size = 2 ∧
      e.shape ≠ .scalar :=
    ⟨_, rfl, by decide, by decide⟩
  constructor
  · intro hall
    obtain ⟨b, hb, hcounts⟩ := Option.map_eq_some_iff.mp hblock
    obtain ⟨hhighest, hlengths⟩ := Prod.ext_iff.mp hcounts
    obtain ⟨rows, htables, hlength⟩ := List.map_eq_singleton_iff.mp hlengths
    have hle := hall watcher "Node.h" .empty {} source header h 0x1016 e b _ rows (by decide)
      hget hshape hb hhighest htables
    rw [hlength] at hle
    exact absurd hle (by decide)
  · intro hall
    have hle := hall watcher "Node.h" .empty {} source header h e hget
    have htimers : source.heartbeatTimers = 3 := htimers
    omega

end Dictionary
end CanopenTables
