import CanopenTables.Generation
import CanopenTables.Proofs.EntryLayout
import CanopenTables.Proofs.Fallbacks

/-!
# How the documents come about

A generation succeeds when the value ranges, the entries, the fallbacks and the number of heartbeats
are all worked out, and then the documents are put together from them
(`documents_outcome_eq_ok_iff`).  What the entries emit is a concatenation for everything that is a
list, and one binding per entry for the blocks and the callback arrays (`Emission.ofCodes`).
-/

namespace CanopenTables

open Lowering (value_eq_map)

namespace AscendingMap

variable {κ α : Type} [Ranked κ]

theorem mem_of_mem_toList_insertAll {b : κ × α} {bindings : List (κ × α)} (m : AscendingMap κ α)
    (h : b ∈ (m.insertAll bindings).toList) : b ∈ bindings ∨ b ∈ m.toList := by
  induction bindings generalizing m with
  | nil => exact Or.inr h
  | cons c bindings ih =>
    rcases ih (m.insert c.1 c.2) h with h | h
    · exact Or.inl (List.mem_cons_of_mem c h)
    · rcases mem_insertSorted h with rfl | h
      · exact Or.inl List.mem_cons_self
      · exact Or.inr h

theorem mem_of_mem_toList_ofList {b : κ × α} {bindings : List (κ × α)}
    (h : b ∈ (ofList bindings).toList) : b ∈ bindings :=
  (mem_of_mem_toList_insertAll empty h).resolve_right List.not_mem_nil

/-- A map built from bindings of different keys has exactly these bindings. -/
theorem get?_insertAll_eq_some_iff {bindings : List (κ × α)}
    (hnodup : (bindings.map Prod.fst).Nodup) (m : AscendingMap κ α)
    (hfree : ∀ k ∈ bindings.map Prod.fst, m.get? k = none) {k : κ} {a : α} :
    (m.insertAll bindings).get? k = some a ↔ (k, a) ∈ bindings ∨ m.get? k = some a := by
  induction bindings generalizing m with
  | nil => simp [insertAll]
  | cons b bindings ih =>
    rw [List.map_cons, List.nodup_cons] at hnodup
    rw [List.map_cons, List.forall_mem_cons] at hfree
    show ((m.insert b.1 b.2).insertAll bindings).get? k = some a ↔ _
    have hfree' : ∀ k ∈ bindings.map Prod.fst, (m.insert b.1 b.2).get? k = none := by
      intro k hk
      have hne : rank k ≠ rank b.1 := fun hrank => by
        rw [Ranked.rank_injective hrank] at hk
        exact hnodup.1 hk
      rw [get?_insert, if_neg hne, hfree.2 k hk]
    rw [ih hnodup.2 _ hfree', get?_insert, List.mem_cons]
    by_cases hk : k = b.1
    · have hmem : ∀ a, (k, a) ∉ bindings := fun a hmem =>
        hnodup.1 (hk ▸ List.mem_map_of_mem hmem)
      subst hk
      have hpair : (b.1, a) = b ↔ b.2 = a := by
        constructor
        · intro h
          rw [← h]
        · intro h
          rw [← h]
      simp [hmem, hfree.1, hpair]
    · have hrank : rank k ≠ rank b.1 := fun h => hk (Ranked.rank_injective h)
      have hpair : (k, a) ≠ b := fun h => hk (congrArg Prod.fst h)
      simp [hrank, hpair]

theorem get?_ofList_eq_some_iff {bindings : List (κ × α)}
    (hnodup : (bindings.map Prod.fst).Nodup) {k : κ} {a : α} :
    (ofList bindings).get? k = some a ↔ (k, a) ∈ bindings := by
  show (empty.insertAll bindings).get? k = some a ↔ _
  rw [get?_insertAll_eq_some_iff hnodup empty fun k _ => get?_empty k, get?_empty]
  simp

end AscendingMap

namespace Emission

variable (aliases : PointerAliases) (codes : List EntryCode) (em : Emission)

theorem foldl_add :
    codes.foldl (add aliases) em =
      { definitions := em.definitions ++ codes.flatMap (·.shape.definitions)
        declarations := em.declarations ++ codes.flatMap (·.shape.declarations)
        mappedCount := em.mappedCount + (codes.map (·.shape.mappedCount)).sum
        pointers := em.pointers ++ codes.flatMap (·.pointers aliases)
        blocks := em.blocks.insertAll (codes.map fun c => (c.index, c.block))
        callbacks := em.callbacks.insertAll
          (codes.map fun c => (c.index, c.callbacks.map fun a => Symbol.callbacks a.name)) } := by
  induction codes generalizing em with
  | nil => simp [AscendingMap.insertAll]
  | cons c codes ih =>
    rw [List.foldl_cons, ih]
    simp [add, AscendingMap.insertAll, Nat.add_assoc]

theorem ofCodes_eq :
    ofCodes aliases codes =
      { definitions := codes.flatMap (·.shape.definitions)
        declarations := codes.flatMap (·.shape.declarations)
        mappedCount := (codes.map (·.shape.mappedCount)).sum
        pointers := codes.flatMap (·.pointers aliases)
        blocks := .ofList (codes.map fun c => (c.index, c.block))
        callbacks := .ofList
          (codes.map fun c => (c.index, c.callbacks.map fun a => Symbol.callbacks a.name)) } := by
  refine (foldl_add aliases codes empty).trans ?_
  rw [show empty.mappedCount = 0 from rfl, Nat.zero_add]
  rfl

end Emission

namespace Dictionary

variable {d : Dictionary} {headerName : String} {aliases : PointerAliases} {config : Config}

/-- The ranges come first; the entries are then laid out with the resolver that the ranges
leave. -/
theorem rangesAndCodes_value (d : Dictionary) (r : Resolver) :
    d.rangesAndCodes.value r =
      (d.rangeTypes.run r).outcome >>= fun p => (p.1, ·) <$> d.entryCodes.value p.2 := by
  rw [value_eq_map]
  unfold rangesAndCodes
  simp only [StateT.run_bind, Reported.outcome_bind]
  show Prod.fst <$> ((d.rangeTypes.run r).outcome >>= _) = _
  cases (d.rangeTypes.run r).outcome with
  | error e => rfl
  | ok p =>
    show Prod.fst <$> ((d.entryCodes.run p.2).outcome >>= _) = (p.1, ·) <$> _
    rw [value_eq_map]
    cases (d.entryCodes.run p.2).outcome with
    | error e => rfl
    | ok q => rfl

theorem rangesAndCodes_value_eq_ok_iff {r : Resolver} {ranges : List RangeType}
    {codes : List EntryCode} :
    d.rangesAndCodes.value r = .ok (ranges, codes) ↔
      ∃ r', (d.rangeTypes.run r).outcome = .ok (ranges, r') ∧
        d.entryCodes.value r' = .ok codes := by
  rw [rangesAndCodes_value, bind_eq_ok_iff]
  simp only [map_eq_ok_iff]
  constructor
  · rintro ⟨⟨_, r'⟩, hranges, _, hcodes, h⟩
    cases h
    exact ⟨r', hranges, hcodes⟩
  · rintro ⟨r', hranges, hcodes⟩
    exact ⟨_, hranges, _, hcodes, rfl⟩

theorem documents_outcome (d : Dictionary) (headerName : String) (aliases : PointerAliases)
    (config : Config) :
    (d.documents headerName aliases config).outcome =
      d.rangesAndCodes.value (Resolver.new d.node.defaultStringSize) >>= fun p =>
        d.fallbackBlocks.outcome >>= fun fallbacks =>
          d.heartbeatTimers >>= fun timers =>
            .ok (d.documentsOf headerName aliases config p.1 p.2 fallbacks timers) := by
  unfold documents
  simp only [Reported.outcome_bind]
  show (d.rangesAndCodes.value (Resolver.new d.node.defaultStringSize) >>= _) = _
  refine congrArg _ (funext fun p => ?_)
  show (d.fallbackBlocks.outcome >>= _) = _
  rfl

theorem documents_outcome_eq_ok_iff {documents : SourceDocument × HeaderDocument} :
    (d.documents headerName aliases config).outcome = .ok documents ↔
      ∃ ranges codes fallbacks timers,
        d.rangesAndCodes.value (Resolver.new d.node.defaultStringSize) = .ok (ranges, codes) ∧
        d.fallbackBlocks.outcome = .ok fallbacks ∧
        d.heartbeatTimers = .ok timers ∧
        d.documentsOf headerName aliases config ranges codes fallbacks timers = documents := by
  rw [documents_outcome, bind_eq_ok_iff]
  constructor
  · rintro ⟨⟨ranges, codes⟩, hcodes, h⟩
    obtain ⟨fallbacks, hfallbacks, h⟩ := bind_eq_ok_iff.mp h
    obtain ⟨timers, htimers, h⟩ := bind_eq_ok_iff.mp h
    exact ⟨ranges, codes, fallbacks, timers, hcodes, hfallbacks, htimers, Except.ok.inj h⟩
  · rintro ⟨ranges, codes, fallbacks, timers, hcodes, hfallbacks, htimers, h⟩
    refine ⟨(ranges, codes), hcodes, ?_⟩
    rw [hfallbacks, htimers, ← h]
    rfl

/-- The last report of a generation that succeeds gives the number of listed indexes and the number
of variables at file scope that the entries have counted. -/
theorem getLast?_notices_documents {documents : SourceDocument × HeaderDocument}
    (h : (d.documents headerName aliases config).outcome = .ok documents)
    {ranges : List RangeType} {codes : List EntryCode}
    (hcodes : d.rangesAndCodes.value (Resolver.new d.node.defaultStringSize) =
      .ok (ranges, codes)) :
    (d.documents headerName aliases config).notices.getLast? =
      some (.staged d.node.name (.finished documents.1.navigation.positions.size
        (Emission.ofCodes aliases codes).mappedCount)) := by
  obtain ⟨ranges', codes', fallbacks, timers, hcodes', hfallbacks, htimers, rfl⟩ :=
    documents_outcome_eq_ok_iff.mp h
  cases hcodes'.symm.trans hcodes
  have hrun : (StateT.run' d.rangesAndCodes (Resolver.new d.node.defaultStringSize)).outcome =
      .ok (ranges, codes) := hcodes
  have hlift : (liftM d.heartbeatTimers : Reported Nat).outcome = .ok timers := htimers
  have hreport (event : StageEvent) : (d.reportStage event).outcome = .ok () := rfl
  have hreports (ns : List Notice) : (Reported.reportAll ns).outcome = .ok () := rfl
  unfold Dictionary.documents
  rw [Reported.notices_bind_of_ok (hreport _), Reported.notices_bind_of_ok (hreports _),
    Reported.notices_bind_of_ok hrun, Reported.notices_bind_of_ok (hreport _),
    Reported.notices_bind_of_ok hfallbacks, Reported.notices_bind_of_ok (hreport _),
    Reported.notices_bind_of_ok hlift, Reported.notices_bind_of_ok (hreport _)]
  simp [reportStage, Reported.report, List.getLast?_cons]

theorem generate_outcome (d : Dictionary) (headerName : String) (aliases : PointerAliases)
    (config : Config) :
    (d.generate headerName aliases config).outcome =
      (d.documents headerName aliases config).outcome >>= fun documents =>
        .ok ⟨documents.1.text, documents.2.text⟩ := by
  unfold generate
  rw [Reported.outcome_bind]
  rfl

theorem generate_outcome_eq_ok_iff {files : DocumentPair} :
    (d.generate headerName aliases config).outcome = .ok files ↔
      ∃ source header, (d.documents headerName aliases config).outcome = .ok (source, header) ∧
        ⟨source.text, header.text⟩ = files := by
  rw [generate_outcome, bind_eq_ok_iff]
  constructor
  · rintro ⟨⟨source, header⟩, h, hfiles⟩
    exact ⟨source, header, h, Except.ok.inj hfiles⟩
  · rintro ⟨source, header, h, hfiles⟩
    exact ⟨(source, header), h, congrArg Except.ok hfiles⟩

/-- Three stages can fail; the fallbacks cannot. -/
theorem exists_generate_iff :
    (∃ files, (d.generate headerName aliases config).outcome = .ok files) ↔
      ∃ ranges r,
        (d.rangeTypes.run (Resolver.new d.node.defaultStringSize)).outcome = .ok (ranges, r) ∧
        (∃ codes, d.entryCodes.value r = .ok codes) ∧
        ∃ timers, d.heartbeatTimers = .ok timers := by
  constructor
  · rintro ⟨files, h⟩
    obtain ⟨source, header, hdocuments, -⟩ := generate_outcome_eq_ok_iff.mp h
    obtain ⟨ranges, codes, -, timers, hvalue, -, htimers, -⟩ :=
      documents_outcome_eq_ok_iff.mp hdocuments
    obtain ⟨r, hranges, hcodes⟩ := rangesAndCodes_value_eq_ok_iff.mp hvalue
    exact ⟨ranges, r, hranges, ⟨codes, hcodes⟩, ⟨timers, htimers⟩⟩
  · rintro ⟨ranges, r, hranges, ⟨codes, hcodes⟩, ⟨timers, htimers⟩⟩
    have hvalue := rangesAndCodes_value_eq_ok_iff.mpr ⟨r, hranges, hcodes⟩
    obtain ⟨fallbacks, hfallbacks⟩ := exists_fallbackBlocks d
    exact ⟨_, generate_outcome_eq_ok_iff.mpr ⟨_, _, documents_outcome_eq_ok_iff.mpr
      ⟨ranges, codes, fallbacks, timers, hvalue, hfallbacks, htimers, rfl⟩, rfl⟩⟩

end Dictionary
end CanopenTables
