import CanopenTables.Generation
import CanopenTables.Proofs.EntryLayout

/-!
# What is reported on the way

A computation reports within a property (`Reports P`) when every notice that it gives has it,
whether it succeeds or fails.  This is closed under sequence and walks, so it is read off the
structure of a computation, one rule per combinator.  Looking types up reports nothing at all, so it
reports within every property (`LooksUp.reports`), and with it all that lays an entry out; each
stage is left with the events of its own.
-/

namespace CanopenTables

variable {α β : Type} {P : Notice → Prop}

namespace Reported

/-- All that is reported has a property. -/
def Reports (P : Notice → Prop) (x : Reported α) : Prop := ∀ n ∈ x.notices, P n

theorem reports_pure (a : α) : (pure a : Reported α).Reports P := by
  intro n hn
  cases hn

theorem reports_ofExcept (x : Except GenerationError α) : (ofExcept x).Reports P := by
  intro n hn
  cases hn

theorem reports_report {n : Notice} (h : P n) : (report n).Reports P := by
  intro n' hn'
  rw [List.mem_singleton.mp hn']
  exact h

theorem Reports.bind {x : Reported α} {f : α → Reported β} (hx : x.Reports P)
    (hf : ∀ a, (f a).Reports P) : (x >>= f).Reports P := by
  intro n hn
  cases houtcome : x.outcome with
  | error e =>
    have hnotices : (x >>= f).notices = x.notices := by
      show (x.andThen f).notices = _
      unfold andThen
      rw [houtcome]
    exact hx n (hnotices ▸ hn)
  | ok a =>
    rw [notices_bind_of_ok houtcome, List.mem_append] at hn
    rcases hn with hn | hn
    · exact hx n hn
    · exact hf a n hn

theorem Reports.mapM {f : α → Reported β} (hf : ∀ a, (f a).Reports P) (l : List α) :
    (l.mapM f).Reports P := by
  induction l with
  | nil =>
    rw [List.mapM_nil]
    exact reports_pure []
  | cons a l ih =>
    rw [List.mapM_cons]
    exact (hf a).bind fun b => ih.bind fun bs => reports_pure (b :: bs)

end Reported

namespace Lowering

/-- All that is reported has a property, whatever the resolver knows. -/
def Reports (P : Notice → Prop) (m : Lowering α) : Prop := ∀ r, (m.run r).Reports P

namespace Reports

theorem pure (a : α) : Reports P (Pure.pure a : Lowering α) :=
  fun _ => Reported.reports_pure _

theorem ofExcept (x : Except GenerationError α) : Reports P (ofExcept x) :=
  fun _ => (Reported.reports_ofExcept x).bind fun _ => Reported.reports_pure _

theorem liftM (x : Except GenerationError α) : Reports P (liftM x : Lowering α) := ofExcept x

theorem report {n : Notice} (h : P n) : Reports P (report n) :=
  fun _ => (Reported.reports_report h).bind fun _ => Reported.reports_pure _

theorem resolveFor (name : String) (candidates : List Value) :
    Reports P (resolveFor name candidates) :=
  fun _ => Reported.reports_ofExcept _

theorem register (name : String) (type : ResolvedType) : Reports P (register name type) :=
  fun _ => Reported.reports_pure _

theorem bind {x : Lowering α} {f : α → Lowering β} (hx : Reports P x)
    (hf : ∀ a, Reports P (f a)) : Reports P (x >>= f) := by
  intro r
  rw [StateT.run_bind]
  exact (hx r).bind fun p => hf p.1 p.2

theorem mapM {f : α → Lowering β} (hf : ∀ a, Reports P (f a)) (l : List α) :
    Reports P (l.mapM f) := by
  induction l with
  | nil =>
    rw [List.mapM_nil]
    exact pure []
  | cons a l ih =>
    rw [List.mapM_cons]
    exact (hf a).bind fun b => ih.bind fun bs => pure (b :: bs)

theorem run' {m : Lowering α} (h : Reports P m) (r : Resolver) : (StateT.run' m r).Reports P := by
  rw [StateT.run', map_eq_pure_bind]
  exact (h r).bind fun p => Reported.reports_pure p.1

end Reports

theorem LooksUp.reports {m : Lowering α} (h : m.LooksUp) : m.Reports P := by
  induction h with
  | pure a => exact .pure a
  | ofExcept x => exact .ofExcept x
  | resolveFor name candidates => exact .resolveFor name candidates
  | bind _ _ hx hf => exact hx.bind hf

end Lowering

/-! ### Stages -/

/-- The stage that a notice comes from, if it comes from a stage. -/
def Notice.stage? : Notice → Option Stage
  | staged _ event => some event.stage
  | _ => none

namespace Dictionary

open Lowering (Reports)

variable (d : Dictionary)

theorem reports_rangesAndCodes : Reports (·.stage? ≠ some .aliases) d.rangesAndCodes := by
  have hranges : Reports (·.stage? ≠ some .aliases) d.rangeTypes :=
    .mapM (fun _ => .bind (.liftM _) fun _ => .bind (.liftM _) fun _ => .bind (.resolveFor _ _)
      fun _ => .bind (.register _ _) fun _ => .bind (.liftM _) fun _ => .bind (.liftM _) fun _ =>
        .bind (.liftM _) fun _ => .bind (.liftM _) fun _ => .bind (.report nofun) fun _ =>
          .pure _) _
  have hcodes : Reports (·.stage? ≠ some .aliases) d.entryCodes :=
    .mapM (fun s => .bind (.report nofun) fun _ => s.looksUp_code.reports) _
  exact .bind (.report nofun) fun _ => .bind hranges fun _ => .bind (.report nofun) fun _ =>
    .bind hcodes fun _ => .pure _

theorem reports_fallbackBlocks : d.fallbackBlocks.Reports (·.stage? ≠ some .aliases) :=
  .mapM (fun _ => .bind (Reported.reports_ofExcept _) fun _ =>
    .bind (Reported.reports_report nofun) fun _ => Reported.reports_pure _) _

/-- The reports on aliases are the only ones that their stage gives, whatever becomes of the
generation. -/
theorem filter_notices_generate (headerName : String) (aliases : PointerAliases)
    (config : Config) :
    (d.generate headerName aliases config).notices.filter (·.stage? == some .aliases) =
      d.aliasNotices aliases := by
  have hstage {event : StageEvent} (h : event.stage ≠ .aliases) :
      (d.reportStage event).Reports (·.stage? ≠ some .aliases) :=
    Reported.reports_report fun heq => h (Option.some.inj heq)
  obtain ⟨rest, hrest, hgenerate⟩ : ∃ rest : Reported DocumentPair,
      rest.Reports (·.stage? ≠ some .aliases) ∧
        d.generate headerName aliases config =
          (d.reportStage (.started headerName d.size) >>= fun _ =>
            Reported.reportAll (d.aliasNotices aliases) >>= fun _ => rest) := by
    refine ⟨_, ?_, by unfold generate documents; simp only [bind_assoc]; rfl⟩
    exact .bind (d.reports_rangesAndCodes.run' _) fun _ => .bind (hstage nofun) fun _ =>
      .bind d.reports_fallbackBlocks fun _ => .bind (hstage nofun) fun _ =>
        .bind (Reported.reports_ofExcept _) fun _ => .bind (hstage nofun) fun _ =>
          Reported.reports_pure _
  have haliases : (d.aliasNotices aliases).filter (·.stage? == some .aliases) =
      d.aliasNotices aliases := by
    refine List.filter_eq_self.mpr fun n hn => ?_
    obtain ⟨b, -, rfl⟩ := List.mem_map.mp hn
    rfl
  have hrestnotices : rest.notices.filter (·.stage? == some .aliases) = [] :=
    List.filter_eq_nil_iff.mpr fun n hn => by simpa using hrest n hn
  have hreports (ns : List Notice) : (Reported.reportAll ns).outcome = .ok () := rfl
  have hreport (event : StageEvent) : (d.reportStage event).outcome = .ok () := rfl
  rw [hgenerate, Reported.notices_bind_of_ok (hreport _), Reported.notices_bind_of_ok (hreports _),
    List.filter_append, List.filter_append, hrestnotices, List.append_nil]
  exact haliases

end Dictionary
end CanopenTables
