import CanopenTables.Files.PairWriter
import CanopenTables.Proofs.SiblingPaths

/-!
# Previous files, moved aside and brought back

Before new files take their places the previous ones are moved aside, and when a run fails they are
brought back.  While they are aside (`PairWriter.Aside`), the tree is told by the tree before and by
the moves that were made, and each move can be taken back (`PairWriter.Aside.restored`).

* `PairWriter.get?_discard`: what a removal of files takes away.
* `PairWriter.kept_restore`: bringing the previous files back leaves everything as it was.
* `PairWriter.setAside_spec`: all previous files are aside, or everything is as it was.
-/

namespace CanopenTables

namespace FileTree

variable {hidden : Location → Prop} {t u v : FileTree}

/-- All stands as before, except that hidden locations may have been vacated. -/
def Kept (hidden : Location → Prop) (t u : FileTree) : Prop :=
  ∀ x, u.get? x = t.get? x ∨ (hidden x ∧ u.get? x = none)

theorem Kept.of_get?_eq (h : ∀ x, u.get? x = t.get? x) : Kept hidden t u := fun x => .inl (h x)

theorem Kept.refl (t : FileTree) : Kept hidden t t := .of_get?_eq fun _ => rfl

theorem Kept.trans (htu : Kept hidden t u) (huv : Kept hidden u v) : Kept hidden t v := by
  intro x
  rcases huv x with hv | hv
  · rw [hv]
    exact htu x
  · exact .inr hv

theorem kept_erase {l : Location} (hl : l ≠ []) (hhidden : hidden l) :
    Kept hidden t (t.erase l) := by
  intro x
  rw [get?_erase hl]
  by_cases hx : x = l
  · subst hx
    exact .inr ⟨hhidden, if_pos rfl⟩
  · exact .inl (if_neg hx)

end FileTree

namespace PairWriter

open FileTree Script

variable {t u v w : FileTree}

/-! ### Scripts that go through a list -/

theorem discard_triesEach : TriesEach discard .remove where
  nil := rfl
  cons path rest := by
    refine ⟨_, rfl, fun r => ?_⟩
    dsimp only
    split
    · exact .inl rfl
    · exact .inl rfl
    · exact .inr ⟨_, rfl⟩

theorem dropBackups_triesEach : TriesEach dropBackups fun b => .remove b.copy where
  nil := rfl
  cons b rest := by
    refine ⟨_, rfl, fun r => ?_⟩
    dsimp only
    split
    · exact .inl rfl
    · exact .inr ⟨_, rfl⟩

theorem restore_triesEach : TriesEach restore fun b => .move b.copy b.target where
  nil := rfl
  cons b rest := by
    refine ⟨_, rfl, fun r => ?_⟩
    dsimp only
    split
    · exact .inl rfl
    · exact .inr ⟨_, rfl⟩

/-! ### Removals -/

theorem final_dropBackups (backups : List Backup) :
    (dropBackups backups).final t = (discard (backups.map (·.copy))).final t := by
  induction backups generalizing t with
  | nil => rfl
  | cons b rest ih =>
    rw [List.map_cons, discard_triesEach.final_cons, dropBackups_triesEach.final_cons, ih]

open Classical in
theorem get?_outcome_remove (t : FileTree) (p : Path) (x : Location) :
    (outcome t (.remove p)).1.get? x =
      if t.Reaches p x ∧ t.get? x ≠ some .directory then none else t.get? x := by
  rcases outcome_cases t (.remove p) with ⟨u, hperform, houtcome⟩ | ⟨e, hperform, houtcome⟩
  · rw [houtcome]
    obtain ⟨l, content, hl, hfile, rfl⟩ := perform_remove_eq_ok_iff.mp hperform
    rw [get?_erase hl.ne_nil]
    by_cases hx : x = l
    · subst hx
      simp [hl, hfile]
    · have hreaches : ¬t.Reaches p x := fun h => hx (h.eq hl)
      simp [hx, hreaches]
  · rw [houtcome]
    split
    · rename_i h
      rw [perform_remove h.1] at hperform
      split at hperform
      · assumption
      · exact absurd (by assumption) h.2
      · cases hperform
    · rfl

open Classical in
/-- What is discarded are the files that the paths reach. -/
theorem get?_discard (t : FileTree) (paths : List Path) (x : Location) :
    ((discard paths).final t).1.get? x =
      if (∃ p ∈ paths, t.Reaches p x) ∧ t.get? x ≠ some .directory then none else t.get? x := by
  induction paths generalizing t with
  | nil => simp [discard, final_pure]
  | cons path rest ih =>
    have hsame := sameDirectories_outcome t (.remove path)
    have hrest (p : Path) : (outcome t (.remove path)).1.Reaches p x ↔ t.Reaches p x :=
      (reaches_iff_of_sameDirectories hsame).symm
    rw [discard_triesEach.final_cons, ih, get?_outcome_remove]
    simp only [hrest]
    by_cases hpath : t.Reaches path x <;> by_cases hx : t.get? x = some .directory <;>
      simp [hpath, hx]

/-! ### Files that are aside -/

/-- The previous files are aside: each has been moved from its target to its copy, and all else
stands as before. -/
structure Aside (t u : FileTree) (moves : List (Location × Location)) : Prop where
  apart : moves.Pairwise fun m m' => m.1 ≠ m'.1 ∧ m.2 ≠ m'.2
  disjoint : ∀ m ∈ moves, ∀ m' ∈ moves, m.1 ≠ m'.2
  copied : ∀ m ∈ moves, ∃ content, t.get? m.1 = some (.file content) ∧
    u.get? m.2 = some (.file content)
  vacated : ∀ m ∈ moves, u.get? m.1 = none
  elsewhere : ∀ x, (∀ m ∈ moves, x ≠ m.1 ∧ x ≠ m.2) → u.get? x = t.get? x

theorem Aside.nil (h : ∀ x, u.get? x = t.get? x) : Aside t u [] where
  apart := .nil
  disjoint := by simp
  copied := by simp
  vacated := by simp
  elsewhere x _ := h x

variable {l c : Location} {content : String} {moves : List (Location × Location)}

theorem Aside.congr (h : Aside t u moves) (hv : ∀ x, v.get? x = u.get? x) : Aside t v moves where
  apart := h.apart
  disjoint := h.disjoint
  copied m hm := by
    rw [hv]
    exact h.copied m hm
  vacated m hm := by rw [hv, h.vacated m hm]
  elsewhere x hx := by rw [hv, h.elsewhere x hx]

/-- Where no copy stands, nothing is left when something was moved away or nothing was there. -/
theorem Aside.get?_eq_none_iff (h : Aside t u moves) (hl : ∀ m ∈ moves, l ≠ m.2) :
    u.get? l = none ↔ (∃ m ∈ moves, m.1 = l) ∨ t.get? l = none := by
  by_cases hmoved : ∃ m ∈ moves, m.1 = l
  · obtain ⟨m, hm, rfl⟩ := hmoved
    simp only [h.vacated m hm, true_iff]
    exact .inl ⟨m, hm, rfl⟩
  · have hx : ∀ m ∈ moves, l ≠ m.1 ∧ l ≠ m.2 :=
      fun m hm => ⟨fun heq => hmoved ⟨m, hm, heq.symm⟩, hl m hm⟩
    rw [h.elsewhere l hx]
    simp [hmoved]

theorem Aside.moved (h : Aside t u moves) (hl : l ≠ []) (hc : c ≠ [])
    (hfile : u.get? l = some (.file content)) (hne : l ≠ c)
    (hlcopy : ∀ m ∈ moves, l ≠ m.2) (hctarget : ∀ m ∈ moves, c ≠ m.1)
    (hccopy : ∀ m ∈ moves, c ≠ m.2) :
    Aside t ((u.erase l).set c (.file content)) (moves ++ [(l, c)]) := by
  have hltarget : ∀ m ∈ moves, l ≠ m.1 := by
    rintro m hm rfl
    rw [h.vacated m hm] at hfile
    cases hfile
  have hget (x : Location) := @get?_move u l c content x hl hc
  constructor
  · simp only [List.pairwise_append, List.pairwise_singleton, List.mem_singleton, forall_eq]
    exact ⟨h.apart, trivial, fun m hm => ⟨(hltarget m hm).symm, (hccopy m hm).symm⟩⟩
  · have hold : ∀ m ∈ moves, ∀ m' ∈ moves ++ [(l, c)], m.1 ≠ m'.2 := by
      intro m hm
      simp only [List.forall_mem_append, List.forall_mem_singleton]
      exact ⟨h.disjoint m hm, (hctarget m hm).symm⟩
    have hnew : ∀ m' ∈ moves ++ [(l, c)], l ≠ m'.2 := by
      simp only [List.forall_mem_append, List.forall_mem_singleton]
      exact ⟨hlcopy, hne⟩
    simp only [List.forall_mem_append, List.forall_mem_singleton] at hold hnew ⊢
    exact ⟨hold, hnew⟩
  · simp only [List.forall_mem_append, List.forall_mem_singleton, hget]
    refine ⟨fun m hm => ?_, content, ?_, if_pos trivial⟩
    · rw [if_neg (hccopy m hm).symm, if_neg (hlcopy m hm).symm]
      exact h.copied m hm
    · rw [← h.elsewhere l fun m hm => ⟨hltarget m hm, hlcopy m hm⟩, hfile]
  · simp only [List.forall_mem_append, List.forall_mem_singleton, hget]
    refine ⟨fun m hm => ?_, ?_⟩
    · rw [if_neg (hctarget m hm).symm, if_neg (hltarget m hm).symm, h.vacated m hm]
    · rw [if_neg hne, if_pos trivial]
  · simp only [List.forall_mem_append, List.forall_mem_singleton, hget]
    intro x hx
    rw [if_neg hx.2.2, if_neg hx.2.1, h.elsewhere x hx.1]

/-- The first move is taken back; its copy is gone. -/
theorem Aside.restored {m : Location × Location} (h : Aside t u (m :: moves)) (hl : m.1 ≠ [])
    (hc : m.2 ≠ []) (hfile : u.get? m.2 = some (.file content)) :
    Aside (t.erase m.2) ((u.erase m.2).set m.1 (.file content)) moves := by
  have hget (x : Location) := @get?_move u m.2 m.1 content x hc hl
  have hcons {P : Location × Location → Prop} (hP : ∀ m' ∈ m :: moves, P m') :
      P m ∧ ∀ m' ∈ moves, P m' := List.forall_mem_cons.mp hP
  obtain ⟨hapart, hpairwise⟩ := List.pairwise_cons.mp h.apart
  obtain ⟨hmdisjoint, hdisjoint⟩ := hcons h.disjoint
  obtain ⟨hmcopied, hcopied⟩ := hcons h.copied
  obtain ⟨-, hvacated⟩ := hcons h.vacated
  constructor
  · exact hpairwise
  · exact fun m' hm' => (hcons (hdisjoint m' hm')).2
  · intro m' hm'
    rw [hget, get?_erase hc, if_neg (hdisjoint m' hm' m List.mem_cons_self),
      if_neg (hmdisjoint m' (List.mem_cons_of_mem m hm')).symm, if_neg (hapart m' hm').2.symm]
    exact hcopied m' hm'
  · intro m' hm'
    rw [hget, if_neg (hapart m' hm').1.symm, if_neg (hdisjoint m' hm' m List.mem_cons_self)]
    exact hvacated m' hm'
  · intro x hx
    rw [hget, get?_erase hc]
    by_cases htarget : x = m.1
    · subst htarget
      obtain ⟨content', ht, hu⟩ := hmcopied
      rw [hfile] at hu
      rw [if_pos rfl, if_neg (hmdisjoint m List.mem_cons_self), ht, hu]
    · rw [if_neg htarget]
      by_cases hcopy : x = m.2
      · rw [if_pos hcopy, if_pos hcopy]
      · rw [if_neg hcopy, if_neg hcopy]
        exact h.elsewhere x (List.forall_mem_cons.mpr ⟨⟨htarget, hcopy⟩, hx⟩)

/-- A file that has nothing to do with the moves may be taken away. -/
theorem Aside.erase (h : Aside t u moves) (hl : l ≠ [])
    (hne : ∀ m ∈ moves, l ≠ m.1 ∧ l ≠ m.2) : Aside (t.erase l) (u.erase l) moves := by
  constructor
  · exact h.apart
  · exact h.disjoint
  · intro m hm
    rw [get?_erase hl, get?_erase hl, if_neg (hne m hm).1.symm, if_neg (hne m hm).2.symm]
    exact h.copied m hm
  · intro m hm
    rw [get?_erase hl, if_neg (hne m hm).1.symm, h.vacated m hm]
  · intro x hx
    rw [get?_erase hl, get?_erase hl, h.elsewhere x hx]

/-! ### Undoing -/

variable {source : Path} {s : FileTree} {backups : List Backup}

/-- A move that was made for a backup. -/
structure Located (source : Path) (s : FileTree) (b : Backup) (m : Location × Location) : Prop where
  target_mem : b.target ∈ source.pair
  backup : b.target.backup? = some b.copy
  target : s.Reaches b.target m.1
  copy : s.Reaches b.copy m.2

/-- Putting the previous files back leaves everything as it was before they were moved aside. -/
theorem kept_restore (h : Aside t u moves)
    (hlocated : List.Forall₂ (Located source s) backups moves) (hsame : SameDirectories s u) :
    Kept (s.Hidden source) t ((restore backups).final u).1 := by
  induction hlocated generalizing t u with
  | nil => exact .of_get?_eq fun x => h.elsewhere x (by simp)
  | @cons b m rest moves hb _ ih =>
    obtain ⟨content, -, hfile⟩ := h.copied m List.mem_cons_self
    have hcopy := hb.copy.of_sameDirectories hsame
    have htarget := hb.target.of_sameDirectories hsame
    have hperform : u.perform (.move b.copy b.target) =
        .ok ((u.erase m.2).set m.1 (.file content)) := by
      refine perform_move_eq_ok_iff.mpr ⟨m.2, m.1, content, hcopy, htarget, hfile, ?_, rfl⟩
      rw [h.vacated m List.mem_cons_self]
      simp
    have houtcome : (outcome u (.move b.copy b.target)).1 =
        (u.erase m.2).set m.1 (.file content) := by rw [outcome, hperform]
    rw [restore_triesEach.final_cons, houtcome]
    have hhidden : s.Hidden source m.2 := hb.copy.hidden_of_backup hb.target_mem hb.backup
    refine (kept_erase hb.copy.ne_nil hhidden).trans ?_
    exact ih (h.restored hb.target.ne_nil hb.copy.ne_nil hfile)
      (hsame.trans (sameDirectories_of_perform hperform))

/-! ### Moving the previous files aside -/

/-- A placement whose staging file can be written. -/
structure Staged (source : Path) (s : FileTree) (p : Placement) : Prop where
  target_mem : p.target ∈ source.pair
  staging : p.target.staging? = some p.staged
  reaches : ∃ x, s.Reaches p.staged x

theorem exists_located (h : List.Forall₂ (Located source s) backups moves)
    {m : Location × Location} (hm : m ∈ moves) : ∃ b, Located source s b m := by
  obtain ⟨b, -, hb⟩ := exists_mem_left_of_forall₂ h hm
  exact ⟨b, hb⟩

theorem ne_copy_of_target {target : Path} {m : Location × Location} {b : Backup}
    (htarget : target ∈ source.pair) (hl : s.Reaches target l) (hb : Located source s b m) :
    l ≠ m.2 := by
  rintro rfl
  exact hl.not_hidden htarget (hb.copy.hidden_of_backup hb.target_mem hb.backup)

theorem Aside.moved_of_located {b : Backup} (h : Aside t u moves)
    (hlocated : List.Forall₂ (Located source s) backups moves) (hb : Located source s b (l, c))
    (hfile : u.get? l = some (.file content)) :
    Aside t ((u.erase l).set c (.file content)) (moves ++ [(l, c)]) := by
  refine h.moved hb.target.ne_nil hb.copy.ne_nil hfile ?_ ?_ ?_ ?_
  · exact ne_copy_of_target hb.target_mem hb.target hb
  · intro m hm
    obtain ⟨b', hb'⟩ := exists_located hlocated hm
    exact ne_copy_of_target hb.target_mem hb.target hb'
  · intro m hm
    obtain ⟨b', hb'⟩ := exists_located hlocated hm
    exact (ne_copy_of_target hb'.target_mem hb'.target hb).symm
  · intro m hm hcopy
    obtain ⟨b', hb'⟩ := exists_located hlocated hm
    -- Where the copies are the same the targets are, but this one still holds its file.
    have htarget := (Reaches.role_eq_iff .backup hb.target_mem hb'.target_mem hb.backup hb'.backup
      hb.target hb'.target hb.copy hb'.copy).mp hcopy
    simp only at htarget
    rw [htarget, h.vacated m hm] at hfile
    cases hfile

/-- What is known when all previous files have been moved aside: of each placement the target was
moved or nothing was there. -/
def AllAside (source : Path) (s t w : FileTree) (ps : List Placement) (backups : List Backup)
    (moves : List (Location × Location)) : Prop :=
  Aside t w moves ∧ List.Forall₂ (Located source s) backups moves ∧
    ∀ p ∈ ps, ∀ x, s.Reaches p.target x → (∃ m ∈ moves, m.1 = x) ∨ t.get? x = none

theorem kept_rollBack_nil (h : Aside t u moves)
    (hlocated : List.Forall₂ (Located source s) backups moves) (hsame : SameDirectories s u) :
    Kept (s.Hidden source) t ((rollBack [] backups).final u).1 := by
  rw [rollBack, final_bind, discard, final_pure]
  exact kept_restore h hlocated hsame

/-- How moving aside ends: with all previous files aside, or with everything as it was. -/
def AsideOrKept (source : Path) (s t : FileTree) (ps : List Placement)
    (moves : List (Location × Location)) : FileTree × Except FileFailure (List Backup) → Prop
  | (w, .error _) => Kept (s.Hidden source) t w
  | (w, .ok backups) => ∃ moves', moves ⊆ moves' ∧ AllAside source s t w ps backups moves'

theorem AsideOrKept.cons {p : Placement} {ps : List Placement}
    {r : FileTree × Except FileFailure (List Backup)} {moves' : List (Location × Location)}
    (h : AsideOrKept source s t ps moves' r) (hmoves : moves ⊆ moves')
    (hp : ∀ x, s.Reaches p.target x → (∃ m ∈ moves', m.1 = x) ∨ t.get? x = none) :
    AsideOrKept source s t (p :: ps) moves r := by
  obtain ⟨w, e | backups⟩ := r
  · exact h
  · obtain ⟨moves'', hsubset, haside, hlocated, hps⟩ := h
    refine ⟨moves'', fun m hm => hsubset (hmoves hm), haside, hlocated, ?_⟩
    refine List.forall_mem_cons.mpr ⟨fun x hx => ?_, hps⟩
    rcases hp x hx with ⟨m, hm, heq⟩ | hnone
    · exact .inl ⟨m, hsubset hm, heq⟩
    · exact .inr hnone

theorem final_setAside_cons {p : Placement} {rest : List Placement} {copy : Path}
    (hcopy : p.target.backup? = some copy) :
    (setAside backups (p :: rest)).final u =
      match outcome u (.move p.target copy) with
      | (u', .ok ()) => (setAside (backups ++ [⟨copy, p.target⟩]) rest).final u'
      | (u', .error (.system .notFound)) => (setAside backups rest).final u'
      | (u', .error e) => (((rollBack [] backups).final u').1, .error e) := by
  rw [setAside, hcopy]
  dsimp only
  rw [final_bind, final_run]
  rcases outcome u (.move p.target copy) with ⟨u', ((_ | _ | _ | _) | _ | _ | _ | _) | _⟩
  all_goals first | rfl | exact final_bind _ _

/-- Moving the previous files aside either puts all of them aside or leaves everything as it was. -/
theorem setAside_spec {ps : List Placement} (hps : ∀ p ∈ ps, Staged source s p)
    (h : Aside t u moves) (hlocated : List.Forall₂ (Located source s) backups moves)
    (hsame : SameDirectories s u) :
    AsideOrKept source s t ps moves ((setAside backups ps).final u) := by
  induction ps generalizing u backups moves with
  | nil => exact ⟨moves, List.Subset.refl moves, h, hlocated, by simp⟩
  | cons p rest ih =>
    obtain ⟨hp, hrest⟩ := List.forall_mem_cons.mp hps
    obtain ⟨copy, hcopy⟩ := Path.exists_backup?_of_staging? hp.staging
    rw [final_setAside_cons hcopy]
    rcases outcome_cases u (.move p.target copy) with
      ⟨u', hperform, houtcome⟩ | ⟨e, hperform, houtcome⟩
    · rw [houtcome]
      obtain ⟨l, c, content, hl, hc, hfile, -, rfl⟩ := perform_move_eq_ok_iff.mp hperform
      have hl := hl.of_sameDirectories hsame.symm
      have hb : Located source s ⟨copy, p.target⟩ (l, c) :=
        ⟨hp.target_mem, hcopy, hl, hc.of_sameDirectories hsame.symm⟩
      have hrun := ih hrest (h.moved_of_located hlocated hb hfile)
        (List.rel_append hlocated (.cons hb .nil))
        (hsame.trans (sameDirectories_of_perform hperform))
      refine hrun.cons (List.subset_append_left _ _) fun x hx => .inl ⟨(l, c), by simp, ?_⟩
      exact hl.eq hx
    · rw [houtcome]
      split
      · rename_i _ _ heq
        cases heq
      · rename_i heq
        cases heq
        refine (ih hrest h hlocated hsame).cons (List.Subset.refl _) fun x hx => ?_
        -- The target could not be found although it can be reached, so nothing stands there.
        obtain ⟨_, hstaged⟩ := hp.reaches
        obtain ⟨c, hc⟩ := hstaged.exists_backup hp.staging hcopy
        refine (h.get?_eq_none_iff fun m hm => ?_).mp
          (get?_eq_none_of_move_notFound (hx.of_sameDirectories hsame)
            (hc.of_sameDirectories hsame) hperform)
        obtain ⟨b, hb⟩ := exists_located hlocated hm
        exact ne_copy_of_target hp.target_mem hx hb
      · rename_i heq
        cases heq
        exact kept_rollBack_nil h hlocated hsame

end PairWriter
end CanopenTables
