import CanopenTables.Proofs.FilesAside

/-!
# Both files or neither

A run that succeeds has put the new source and the new header in their places.  A run that fails
leaves everything as it was, apart from hidden siblings that it may have removed
(`PairWriter.write_replaces_or_preserves`).

What carries the proof is the state while new files are being placed: without them the tree is one
where the previous files are aside (`PairWriter.Placed`), so that undoing leads back from there.
-/

namespace CanopenTables.PairWriter

open FileTree Script

variable {t u v w s : FileTree} {l : Location} {content : String}
  {moves : List (Location × Location)} {source : Path} {backups : List Backup}

/-! ### Placing the new files -/

variable {base : FileTree} {placed : List Location} {paths : List Path} {p q : Placement}

/-- While new files are being placed: without them the tree is one where the previous files are
aside, and nothing stands in their places. -/
structure Placed (hidden : Location → Prop) (t base v w : FileTree)
    (moves : List (Location × Location)) (placed : List Location) : Prop where
  kept : Kept hidden t base
  aside : Aside base v moves
  free : ∀ l ∈ placed, ¬hidden l ∧ v.get? l = none
  file : ∀ l ∈ placed, ∃ content, w.get? l = some (.file content)
  elsewhere : ∀ x, x ∉ placed → w.get? x = v.get? x

/-- A staging file is no copy of a previous file, and neither is it a target. -/
theorem staging_ne_move (hp : Staged source s p) (hx : s.Reaches p.staged l)
    {m : Location × Location} {b : Backup} (hb : Located source s b m) : l ≠ m.1 ∧ l ≠ m.2 := by
  refine ⟨?_, hx.staging_ne_backup hp.target_mem hb.target_mem hp.staging hb.backup hb.copy⟩
  rintro rfl
  exact hb.target.not_hidden hb.target_mem (hx.hidden_of_staging hp.target_mem hp.staging)

/-- One more staging file takes the place of its target. -/
theorem Placed.push {x : Location} (h : Placed (s.Hidden source) t base v w moves placed)
    (hlocated : List.Forall₂ (Located source s) backups moves) (hp : Staged source s p)
    (hx : s.Reaches p.staged x) (hl : s.Reaches p.target l) (hfree : v.get? l = none) :
    Placed (s.Hidden source) t (base.erase x) (v.erase x) ((w.erase x).set l (.file content)) moves
      (placed ++ [l]) := by
  have hhidden := hx.hidden_of_staging hp.target_mem hp.staging
  have hvisible := hl.not_hidden hp.target_mem
  have hget (y : Location) := @get?_move w x l content y hx.ne_nil hl.ne_nil
  constructor
  · exact h.kept.trans (kept_erase hx.ne_nil hhidden)
  · refine h.aside.erase hx.ne_nil fun m hm => ?_
    obtain ⟨b, hb⟩ := exists_located hlocated hm
    exact staging_ne_move hp hx hb
  · simp only [List.forall_mem_append, List.forall_mem_singleton, get?_erase hx.ne_nil]
    refine ⟨fun l' hl' => ⟨(h.free l' hl').1, ?_⟩, hvisible, ?_⟩
    · rw [(h.free l' hl').2, ite_self]
    · rw [hfree, ite_self]
  · simp only [List.forall_mem_append, List.forall_mem_singleton, hget]
    refine ⟨fun l' hl' => ?_, content, if_pos trivial⟩
    by_cases hsame : l' = l
    · exact ⟨content, if_pos hsame⟩
    · have hne : l' ≠ x := by
        rintro rfl
        exact (h.free l' hl').1 hhidden
      rw [if_neg hsame, if_neg hne]
      exact h.file l' hl'
  · intro y hy
    rw [List.mem_append, List.mem_singleton, not_or] at hy
    rw [hget, get?_erase hx.ne_nil, if_neg hy.2, h.elsewhere y hy.1]

/-- Undoing while new files are being placed leaves everything as it was. -/
theorem kept_rollBack (h : Placed (s.Hidden source) t base v w moves placed)
    (hplaced : List.Forall₂ s.Reaches paths placed)
    (hlocated : List.Forall₂ (Located source s) backups moves) (hsame : SameDirectories s w) :
    Kept (s.Hidden source) t ((rollBack paths backups).final w).1 := by
  rw [rollBack, final_bind]
  have hdiscarded (x : Location) : ((discard paths).final w).1.get? x = v.get? x := by
    rw [get?_discard]
    split
    · rename_i hx
      obtain ⟨⟨path, hpath, hreaches⟩, -⟩ := hx
      have hflip := @List.Forall₂.flip _ _ (fun l path => s.Reaches path l) _ _ hplaced
      obtain ⟨l, hl, hpl⟩ := exists_mem_left_of_forall₂ hflip hpath
      have heq := hpl.eq (hreaches.of_sameDirectories hsame.symm)
      rw [← heq, (h.free l hl).2]
    · rename_i hx
      refine h.elsewhere x fun hmem => hx ?_
      obtain ⟨path, hpath, hpx⟩ := exists_mem_left_of_forall₂ hplaced hmem
      obtain ⟨content, hfile⟩ := h.file x hmem
      exact ⟨⟨path, hpath, hpx.of_sameDirectories hsame⟩, by simp [hfile]⟩
  exact h.kept.trans (kept_restore (h.aside.congr hdiscarded) hlocated
    (hsame.trans (sameDirectories_final _ w)))

theorem final_place_cons {rest : List Placement} :
    (place backups paths (p :: rest)).final w =
      match outcome w (.move p.staged p.target) with
      | (w', .ok ()) => (place backups (paths ++ [p.target]) rest).final w'
      | (w', .error e) => (((rollBack paths backups).final w').1, .error e) := by
  rw [place, final_bind, final_run]
  rcases outcome w (.move p.staged p.target) with ⟨w', e | _⟩
  · exact final_bind _ _
  · rfl

/-- When a new file cannot take its place, everything is left as it was. -/
theorem kept_of_place_error {ps : List Placement} (hps : ∀ p ∈ ps, Staged source s p)
    (hfree : ∀ p ∈ ps, ∀ l, s.Reaches p.target l → v.get? l = none)
    (h : Placed (s.Hidden source) t base v w moves placed)
    (hplaced : List.Forall₂ s.Reaches paths placed)
    (hlocated : List.Forall₂ (Located source s) backups moves) (hsame : SameDirectories s w)
    {e : FileFailure} (herror : ((place backups paths ps).final w).2 = .error e) :
    Kept (s.Hidden source) t ((place backups paths ps).final w).1 := by
  induction ps generalizing base v w placed paths with
  | nil => cases herror
  | cons p rest ih =>
    obtain ⟨hp, hrest⟩ := List.forall_mem_cons.mp hps
    obtain ⟨hpfree, hrestfree⟩ := List.forall_mem_cons.mp hfree
    rw [final_place_cons] at herror ⊢
    rcases outcome_cases w (.move p.staged p.target) with
      ⟨w', hperform, houtcome⟩ | ⟨e', -, houtcome⟩
    · rw [houtcome] at herror ⊢
      obtain ⟨x, l, content, hx, hl, -, -, rfl⟩ := perform_move_eq_ok_iff.mp hperform
      have hx := hx.of_sameDirectories hsame.symm
      have hl := hl.of_sameDirectories hsame.symm
      refine ih hrest (fun q hq l' hl' => ?_) (h.push hlocated hp hx hl (hpfree l hl))
        (List.rel_append hplaced (.cons hl .nil))
        (hsame.trans (sameDirectories_of_perform hperform)) herror
      rw [get?_erase hx.ne_nil, hrestfree q hq l' hl', ite_self]
    · rw [houtcome]
      exact kept_rollBack h hplaced hlocated hsame

theorem exists_performs_of_place_ok (h : ((place backups [] [p, q]).final w).2 = .ok ()) :
    ∃ w', w.perform (.move p.staged p.target) = .ok w' ∧
      w'.perform (.move q.staged q.target) = .ok ((place backups [] [p, q]).final w).1 := by
  rw [final_place_cons] at h ⊢
  rcases outcome_cases w (.move p.staged p.target) with ⟨w', hp, houtcome⟩ | ⟨e, -, houtcome⟩
  · rw [houtcome] at h ⊢
    dsimp only at h ⊢
    rw [final_place_cons] at h ⊢
    rcases outcome_cases w' (.move q.staged q.target) with ⟨w'', hq, houtcome'⟩ | ⟨e, -, houtcome'⟩
    · rw [houtcome']
      exact ⟨w', hp, hq⟩
    · rw [houtcome'] at h
      cases h
  · rw [houtcome] at h
    cases h

/-! ### Committing -/

theorem final_refuseDirectories (ps : List Placement) :
    ((refuseDirectories ps).final t).1 = t := by
  induction ps with
  | nil => rfl
  | cons p rest ih =>
    rw [refuseDirectories, final_bind, final_isDirectory]
    dsimp only
    split
    · rfl
    · exact ih

theorem final_commit (ps : List Placement) :
    (commit ps).final t =
      match ((refuseDirectories ps).final t).2 with
      | .error e => (t, .error e)
      | .ok () =>
        match (setAside [] ps).final t with
        | (u, .error e) => (u, .error e)
        | (u, .ok backups) =>
          match (place backups [] ps).final u with
          | (w, .error e) => (w, .error e)
          | (w, .ok ()) => (((dropBackups backups).final w).1, .ok ()) := by
  rw [commit, final_bind, final_refuseDirectories]
  rcases ((refuseDirectories ps).final t).2 with e | _
  · rfl
  · dsimp only
    rw [final_bind]
    rcases (setAside [] ps).final t with ⟨u, e | backups⟩
    · rfl
    · dsimp only
      rw [final_bind]
      rcases (place backups [] ps).final u with ⟨w, e | _⟩
      · rfl
      · exact final_bind _ _

theorem Placed.nil (h : Aside t u moves) (hidden : Location → Prop) :
    Placed hidden t t u u moves [] where
  kept := .refl t
  aside := h
  free := by simp
  file := by simp
  elsewhere x _ := rfl

/-- When all previous files are aside, nothing stands where a new file is to be placed. -/
theorem AllAside.free {ps : List Placement} (h : AllAside source s t u ps backups moves)
    (hps : ∀ p ∈ ps, Staged source s p) :
    ∀ p ∈ ps, ∀ l, s.Reaches p.target l → u.get? l = none := by
  obtain ⟨haside, hlocated, hmoved⟩ := h
  intro p hp l hl
  refine (haside.get?_eq_none_iff fun m hm => ?_).mpr (hmoved p hp l hl)
  obtain ⟨b, hb⟩ := exists_located hlocated hm
  exact ne_copy_of_target (hps p hp).target_mem hl hb

variable {ps : List Placement}

/-- A commit that fails leaves everything as it was. -/
theorem kept_of_commit_error (hps : ∀ p ∈ ps, Staged source s p) (hsame : SameDirectories s t)
    {e : FileFailure} (herror : ((commit ps).final t).2 = .error e) :
    Kept (s.Hidden source) t ((commit ps).final t).1 := by
  rw [final_commit] at herror ⊢
  generalize ((refuseDirectories ps).final t).2 = refused at herror ⊢
  rcases refused with e' | _
  · exact .refl t
  · dsimp only at herror ⊢
    have haside := setAside_spec hps (.nil fun _ => rfl) .nil hsame
    have hsameAside := hsame.trans (sameDirectories_final (setAside [] ps) t)
    generalize (setAside [] ps).final t = aside at haside hsameAside herror ⊢
    rcases aside with ⟨u, e' | backups⟩
    · exact haside
    · obtain ⟨moves, -, hall⟩ := haside
      dsimp only at herror ⊢
      have hkept (e' : FileFailure) (h : ((place backups [] ps).final u).2 = .error e') :
          Kept (s.Hidden source) t ((place backups [] ps).final u).1 :=
        kept_of_place_error hps (hall.free hps) (.nil hall.1 _) .nil hall.2.1 hsameAside h
      generalize (place backups [] ps).final u = placed at hkept herror ⊢
      rcases placed with ⟨w, e' | _⟩
      · exact hkept e' rfl
      · cases herror

/-- A commit of two files that succeeds: the previous files were moved aside, both new files took
their places, and the copies of the previous ones were removed. -/
theorem exists_of_commit_ok (hps : ∀ r ∈ [p, q], Staged source s r) (hsame : SameDirectories s t)
    (hok : ((commit [p, q]).final t).2 = .ok ()) :
    ∃ u w w' backups moves, AllAside source s t u [p, q] backups moves ∧
      SameDirectories s u ∧ u.perform (.move p.staged p.target) = .ok w ∧
      w.perform (.move q.staged q.target) = .ok w' ∧
      ((commit [p, q]).final t).1 = ((dropBackups backups).final w').1 := by
  rw [final_commit] at hok ⊢
  generalize ((refuseDirectories [p, q]).final t).2 = refused at hok ⊢
  rcases refused with e | _
  · cases hok
  · dsimp only at hok ⊢
    have haside := setAside_spec hps (.nil fun _ => rfl) .nil hsame
    have hsameAside := hsame.trans (sameDirectories_final (setAside [] [p, q]) t)
    generalize (setAside [] [p, q]).final t = aside at haside hsameAside hok ⊢
    rcases aside with ⟨u, e | backups⟩
    · cases hok
    · obtain ⟨moves, -, hall⟩ := haside
      dsimp only at hok ⊢
      have hplace := @exists_performs_of_place_ok u backups p q
      generalize (place backups [] [p, q]).final u = placed at hplace hok ⊢
      rcases placed with ⟨w', e | _⟩
      · cases hok
      · obtain ⟨w, hp, hq⟩ := hplace rfl
        exact ⟨u, w, w', backups, moves, hall, hsameAside, hp, hq, rfl⟩

/-! ### Whole runs -/

/-- What a successful run leaves behind: both targets hold the new documents, no staging file is
left, no backup is left of a target that existed, and all else stands as before. -/
structure Replaced (source : Path) (files : DocumentPair) (t u : FileTree) : Prop where
  source_content : u.content? source = some files.source
  header_content : u.content? source.header = some files.header
  staging_gone : ∀ p ∈ source.pair, ∃ staged x, p.staging? = some staged ∧
    t.Reaches staged x ∧ u.get? x = none
  backup_gone : ∀ p ∈ source.pair, ∃ copy l c, p.backup? = some copy ∧
    t.Reaches p l ∧ t.Reaches copy c ∧ (t.get? l ≠ none → u.get? c = none)
  elsewhere : ∀ x, ¬t.Hidden source x → (∀ p ∈ source.pair, ¬t.Reaches p x) →
    u.get? x = t.get? x

/-- What a failed run leaves behind: all stands as before, except that hidden siblings may be gone.
Neither of the targets is such a sibling. -/
structure Preserved (source : Path) (t u : FileTree) : Prop where
  kept : Kept (t.Hidden source) t u
  targets : ∀ p ∈ source.pair, ∀ l, t.Reaches p l → u.get? l = t.get? l

variable {files : DocumentPair} {sourceStaged headerStaged : Path}

theorem preserved_of_kept (h : Kept (t.Hidden source) t u) : Preserved source t u where
  kept := h
  targets _ hp l hl := (h l).resolve_right fun hidden => hl.not_hidden hp hidden.1

/-- After the staging files were discarded, only hidden locations may be different. -/
theorem kept_discard (hsame : SameDirectories t w)
    (hhidden : ∀ p ∈ paths, ∀ x, t.Reaches p x → t.Hidden source x)
    (h : ∀ x, (∀ p ∈ paths, ¬t.Reaches p x) →
      w.get? x = t.get? x ∨ (t.Hidden source x ∧ w.get? x = none)) :
    Kept (t.Hidden source) t ((discard paths).final w).1 := by
  intro x
  rw [get?_discard]
  by_cases hx : ∃ p ∈ paths, t.Reaches p x
  · obtain ⟨p, hp, hreaches⟩ := hx
    have hw : ∃ p ∈ paths, w.Reaches p x := ⟨p, hp, hreaches.of_sameDirectories hsame⟩
    by_cases hdirectory : w.get? x = some .directory
    · -- A directory that blocks a staging file stood there before.
      rw [if_neg (fun h => h.2 hdirectory), hdirectory, (hsame x).mpr hdirectory]
      exact .inl rfl
    · rw [if_pos ⟨hw, hdirectory⟩]
      exact .inr ⟨hhidden p hp x hreaches, rfl⟩
  · have hw : ¬∃ p ∈ paths, w.Reaches p x := by
      rintro ⟨p, hp, hreaches⟩
      exact hx ⟨p, hp, hreaches.of_sameDirectories hsame.symm⟩
    rw [if_neg fun h => hw h.1]
    exact h x fun p hp hreaches => hx ⟨p, hp, hreaches⟩

theorem final_stage (files : DocumentPair) :
    (stage sourceStaged headerStaged files).final t =
      match outcome t (.put sourceStaged files.source) with
      | (u, .error e) => (u, .error e)
      | (u, .ok ()) => outcome u (.put headerStaged files.header) := by
  rw [stage, final_bind, final_run]
  rcases outcome t (.put sourceStaged files.source) with ⟨u, e | _⟩
  · rfl
  · exact final_run _

theorem get?_stage {x : Location} (hsource : ¬t.Reaches sourceStaged x)
    (hheader : ¬t.Reaches headerStaged x) :
    ((stage sourceStaged headerStaged files).final t).1.get? x = t.get? x := by
  have hsame := sameDirectories_outcome t (.put sourceStaged files.source)
  have hput := @get?_outcome t (.put sourceStaged files.source) x
    (by simpa [FileCommand.paths] using hsource)
  rw [final_stage]
  generalize outcome t (.put sourceStaged files.source) = staged at hsame hput ⊢
  rcases staged with ⟨u, e | _⟩
  · exact hput
  · have hheader' : ¬u.Reaches headerStaged x :=
      fun h => hheader (h.of_sameDirectories hsame.symm)
    exact (get?_outcome (by simpa [FileCommand.paths] using hheader')).trans hput

theorem exists_performs_of_stage_ok
    (h : ((stage sourceStaged headerStaged files).final t).2 = .ok ()) :
    ∃ u, t.perform (.put sourceStaged files.source) = .ok u ∧
      u.perform (.put headerStaged files.header) =
        .ok ((stage sourceStaged headerStaged files).final t).1 := by
  rw [final_stage] at h ⊢
  rcases outcome_cases t (.put sourceStaged files.source) with
    ⟨u, hsource, houtcome⟩ | ⟨e, -, houtcome⟩
  · rw [houtcome] at h ⊢
    dsimp only at h ⊢
    rcases outcome_cases u (.put headerStaged files.header) with
      ⟨w, hheader, houtcome'⟩ | ⟨e, -, houtcome'⟩
    · rw [houtcome']
      exact ⟨u, hsource, hheader⟩
    · rw [houtcome'] at h
      cases h
  · rw [houtcome] at h
    cases h

/-- The two placements of a run. -/
def placements (source sourceStaged headerStaged : Path) : List Placement :=
  [⟨sourceStaged, source⟩, ⟨headerStaged, source.header⟩]

theorem final_writeStaged :
    (writeStaged source source.header sourceStaged headerStaged files).final t =
      match (stage sourceStaged headerStaged files).final t with
      | (u, .error e) => (((discard [sourceStaged, headerStaged]).final u).1, .error e)
      | (u, .ok ()) =>
        match (commit (placements source sourceStaged headerStaged)).final u with
        | (w, .error e) => (((discard [sourceStaged, headerStaged]).final w).1, .error e)
        | (w, .ok ()) => (w, .ok ()) := by
  rw [writeStaged, final_bind]
  rcases (stage sourceStaged headerStaged files).final t with ⟨u, e | _⟩
  · exact final_bind _ _
  · dsimp only
    rw [final_bind, ← placements]
    rcases (commit (placements source sourceStaged headerStaged)).final u with ⟨w, e | _⟩
    · exact final_bind _ _
    · rfl

theorem staged_placements (hsource : source.staging? = some sourceStaged)
    (hheader : source.header.staging? = some headerStaged)
    (h : ((stage sourceStaged headerStaged files).final t).2 = .ok ()) :
    ∀ p ∈ placements source sourceStaged headerStaged, Staged source t p := by
  obtain ⟨u, hput, hput'⟩ := exists_performs_of_stage_ok h
  obtain ⟨x, hx, -, -⟩ := perform_put_eq_ok_iff.mp hput
  obtain ⟨y, hy, -, -⟩ := perform_put_eq_ok_iff.mp hput'
  have hy := hy.of_sameDirectories (sameDirectories_of_perform hput).symm
  intro p hp
  rcases List.mem_pair.mp hp with rfl | rfl
  · exact ⟨Path.source_mem_pair, hsource, x, hx⟩
  · exact ⟨Path.header_mem_pair, hheader, y, hy⟩

theorem kept_of_writeStaged_error (hsource : source.staging? = some sourceStaged)
    (hheader : source.header.staging? = some headerStaged) {e : FileFailure}
    (h : ((writeStaged source source.header sourceStaged headerStaged files).final t).2 =
      .error e) :
    Kept (t.Hidden source) t
      ((writeStaged source source.header sourceStaged headerStaged files).final t).1 := by
  have hhidden : ∀ p ∈ [sourceStaged, headerStaged], ∀ x, t.Reaches p x → t.Hidden source x := by
    intro p hp x hx
    rcases List.mem_pair.mp hp with rfl | rfl
    · exact hx.hidden_of_staging Path.source_mem_pair hsource
    · exact hx.hidden_of_staging Path.header_mem_pair hheader
  have hunstaged {x : Location} (hx : ∀ p ∈ [sourceStaged, headerStaged], ¬t.Reaches p x) :
      ((stage sourceStaged headerStaged files).final t).1.get? x = t.get? x :=
    get?_stage (hx _ (by simp)) (hx _ (by simp))
  have hsame := sameDirectories_final (stage sourceStaged headerStaged files) t
  have hstaged := @staged_placements t source files sourceStaged headerStaged hsource hheader
  rw [final_writeStaged] at h ⊢
  generalize (stage sourceStaged headerStaged files).final t = staged at *
  rcases staged with ⟨u, e' | _⟩
  · exact kept_discard hsame hhidden fun x hx => .inl (hunstaged hx)
  · have hcommit {e' : FileFailure} :=
      @kept_of_commit_error u t source (placements source sourceStaged headerStaged)
        (hstaged rfl) hsame e'
    have hsameCommit := sameDirectories_final
      (commit (placements source sourceStaged headerStaged)) u
    dsimp only at h ⊢
    generalize (commit (placements source sourceStaged headerStaged)).final u = committed at *
    rcases committed with ⟨w, e' | _⟩
    · refine kept_discard (hsame.trans hsameCommit) hhidden fun x hx => ?_
      rw [← hunstaged hx]
      exact hcommit rfl x
    · cases h

/-- A run that succeeds: both staging files were written, the previous files were moved aside, both
new files took their places, and the copies of the previous ones were removed. -/
theorem exists_of_writeStaged_ok (hsource : source.staging? = some sourceStaged)
    (hheader : source.header.staging? = some headerStaged)
    (h : ((writeStaged source source.header sourceStaged headerStaged files).final t).2 =
      .ok ()) :
    ∃ t₁ t₂ u w w' backups moves, t.perform (.put sourceStaged files.source) = .ok t₁ ∧
      t₁.perform (.put headerStaged files.header) = .ok t₂ ∧
      AllAside source t t₂ u (placements source sourceStaged headerStaged) backups moves ∧
      SameDirectories t u ∧ u.perform (.move sourceStaged source) = .ok w ∧
      w.perform (.move headerStaged source.header) = .ok w' ∧
      ((writeStaged source source.header sourceStaged headerStaged files).final t).1 =
        ((dropBackups backups).final w').1 := by
  have hsame := sameDirectories_final (stage sourceStaged headerStaged files) t
  have hstaged := @staged_placements t source files sourceStaged headerStaged hsource hheader
  have hputs := @exists_performs_of_stage_ok t files sourceStaged headerStaged
  rw [final_writeStaged] at h ⊢
  generalize (stage sourceStaged headerStaged files).final t = staged at *
  rcases staged with ⟨t₂, e' | _⟩
  · cases h
  · obtain ⟨t₁, hput, hput'⟩ := hputs rfl
    have hcommit := @exists_of_commit_ok t₂ t source ⟨sourceStaged, source⟩
      ⟨headerStaged, source.header⟩ (hstaged rfl) hsame
    dsimp only [placements] at h ⊢
    generalize (commit [⟨sourceStaged, source⟩, ⟨headerStaged, source.header⟩]).final t₂ =
      committed at *
    rcases committed with ⟨u', e' | _⟩
    · cases h
    · obtain ⟨u, w, w', backups, moves, hall, hsameAside, hmove, hmove', rfl⟩ := hcommit rfl
      exact ⟨t₁, t₂, u, w, w', backups, moves, hput, hput', hall, hsameAside, hmove, hmove', rfl⟩

/-- The location at which a file was written, told in a tree with the same directories. -/
theorem exists_of_put {path : Path} (hsame : SameDirectories s t)
    (h : t.perform (.put path content) = .ok u) :
    ∃ x, s.Reaches path x ∧ u = t.set x (.file content) := by
  obtain ⟨x, hx, -, rfl⟩ := perform_put_eq_ok_iff.mp h
  exact ⟨x, hx.of_sameDirectories hsame.symm, rfl⟩

theorem exists_of_move {path path' : Path} {x : Location} (hsame : SameDirectories s t)
    (hx : s.Reaches path x) (h : t.perform (.move path path') = .ok u) :
    ∃ l content, s.Reaches path' l ∧ t.get? x = some (.file content) ∧
      u = (t.erase x).set l (.file content) := by
  obtain ⟨x', l, content, hx', hl, hfile, -, rfl⟩ := perform_move_eq_ok_iff.mp h
  obtain rfl := (hx'.of_sameDirectories hsame.symm).eq hx
  exact ⟨l, content, hl.of_sameDirectories hsame.symm, hfile, rfl⟩

variable {t₁ t₂ w' : FileTree} {x x' l' : Location}

/-- Two files were staged and moved onto their targets: the locations of the staging files and of
the targets, and what stands where afterwards. -/
structure Landed (source sourceStaged headerStaged : Path) (files : DocumentPair)
    (t t₂ u w : FileTree) (x x' l l' : Location) : Prop where
  staged : t.Reaches sourceStaged x
  staged' : t.Reaches headerStaged x'
  target : t.Reaches source l
  target' : t.Reaches source.header l'
  staged_ne : x ≠ x'
  target_ne : l ≠ l'
  unstaged : ∀ y, y ≠ x → y ≠ x' → t₂.get? y = t.get? y
  landed : ∀ y, w.get? y =
    if y = l' then some (.file files.header) else if y = x' then none
    else if y = l then some (.file files.source) else if y = x then none else u.get? y

theorem ne_of_hidden {y z : Location} (hy : t.Hidden source y) (hz : ¬t.Hidden source z) :
    y ≠ z := fun heq => hz (heq ▸ hy)

/-- What was staged is moved, as moving the previous files aside does not touch it. -/
theorem exists_landed (hsource : source.staging? = some sourceStaged)
    (hheader : source.header.staging? = some headerStaged)
    (hput : t.perform (.put sourceStaged files.source) = .ok t₁)
    (hput' : t₁.perform (.put headerStaged files.header) = .ok t₂) (haside : Aside t₂ u moves)
    (hlocated : List.Forall₂ (Located source t) backups moves)
    (hsame : SameDirectories t u) (hmove : u.perform (.move sourceStaged source) = .ok w)
    (hmove' : w.perform (.move headerStaged source.header) = .ok w') :
    ∃ x x' l l', Landed source sourceStaged headerStaged files t t₂ u w' x x' l l' := by
  have hpair := @Path.source_mem_pair source
  have hpair' := @Path.header_mem_pair source
  have hsameMove := hsame.trans (sameDirectories_of_perform hmove)
  obtain ⟨x, hx, ht₁⟩ := exists_of_put (.refl t) hput
  obtain ⟨x', hx', ht₂⟩ := exists_of_put (sameDirectories_of_perform hput) hput'
  obtain ⟨l, content, hl, hcontent, hw⟩ := exists_of_move hsame hx hmove
  obtain ⟨l', content', hl', hcontent', hw'⟩ := exists_of_move hsameMove hx' hmove'
  have hx'l := ne_of_hidden (hx'.hidden_of_staging hpair' hheader) (hl.not_hidden hpair)
  -- The first staging file is gone after its move, so the second one is another file.
  rw [hw, get?_move hx.ne_nil hl.ne_nil, if_neg hx'l] at hcontent'
  split at hcontent'
  · cases hcontent'
  · rename_i hxx'
    have hstaged : Staged source t ⟨sourceStaged, source⟩ := ⟨hpair, hsource, x, hx⟩
    have hstaged' : Staged source t ⟨headerStaged, source.header⟩ := ⟨hpair', hheader, x', hx'⟩
    have hput_x : t₂.get? x = some (.file files.source) := by
      rw [ht₂, ht₁, get?_set hx'.ne_nil, get?_set hx.ne_nil, if_neg (Ne.symm hxx'), if_pos rfl]
    have hput_x' : t₂.get? x' = some (.file files.header) := by
      rw [ht₂, get?_set hx'.ne_nil, if_pos rfl]
    have haside_x : u.get? x = t₂.get? x := haside.elsewhere x fun m hm => by
      obtain ⟨b, hb⟩ := exists_located hlocated hm
      exact staging_ne_move hstaged hx hb
    have haside_x' : u.get? x' = t₂.get? x' := haside.elsewhere x' fun m hm => by
      obtain ⟨b, hb⟩ := exists_located hlocated hm
      exact staging_ne_move hstaged' hx' hb
    have hstaging := Reaches.role_eq_iff .staging hpair hpair' hsource hheader hl hl' hx hx'
    refine ⟨x, x', l, l', hx, hx', hl, hl', Ne.symm hxx',
      fun heq => hxx' (hstaging.mpr heq).symm, fun y hy hy' => ?_, fun y => ?_⟩
    · rw [ht₂, ht₁, get?_set hx'.ne_nil, get?_set hx.ne_nil, if_neg hy', if_neg hy]
    · rw [hw', hw, get?_move hx'.ne_nil hl'.ne_nil, get?_move hx.ne_nil hl.ne_nil, ← hcontent,
        ← hcontent', haside_x, haside_x', hput_x, hput_x']

/-- What stands where when both new files have taken their places and the copies of the previous
ones have not been removed yet. -/
structure Committed (source sourceStaged headerStaged : Path) (files : DocumentPair)
    (t w : FileTree) (moves : List (Location × Location)) : Prop where
  source_placed : ∃ l, t.Reaches source l ∧ w.get? l = some (.file files.source)
  header_placed : ∃ l, t.Reaches source.header l ∧ w.get? l = some (.file files.header)
  source_unstaged : ∃ x, t.Reaches sourceStaged x ∧ w.get? x = none
  header_unstaged : ∃ x, t.Reaches headerStaged x ∧ w.get? x = none
  copied : ∀ m ∈ moves, w.get? m.2 ≠ some .directory
  moved : ∀ p ∈ source.pair, ∀ l, t.Reaches p l → t.get? l ≠ none → ∃ m ∈ moves, m.1 = l
  elsewhere : ∀ y, ¬t.Hidden source y → (∀ p ∈ source.pair, ¬t.Reaches p y) →
    w.get? y = t.get? y

section Landed

variable (h : Landed source sourceStaged headerStaged files t t₂ u w x x' l l')
  (hsource : source.staging? = some sourceStaged)
  (hheader : source.header.staging? = some headerStaged)

include h hsource hheader

theorem Landed.hidden : t.Hidden source x ∧ t.Hidden source x' :=
  ⟨h.staged.hidden_of_staging Path.source_mem_pair hsource,
    h.staged'.hidden_of_staging Path.header_mem_pair hheader⟩

theorem Landed.get?_source : w.get? l = some (.file files.source) := by
  have hne := ne_of_hidden (h.hidden hsource hheader).2 (h.target.not_hidden Path.source_mem_pair)
  rw [h.landed, if_neg h.target_ne, if_neg hne.symm, if_pos rfl]

theorem Landed.get?_sourceStaged : w.get? x = none := by
  have hhidden := (h.hidden hsource hheader).1
  have hne := ne_of_hidden hhidden (h.target.not_hidden Path.source_mem_pair)
  have hne' := ne_of_hidden hhidden (h.target'.not_hidden Path.header_mem_pair)
  rw [h.landed, if_neg hne', if_neg h.staged_ne, if_neg hne, if_pos rfl]

theorem Landed.get?_headerStaged : w.get? x' = none := by
  have hne := ne_of_hidden (h.hidden hsource hheader).2 (h.target'.not_hidden Path.header_mem_pair)
  rw [h.landed, if_neg hne, if_pos rfl]

theorem Landed.get?_of_not_hidden {y : Location} (hy : ¬t.Hidden source y) :
    t₂.get? y = t.get? y :=
  h.unstaged y (ne_of_hidden (h.hidden hsource hheader).1 hy).symm
    (ne_of_hidden (h.hidden hsource hheader).2 hy).symm

/-- Moving touches hidden locations and the targets alone. -/
theorem Landed.get?_elsewhere {y : Location} (hy : ¬t.Hidden source y)
    (hpaths : ∀ p ∈ source.pair, ¬t.Reaches p y) : w.get? y = u.get? y := by
  have hyx := (ne_of_hidden (h.hidden hsource hheader).1 hy).symm
  have hyx' := (ne_of_hidden (h.hidden hsource hheader).2 hy).symm
  have hyl : y ≠ l := fun heq => hpaths source Path.source_mem_pair (heq ▸ h.target)
  have hyl' : y ≠ l' := fun heq => hpaths source.header Path.header_mem_pair (heq ▸ h.target')
  rw [h.landed, if_neg hyl', if_neg hyx', if_neg hyl, if_neg hyx]

end Landed

/-- Moving the previous files aside touches hidden locations and the targets alone. -/
theorem get?_of_aside (haside : Aside t₂ u moves)
    (hlocated : List.Forall₂ (Located source t) backups moves) {y : Location}
    (hy : ¬t.Hidden source y) (hpaths : ∀ p ∈ source.pair, ¬t.Reaches p y) :
    u.get? y = t₂.get? y := by
  refine haside.elsewhere y fun m hm => ?_
  obtain ⟨b, hb⟩ := exists_located hlocated hm
  refine ⟨?_, (ne_of_hidden (hb.copy.hidden_of_backup hb.target_mem hb.backup) hy).symm⟩
  rintro rfl
  exact hpaths b.target hb.target_mem hb.target

theorem copy_ne_directory (haside : Aside t u moves) (hsame : SameDirectories u w)
    {m : Location × Location} (hm : m ∈ moves) : w.get? m.2 ≠ some .directory := by
  intro hdirectory
  obtain ⟨content, -, hfile⟩ := haside.copied m hm
  rw [(hsame m.2).mpr hdirectory] at hfile
  cases hfile

theorem exists_placement {path : Path} (h : path ∈ source.pair) :
    ∃ r ∈ placements source sourceStaged headerStaged, r.target = path := by
  rcases List.mem_pair.mp h with rfl | rfl
  · exact ⟨⟨sourceStaged, path⟩, List.mem_cons_self, rfl⟩
  · exact ⟨⟨headerStaged, source.header⟩, List.mem_cons_of_mem _ List.mem_cons_self, rfl⟩

theorem Landed.committed (h : Landed source sourceStaged headerStaged files t t₂ u w x x' l l')
    (hsource : source.staging? = some sourceStaged)
    (hheader : source.header.staging? = some headerStaged)
    (hall : AllAside source t t₂ u (placements source sourceStaged headerStaged) backups moves)
    (hsame : SameDirectories u w) :
    Committed source sourceStaged headerStaged files t w moves := by
  obtain ⟨haside, hlocated, hmoved⟩ := hall
  constructor
  case source_placed => exact ⟨l, h.target, h.get?_source hsource hheader⟩
  case header_placed => exact ⟨l', h.target', by rw [h.landed, if_pos rfl]⟩
  case source_unstaged => exact ⟨x, h.staged, h.get?_sourceStaged hsource hheader⟩
  case header_unstaged => exact ⟨x', h.staged', h.get?_headerStaged hsource hheader⟩
  case copied => exact fun m hm => copy_ne_directory haside hsame hm
  case moved =>
    intro p hp y hy hfile
    obtain ⟨r, hr, rfl⟩ := exists_placement hp
    refine (hmoved r hr y hy).resolve_right ?_
    rwa [h.get?_of_not_hidden hsource hheader (hy.not_hidden hp)]
  case elsewhere =>
    intro y hy hpaths
    rw [h.get?_elsewhere hsource hheader hy hpaths, get?_of_aside haside hlocated hy hpaths,
      h.get?_of_not_hidden hsource hheader hy]

/-! ### The copies of the previous files -/

theorem get?_dropBackups_of_not_copied (hlocated : List.Forall₂ (Located source s) backups moves)
    (hsame : SameDirectories s w) (hx : ∀ m ∈ moves, x ≠ m.2) :
    ((dropBackups backups).final w).1.get? x = w.get? x := by
  rw [final_dropBackups, get?_discard, if_neg]
  rintro ⟨⟨copy, hcopy, hreaches⟩, -⟩
  obtain ⟨b, hb, rfl⟩ := List.mem_map.mp hcopy
  have hflip := @List.Forall₂.flip _ _ (fun m b => Located source s b m) _ _ hlocated
  obtain ⟨m, hm, hbm⟩ := exists_mem_left_of_forall₂ hflip hb
  exact hx m hm ((hreaches.of_sameDirectories hsame.symm).eq hbm.copy)

theorem get?_dropBackups_of_not_hidden (hlocated : List.Forall₂ (Located source s) backups moves)
    (hsame : SameDirectories s w) (hx : ¬s.Hidden source x) :
    ((dropBackups backups).final w).1.get? x = w.get? x := by
  refine get?_dropBackups_of_not_copied hlocated hsame fun m hm => ?_
  obtain ⟨b, hb⟩ := exists_located hlocated hm
  exact (ne_of_hidden (hb.copy.hidden_of_backup hb.target_mem hb.backup) hx).symm

theorem get?_dropBackups_of_staged (hlocated : List.Forall₂ (Located source s) backups moves)
    (hsame : SameDirectories s w) (hp : Staged source s p) (hx : s.Reaches p.staged x) :
    ((dropBackups backups).final w).1.get? x = w.get? x := by
  refine get?_dropBackups_of_not_copied hlocated hsame fun m hm => ?_
  obtain ⟨b, hb⟩ := exists_located hlocated hm
  exact (staging_ne_move hp hx hb).2

theorem get?_dropBackups_eq_none (hlocated : List.Forall₂ (Located source s) backups moves)
    (hsame : SameDirectories s w) {m : Location × Location} (hm : m ∈ moves)
    (hfile : w.get? m.2 ≠ some .directory) :
    ((dropBackups backups).final w).1.get? m.2 = none := by
  obtain ⟨b, hb, hbm⟩ := exists_mem_left_of_forall₂ hlocated hm
  rw [final_dropBackups, get?_discard, if_pos]
  exact ⟨⟨b.copy, List.mem_map_of_mem hb, hbm.copy.of_sameDirectories hsame⟩, hfile⟩

theorem Committed.exists_backup (h : Committed source sourceStaged headerStaged files t w moves)
    (hlocated : List.Forall₂ (Located source t) backups moves) (hsame : SameDirectories t w)
    (hp : Staged source t p) (hl : t.Reaches p.target l) :
    ∃ copy l c, p.target.backup? = some copy ∧ t.Reaches p.target l ∧ t.Reaches copy c ∧
      (t.get? l ≠ none → ((dropBackups backups).final w).1.get? c = none) := by
  obtain ⟨x, hx⟩ := hp.reaches
  obtain ⟨copy, hcopy⟩ := Path.exists_backup?_of_staging? hp.staging
  obtain ⟨c, hc⟩ := hx.exists_backup hp.staging hcopy
  refine ⟨copy, l, c, hcopy, hl, hc, fun hfile => ?_⟩
  obtain ⟨m, hm, rfl⟩ := h.moved p.target hp.target_mem l hl hfile
  obtain ⟨b, hb⟩ := exists_located hlocated hm
  have hcopies := Reaches.role_eq_iff .backup hp.target_mem hb.target_mem hcopy hb.backup hl
    hb.target hc hb.copy
  obtain rfl := hcopies.mpr rfl
  exact get?_dropBackups_eq_none hlocated hsame hm (h.copied m hm)

theorem replaced_of_writeStaged_ok (hsource : source.staging? = some sourceStaged)
    (hheader : source.header.staging? = some headerStaged)
    (h : ((writeStaged source source.header sourceStaged headerStaged files).final t).2 =
      .ok ()) :
    Replaced source files t
      ((writeStaged source source.header sourceStaged headerStaged files).final t).1 := by
  have hsameFinal := sameDirectories_final
    (writeStaged source source.header sourceStaged headerStaged files) t
  obtain ⟨t₁, t₂, u, w, w', backups, moves, hput, hput', hall, hsame, hmove, hmove', hfinal⟩ :=
    exists_of_writeStaged_ok hsource hheader h
  have hlocated := hall.2.1
  obtain ⟨_, _, _, _, hlanded⟩ :=
    exists_landed hsource hheader hput hput' hall.1 hlocated hsame hmove hmove'
  have hsameMoves := (sameDirectories_of_perform hmove).trans (sameDirectories_of_perform hmove')
  have hcommitted := hlanded.committed hsource hheader hall hsameMoves
  have hsame' := hsame.trans hsameMoves
  rw [hfinal] at hsameFinal ⊢
  obtain ⟨l, hl, hfile⟩ := hcommitted.source_placed
  obtain ⟨l', hl', hfile'⟩ := hcommitted.header_placed
  obtain ⟨x, hx, hnone⟩ := hcommitted.source_unstaged
  obtain ⟨x', hx', hnone'⟩ := hcommitted.header_unstaged
  have hstaged : Staged source t ⟨sourceStaged, source⟩ :=
    ⟨Path.source_mem_pair, hsource, x, hx⟩
  have hstaged' : Staged source t ⟨headerStaged, source.header⟩ :=
    ⟨Path.header_mem_pair, hheader, x', hx'⟩
  constructor
  case source_content =>
    refine content?_of_reaches (hl.of_sameDirectories hsameFinal) ?_
    rw [get?_dropBackups_of_not_hidden hlocated hsame' (hl.not_hidden Path.source_mem_pair), hfile]
  case header_content =>
    refine content?_of_reaches (hl'.of_sameDirectories hsameFinal) ?_
    rw [get?_dropBackups_of_not_hidden hlocated hsame' (hl'.not_hidden Path.header_mem_pair),
      hfile']
  case staging_gone =>
    refine Path.forall_mem_pair.mpr ⟨⟨sourceStaged, x, hsource, hx, ?_⟩,
      ⟨headerStaged, x', hheader, hx', ?_⟩⟩
    · rw [get?_dropBackups_of_staged hlocated hsame' hstaged hx, hnone]
    · rw [get?_dropBackups_of_staged hlocated hsame' hstaged' hx', hnone']
  case backup_gone =>
    exact Path.forall_mem_pair.mpr ⟨hcommitted.exists_backup hlocated hsame' hstaged hl,
      hcommitted.exists_backup hlocated hsame' hstaged' hl'⟩
  case elsewhere =>
    intro y hy hpaths
    rw [get?_dropBackups_of_not_hidden hlocated hsame' hy, hcommitted.elsewhere y hy hpaths]

/-- Both files or neither: a run that succeeds has replaced the source and the header, and a run
that fails has left everything as it was, apart from hidden siblings that it may have removed. -/
theorem write_replaces_or_preserves (t : FileTree) (source : Path) (files : DocumentPair) :
    let run := (write source source.header files).execute t
    match run.result with
    | .ok () => Replaced source files t run.tree
    | .error _ => Preserved source t run.tree := by
  show match ((write source source.header files).final t).2 with
    | .ok () => Replaced source files t ((write source source.header files).final t).1
    | .error _ => Preserved source t ((write source source.header files).final t).1
  unfold write
  generalize hsource : source.staging? = staged
  generalize hheader : source.header.staging? = staged'
  rcases staged with _ | sourceStaged
  · exact preserved_of_kept (.refl t)
  · rcases staged' with _ | headerStaged
    · exact preserved_of_kept (.refl t)
    · dsimp only
      split
      · exact replaced_of_writeStaged_ok hsource hheader (by assumption)
      · exact preserved_of_kept (kept_of_writeStaged_error hsource hheader (by assumption))

/-- A directory stands where the backup of the header belongs.  By then the source has been moved
aside, and it is brought back. -/
example :
    let t : FileTree := ⟨[(["Node.c"], .file "old source"), (["Node.h"], .file "old header"),
      ([".Node.h.bak"], .directory)]⟩
    let run := (write ⟨["Node.c"]⟩ ⟨["Node.h"]⟩ ⟨"new source", "new header"⟩).execute t
    run.result.isOk = false ∧ run.tree.content? ⟨["Node.c"]⟩ = some "old source" ∧
      run.tree.get? [".Node.c.tmp"] = none ∧ run.tree.get? [".Node.c.bak"] = none := by
  decide

/-- Without it both files are replaced. -/
example :
    let t : FileTree := ⟨[(["Node.c"], .file "old source"), (["Node.h"], .file "old header")]⟩
    let run := (write ⟨["Node.c"]⟩ ⟨["Node.h"]⟩ ⟨"new source", "new header"⟩).execute t
    run.result.isOk = true ∧ run.tree.content? ⟨["Node.c"]⟩ = some "new source" ∧
      run.tree.content? ⟨["Node.h"]⟩ = some "new header" := by
  decide

end CanopenTables.PairWriter
