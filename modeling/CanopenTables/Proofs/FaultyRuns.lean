import CanopenTables.Proofs.FileOperations
import Mathlib.Logic.Relation

/-!
# Runs in which operations fail

A script is followed step by step (`Script.Step`).  At each operation it is carried out or fails:
a move or a removal that fails changes nothing, a write that fails may leave any content behind, and
a question may stay unanswered.  A run may end after any step, so what is to hold of every run is
said of every state that can be reached.

The state keeps track of the files that the run itself has written (`Progress.written`), wherever
they are moved.  A statement on all states of a run is proved by going through the script
(`Script.Always`): it composes along the script (`Script.always_bind`), and it holds of every state
that can be reached (`Script.holds_of_always`).
-/

namespace CanopenTables

open FileTree

/-- Two paths reach the same location in no tree. -/
def Path.Apart (p q : Path) : Prop :=
  ∀ (t : FileTree) (x : Location), t.Reaches p x → ¬t.Reaches q x

/-- A file tree together with the locations at which stands what the run has written. -/
structure Progress where
  tree : FileTree
  written : Location → Prop

namespace Progress

variable {s s' : Progress} {command : FileCommand} {p q : Path} {content : String}
  {r : Except FileFailure Unit}

/-- The tree before a run, which has written nothing. -/
def start (t : FileTree) : Progress := ⟨t, fun _ => False⟩

/-- Where the run's own files stand after an operation was carried out. -/
def carried (s : Progress) : FileCommand → Location → Prop
  | .put p _, x => s.tree.Reaches p x ∨ s.written x
  | .remove p, x => ¬s.tree.Reaches p x ∧ s.written x
  | .move p q, x =>
    (s.tree.Reaches q x ∧ ∃ l, s.tree.Reaches p l ∧ s.written l) ∨
      (¬s.tree.Reaches q x ∧ ¬s.tree.Reaches p x ∧ s.written x)

/-- What may come of an operation that is tried. -/
inductive Attempted (s : Progress) : FileCommand → Except FileFailure Unit → Progress → Prop
  /-- It is carried out. -/
  | performed {command : FileCommand} {u : FileTree} (h : s.tree.perform command = .ok u) :
    Attempted s command (.ok ()) ⟨u, s.carried command⟩
  /-- It fails and changes nothing. -/
  | failed {command : FileCommand} (e : FileFailure) : Attempted s command (.error e) s
  /-- A write fails and leaves some content behind. -/
  | spoilt {p : Path} {content other : String} {u : FileTree} (e : FileFailure)
    (h : s.tree.perform (.put p other) = .ok u) :
    Attempted s (.put p content) (.error e) ⟨u, s.carried (.put p other)⟩

/-- The answers to the question whether a path is a directory; one that stays open counts as no. -/
inductive Answered (s : Progress) (p : Path) : Bool → Prop
  | told : Answered s p (s.tree.isDirectory p)
  | unknown : Answered s p false

theorem Attempted.sameDirectories (h : Attempted s command r s') :
    SameDirectories s.tree s'.tree := by
  cases h with
  | performed h => exact sameDirectories_of_perform h
  | failed e => exact .refl _
  | spoilt e h => exact sameDirectories_of_perform h

/-! ### What an operation leaves alone -/

theorem carried_iff {x : Location} (hx : ∀ p ∈ command.paths, ¬s.tree.Reaches p x) :
    s.carried command x ↔ s.written x := by
  cases command with
  | put p content =>
    have hp := hx p (by simp [FileCommand.paths])
    simp [carried, hp]
  | remove p =>
    have hp := hx p (by simp [FileCommand.paths])
    simp [carried, hp]
  | move p q =>
    have hp := hx p (by simp [FileCommand.paths])
    have hq := hx q (by simp [FileCommand.paths])
    simp [carried, hp, hq]

/-- What the paths of an operation do not reach stays as it was, however the operation ends. -/
theorem Attempted.frame (h : Attempted s command r s') {x : Location}
    (hx : ∀ p ∈ command.paths, ¬s.tree.Reaches p x) :
    s'.tree.get? x = s.tree.get? x ∧ (s'.written x ↔ s.written x) := by
  cases h with
  | performed h => exact ⟨get?_perform h hx, carried_iff hx⟩
  | failed e => exact ⟨rfl, Iff.rfl⟩
  | spoilt e h => exact ⟨get?_perform h hx, @carried_iff s (.put _ _) x hx⟩

/-- A path holds a content that was put there by the run. -/
def Holds (s : Progress) (p : Path) (content : String) : Prop :=
  ∃ x, s.tree.Reaches p x ∧ s.tree.get? x = some (.file content) ∧ s.written x

/-- What the run put at a path stays there when no path of an operation leads to it. -/
theorem Attempted.holds (h : Attempted s command r s') (hp : s.Holds p content)
    (hapart : ∀ q ∈ command.paths, p.Apart q) : s'.Holds p content := by
  obtain ⟨x, hx, hfile, hwritten⟩ := hp
  obtain ⟨htree, hwritten'⟩ := h.frame fun q hq => hapart q hq s.tree x hx
  exact ⟨x, hx.of_sameDirectories h.sameDirectories, htree.trans hfile, hwritten'.mpr hwritten⟩

theorem holds_of_put {u : FileTree} (h : s.tree.perform (.put p content) = .ok u) :
    Holds ⟨u, s.carried (.put p content)⟩ p content := by
  have hsame := sameDirectories_of_perform h
  obtain ⟨x, hx, -, rfl⟩ := perform_put_eq_ok_iff.mp h
  refine ⟨x, hx.of_sameDirectories hsame, ?_, .inl hx⟩
  exact (get?_set hx.ne_nil).trans (if_pos rfl)

theorem Holds.move {u : FileTree} (hp : s.Holds p content)
    (h : s.tree.perform (.move p q) = .ok u) : Holds ⟨u, s.carried (.move p q)⟩ q content := by
  have hsame := sameDirectories_of_perform h
  obtain ⟨x, hx, hfile, hwritten⟩ := hp
  obtain ⟨x', y, content', hx', hy, hfile', -, rfl⟩ := perform_move_eq_ok_iff.mp h
  obtain rfl := hx'.eq hx
  rw [hfile] at hfile'
  cases hfile'
  refine ⟨y, hy.of_sameDirectories hsame, ?_, .inl ⟨hy, x', hx, hwritten⟩⟩
  exact (get?_move hx.ne_nil hy.ne_nil).trans (if_pos rfl)

/-- Nothing that stands at a path was written by the run. -/
def Unwritten (s : Progress) (p : Path) : Prop := ∀ x, s.tree.Reaches p x → ¬s.written x

/-- An operation brings no file of the run to a path. -/
def Spares (s : Progress) (p : Path) : FileCommand → Prop
  | .put q _ => p.Apart q
  | .remove _ => True
  | .move q q' => p.Apart q' ∨ s.Unwritten q

theorem not_carried (hp : s.Unwritten p) (hspares : s.Spares p command) {x : Location}
    (hx : s.tree.Reaches p x) : ¬s.carried command x := by
  cases command with
  | put q content =>
    rintro (hq | hwritten)
    · exact hspares s.tree x hx hq
    · exact hp x hx hwritten
  | remove q => exact fun h => hp x hx h.2
  | move q q' =>
    rintro (⟨hq', l, hl, hwritten⟩ | ⟨-, -, hwritten⟩)
    · rcases hspares with hapart | hunwritten
      · exact hapart s.tree x hx hq'
      · exact hunwritten l hl hwritten
    · exact hp x hx hwritten

theorem Attempted.unwritten (h : Attempted s command r s') (hp : s.Unwritten p)
    (hspares : s.Spares p command) : s'.Unwritten p := by
  intro x hx
  have hbefore := hx.of_sameDirectories h.sameDirectories.symm
  cases h with
  | performed h => exact not_carried hp hspares hbefore
  | failed e => exact hp x hbefore
  | spoilt e h => exact @not_carried s (.put _ _) p hp hspares x hbefore

end Progress

namespace Script

open Progress

variable {α β : Type} {P P' : Progress → Prop} {s s' : Progress} {x y : Script α}

/-! ### Steps -/

/-- A step of a run, in which any operation may fail. -/
inductive Step : Progress × Script α → Progress × Script α → Prop
  | attempt {s s' : Progress} {command : FileCommand} {r : Except FileFailure Unit}
    {next : Except FileFailure Unit → Script α} (h : Attempted s command r s') :
    Step (s, attempt command next) (s', next r)
  | probe {s : Progress} {p : Path} {b : Bool} {next : Bool → Script α} (h : Answered s p b) :
    Step (s, probe p next) (s, next b)
  | report {s : Progress} {notice : Notice} {next : Script α} :
    Step (s, report notice next) (s, next)

theorem exists_steps_execute (x : Script α) (s : Progress) :
    ∃ written, Relation.ReflTransGen Step (s, x)
      (⟨(x.execute s.tree).tree, written⟩, done (x.execute s.tree).result) := by
  induction x generalizing s with
  | done a => exact ⟨s.written, .refl⟩
  | attempt command next ih =>
    rcases outcome_cases s.tree command with ⟨u, hperform, houtcome⟩ | ⟨e, -, houtcome⟩
    · obtain ⟨written, hsteps⟩ := ih (.ok ()) ⟨u, s.carried command⟩
      refine ⟨written, .head (.attempt (.performed hperform)) ?_⟩
      simpa only [execute, houtcome] using hsteps
    · obtain ⟨written, hsteps⟩ := ih (.error e) s
      refine ⟨written, .head (.attempt (.failed e)) ?_⟩
      simpa only [execute, houtcome] using hsteps
  | probe p next ih =>
    obtain ⟨written, hsteps⟩ := ih (s.tree.isDirectory p) s
    exact ⟨written, .head (.probe .told) hsteps⟩
  | report notice next ih =>
    obtain ⟨written, hsteps⟩ := ih s
    exact ⟨written, .head .report hsteps⟩

/-! ### Statements on all states of a run -/

/-- A statement holds in every state of every run of a script, and another one of the result and of
the state at the end. -/
def Always (P : Progress → Prop) : Script α → (α → Progress → Prop) → Progress → Prop
  | done a, Q, s => P s ∧ Q a s
  | attempt command next, Q, s =>
    P s ∧ ∀ r s', Attempted s command r s' → Always P (next r) Q s'
  | probe p next, Q, s => P s ∧ ∀ b, Answered s p b → Always P (next b) Q s
  | report _ next, Q, s => P s ∧ Always P next Q s

variable {Q Q' : α → Progress → Prop}

theorem Always.now (h : Always P x Q s) : P s := by
  cases x with
  | done a => exact h.1
  | attempt command next => exact h.1
  | probe p next => exact h.1
  | report notice next => exact h.1

theorem Always.step (h : Always P x Q s) (hstep : Step (s, x) (s', y)) : Always P y Q s' := by
  cases hstep with
  | attempt hattempted => exact h.2 _ _ hattempted
  | probe hanswered => exact h.2 _ hanswered
  | report => exact h.2

/-- What always holds along a script holds of every state that its runs reach. -/
theorem holds_of_always (h : Always P x Q s)
    (hsteps : Relation.ReflTransGen Step (s, x) (s', y)) : P s' := by
  have hrun : ∀ c, Relation.ReflTransGen Step (s, x) c → Always P c.2 Q c.1 := by
    intro c hc
    induction hc with
    | refl => exact h
    | tail _ hstep ih => exact ih.step hstep
  exact (hrun _ hsteps).now

theorem Always.mono (h : Always P x Q s) (hP : ∀ s, P s → P' s)
    (hQ : ∀ a s, P s → Q a s → Q' a s) : Always P' x Q' s := by
  induction x generalizing s with
  | done a => exact ⟨hP s h.1, hQ a s h.1 h.2⟩
  | attempt command next ih =>
    exact ⟨hP s h.1, fun r s' hattempted => ih r (h.2 r s' hattempted)⟩
  | probe p next ih => exact ⟨hP s h.1, fun b hanswered => ih b (h.2 b hanswered)⟩
  | report notice next ih => exact ⟨hP s h.1, ih h.2⟩

theorem always_pure {a : α} (hP : P s) (hQ : Q a s) : Always P (pure a) Q s := ⟨hP, hQ⟩

theorem Always.bind {f : α → Script β} {Q' : β → Progress → Prop} (h : Always P x Q s)
    (hf : ∀ a s, P s → Q a s → Always P (f a) Q' s) : Always P (x >>= f) Q' s := by
  show Always P (x.andThen f) Q' s
  induction x generalizing s with
  | done a => exact hf a s h.1 h.2
  | attempt command next ih => exact ⟨h.1, fun r s' hattempted => ih r (h.2 r s' hattempted)⟩
  | probe p next ih => exact ⟨h.1, fun b hanswered => ih b (h.2 b hanswered)⟩
  | report notice next ih => exact ⟨h.1, ih h.2⟩

theorem always_run {command : FileCommand} {Q : Except FileFailure Unit → Progress → Prop}
    (hP : P s) (h : ∀ r s', Attempted s command r s' → P s' ∧ Q r s') :
    Always P (run command) Q s := ⟨hP, h⟩

theorem always_isDirectory {p : Path} {Q : Bool → Progress → Prop} (hP : P s)
    (h : ∀ b, Q b s) : Always P (isDirectory p) Q s := ⟨hP, fun b _ => ⟨hP, h b⟩⟩

theorem always_tell {notice : Notice} {Q : Unit → Progress → Prop} (hP : P s) (h : Q () s) :
    Always P (tell notice) Q s := ⟨hP, hP, h⟩

/-- What each of the operations keeps holds while they are tried one after another. -/
theorem TriesEach.always {f : List β → Script Unit} {command : β → FileCommand}
    (hf : TriesEach f command) {l : List β}
    (hkeep : ∀ b ∈ l, ∀ s r s', P s → Attempted s (command b) r s' → P s') (h : P s) :
    Always P (f l) (fun _ => P) s := by
  induction l generalizing s with
  | nil =>
    rw [hf.nil]
    exact always_pure h h
  | cons b rest ih =>
    obtain ⟨hb, hrest⟩ := List.forall_mem_cons.mp hkeep
    obtain ⟨next, heq, hnext⟩ := hf.cons b rest
    rw [heq]
    refine Always.bind (Q := fun _ => P) (always_run h fun r s' hattempted => ?_) ?_
    · exact ⟨hb s r s' h hattempted, hb s r s' h hattempted⟩
    · intro r s' hs' _
      rcases hnext r with hr | ⟨notice, hr⟩
      · rw [hr]
        exact ih hrest hs'
      · rw [hr]
        exact (always_tell hs' hs').bind fun _ s'' _ hs'' => ih hrest hs''

end Script
end CanopenTables
