import CanopenTables.Files.Script
import CanopenTables.Proofs.Outcome

/-!
# What file operations do

A path *reaches* a location when a file can be written, moved or removed there under that path
(`FileTree.Reaches`).  Each operation that succeeds acts on the locations that its paths reach, and
on paths that reach locations each operation has one equation in what stands there
(`perform_put`, `perform_remove`, `perform_move`).

No operation makes or removes a directory, so a path reaches the same location throughout the run
of a script (`sameDirectories_final`).
-/

namespace CanopenTables

/-- The paths that an operation names. -/
def FileCommand.paths : FileCommand → List Path
  | .put p _ => [p]
  | .remove p => [p]
  | .move p q => [p, q]

namespace FileTree

variable {t u v : FileTree} {p q : Path} {l m : Location} {content : String}

/-! ### Reached locations -/

/-- A file can be written, moved or removed at a location under a path: the path holds no character
that is refused, it ends in a name that is not too long, and the name stands in a directory. -/
def Reaches (t : FileTree) (p : Path) (l : Location) : Prop :=
  '\x00' ∉ p.text.toList ∧
    ∃ parent name, t.resolve p = .ok (.name parent name false) ∧
      name.utf8ByteSize ≤ longestName ∧ l = parent ++ [name]

theorem Reaches.eq (hl : t.Reaches p l) (hm : t.Reaches p m) : l = m := by
  obtain ⟨-, parent, name, hl, -, rfl⟩ := hl
  obtain ⟨-, parent', name', hm, -, rfl⟩ := hm
  rw [hl] at hm
  cases hm
  rfl

theorem Reaches.ne_nil (hl : t.Reaches p l) : l ≠ [] := by
  obtain ⟨-, parent, name, -, -, rfl⟩ := hl
  simp

theorem look_of_le {parent : Location} {name : String} (h : name.utf8ByteSize ≤ longestName) :
    t.look parent name = .ok (t.get? (parent ++ [name])) := by
  unfold look
  rw [if_neg (Nat.not_lt.mpr h)]

theorem look_eq_ok_iff {parent : Location} {name : String} {item : Option Item} :
    t.look parent name = .ok item ↔
      name.utf8ByteSize ≤ longestName ∧ t.get? (parent ++ [name]) = item := by
  unfold look
  by_cases h : longestName < name.utf8ByteSize
  · simp [h, Nat.not_le.mpr h]
  · simp [h, Nat.not_lt.mp h]

/-! ### Single operations -/

theorem contains_nul {text : List Char} (h : '\x00' ∉ text) : text.contains '\x00' = false := by
  simpa using h

theorem perform_put (hl : t.Reaches p l) (content : String) :
    t.perform (.put p content) =
      if t.get? l = some .directory then .error (.system .isADirectory)
      else .ok (t.set l (.file content)) := by
  obtain ⟨hnul, parent, name, hresolve, hname, rfl⟩ := hl
  simp only [perform, put, hresolve, List.any_cons, List.any_nil, contains_nul hnul, Bool.or_self,
    Bool.false_eq_true, if_false, bind, Except.bind, look_of_le hname]
  cases t.get? (parent ++ [name]) with
  | none => simp [Except.mapError]
  | some item =>
    cases item with
    | file c => simp [Except.mapError]
    | directory => simp [Except.mapError]

theorem perform_remove (hl : t.Reaches p l) :
    t.perform (.remove p) =
      match t.get? l with
      | none => .error (.system .notFound)
      | some .directory => .error (.system .isADirectory)
      | some (.file _) => .ok (t.erase l) := by
  obtain ⟨hnul, parent, name, hresolve, hname, rfl⟩ := hl
  simp only [perform, remove, hresolve, List.any_cons, List.any_nil, contains_nul hnul,
    Bool.or_self, Bool.false_eq_true, if_false, bind, Except.bind, look_of_le hname]
  cases t.get? (parent ++ [name]) with
  | none => rfl
  | some item =>
    cases item with
    | file c => rfl
    | directory => rfl

theorem perform_move (hl : t.Reaches p l) (hm : t.Reaches q m) :
    t.perform (.move p q) =
      match t.get? l with
      | none => .error (.system .notFound)
      | some .directory => .error (.system .isADirectory)
      | some (.file content) =>
        if t.get? m = some .directory then .error (.system .isADirectory)
        else .ok ((t.erase l).set m (.file content)) := by
  obtain ⟨hnul, parent, name, hresolve, hname, rfl⟩ := hl
  obtain ⟨hnul', parent', name', hresolve', hname', rfl⟩ := hm
  simp only [perform, move, hresolve, hresolve', List.any_cons, List.any_nil,
    contains_nul hnul, contains_nul hnul', Bool.or_self, Bool.false_eq_true, if_false, bind,
    Except.bind, look_of_le hname, look_of_le hname']
  cases t.get? (parent ++ [name]) with
  | none => rfl
  | some item =>
    cases item with
    | directory => rfl
    | file c =>
      dsimp only
      split
      · rename_i h
        simp at h
      · split
        · rfl
        · rfl

/-! ### Operations that succeed -/

/-- An operation that succeeds was carried out, and no path of it was refused beforehand. -/
theorem perform_eq_ok_iff {command : FileCommand} :
    t.perform command = .ok u ↔
      match command with
      | .put p content => '\x00' ∉ p.text.toList ∧ t.put p content = .ok u
      | .remove p => '\x00' ∉ p.text.toList ∧ t.remove p = .ok u
      | .move p q =>
        '\x00' ∉ p.text.toList ∧ '\x00' ∉ q.text.toList ∧ t.move p q = .ok u := by
  have hmap (x : Except SystemError FileTree) :
      x.mapError FileFailure.system = .ok u ↔ x = .ok u := by
    cases x with
    | error e => simp [Except.mapError]
    | ok a => simp [Except.mapError]
  unfold perform
  cases command with
  | put p content => by_cases hp : '\x00' ∈ p.text.toList <;> simp [hp, hmap]
  | remove p => by_cases hp : '\x00' ∈ p.text.toList <;> simp [hp, hmap]
  | move p q =>
    by_cases hp : '\x00' ∈ p.text.toList <;> by_cases hq : '\x00' ∈ q.text.toList <;>
      simp [hp, hq, hmap]

theorem exists_reaches_of_put (h : t.perform (.put p content) = .ok u) : ∃ l, t.Reaches p l := by
  obtain ⟨hnul, h⟩ := perform_eq_ok_iff.mp h
  obtain ⟨destination, hresolve, h⟩ := bind_eq_ok_iff.mp h
  cases destination with
  | directory l => cases h
  | name parent name slash =>
    cases slash with
    | true => cases h
    | false =>
      obtain ⟨item, hlook, -⟩ := bind_eq_ok_iff.mp h
      exact ⟨_, hnul, parent, name, hresolve, (look_eq_ok_iff.mp hlook).1, rfl⟩

theorem exists_reaches_of_remove (h : t.perform (.remove p) = .ok u) : ∃ l, t.Reaches p l := by
  obtain ⟨hnul, h⟩ := perform_eq_ok_iff.mp h
  obtain ⟨destination, hresolve, h⟩ := bind_eq_ok_iff.mp h
  cases destination with
  | directory l => cases h
  | name parent name slash =>
    obtain ⟨item, hlook, h⟩ := bind_eq_ok_iff.mp h
    cases slash with
    | true => rcases item with _ | ⟨c⟩ | _ <;> cases h
    | false => exact ⟨_, hnul, parent, name, hresolve, (look_eq_ok_iff.mp hlook).1, rfl⟩

theorem exists_reaches_of_move (h : t.perform (.move p q) = .ok u) :
    ∃ l m, t.Reaches p l ∧ t.Reaches q m := by
  obtain ⟨hnul, hnul', h⟩ := perform_eq_ok_iff.mp h
  obtain ⟨destination, hresolve, h⟩ := bind_eq_ok_iff.mp h
  obtain ⟨destination', hresolve', h⟩ := bind_eq_ok_iff.mp h
  cases destination with
  | directory l => cases h
  | name parent name slash =>
    cases destination' with
    | directory l => cases h
    | name parent' name' slash' =>
      obtain ⟨item, hlook, h⟩ := bind_eq_ok_iff.mp h
      rcases item with _ | ⟨c⟩ | _
      · cases h
      · obtain ⟨item', hlook', h⟩ := bind_eq_ok_iff.mp h
        cases slash <;> cases slash'
        · exact ⟨_, _, ⟨hnul, parent, name, hresolve, (look_eq_ok_iff.mp hlook).1, rfl⟩,
            hnul', parent', name', hresolve', (look_eq_ok_iff.mp hlook').1, rfl⟩
        all_goals cases h
      · cases h

theorem perform_put_eq_ok_iff :
    t.perform (.put p content) = .ok u ↔
      ∃ l, t.Reaches p l ∧ t.get? l ≠ some .directory ∧ t.set l (.file content) = u := by
  constructor
  · intro h
    obtain ⟨l, hl⟩ := exists_reaches_of_put h
    rw [perform_put hl] at h
    split at h
    · cases h
    · rename_i hdirectory
      exact ⟨l, hl, hdirectory, Except.ok.inj h⟩
  · rintro ⟨l, hl, hdirectory, rfl⟩
    rw [perform_put hl, if_neg hdirectory]

theorem perform_remove_eq_ok_iff :
    t.perform (.remove p) = .ok u ↔
      ∃ l content, t.Reaches p l ∧ t.get? l = some (.file content) ∧ t.erase l = u := by
  constructor
  · intro h
    obtain ⟨l, hl⟩ := exists_reaches_of_remove h
    rw [perform_remove hl] at h
    split at h
    · cases h
    · cases h
    · rename_i content hfile
      exact ⟨l, content, hl, hfile, Except.ok.inj h⟩
  · rintro ⟨l, content, hl, hfile, rfl⟩
    rw [perform_remove hl, hfile]

theorem perform_move_eq_ok_iff :
    t.perform (.move p q) = .ok u ↔
      ∃ l m content, t.Reaches p l ∧ t.Reaches q m ∧ t.get? l = some (.file content) ∧
        t.get? m ≠ some .directory ∧ (t.erase l).set m (.file content) = u := by
  constructor
  · intro h
    obtain ⟨l, m, hl, hm⟩ := exists_reaches_of_move h
    rw [perform_move hl hm] at h
    split at h
    · cases h
    · cases h
    · rename_i content hfile
      split at h
      · cases h
      · rename_i hdirectory
        exact ⟨l, m, content, hl, hm, hfile, hdirectory, Except.ok.inj h⟩
  · rintro ⟨l, m, content, hl, hm, hfile, hdirectory, rfl⟩
    rw [perform_move hl hm, hfile]
    exact if_neg hdirectory

/-- A file that is moved is found under its new path only. -/
theorem get?_move {x : Location} (hl : l ≠ []) (hm : m ≠ []) :
    ((t.erase l).set m (.file content)).get? x =
      if x = m then some (.file content) else if x = l then none else t.get? x := by
  rw [get?_set hm, get?_erase hl]

/-- What the paths of an operation do not reach stays as it was. -/
theorem get?_perform {command : FileCommand} {x : Location} (h : t.perform command = .ok u)
    (hx : ∀ p ∈ command.paths, ¬t.Reaches p x) : u.get? x = t.get? x := by
  have hne {q : Path} {l : Location} (hq : q ∈ command.paths) (hl : t.Reaches q l) : x ≠ l :=
    fun heq => hx q hq (heq ▸ hl)
  cases command with
  | put p content =>
    obtain ⟨l, hl, -, rfl⟩ := perform_put_eq_ok_iff.mp h
    rw [get?_set hl.ne_nil, if_neg (hne (by simp [FileCommand.paths]) hl)]
  | remove p =>
    obtain ⟨l, content, hl, -, rfl⟩ := perform_remove_eq_ok_iff.mp h
    rw [get?_erase hl.ne_nil, if_neg (hne (by simp [FileCommand.paths]) hl)]
  | move p q =>
    obtain ⟨l, m, content, hl, hm, -, -, rfl⟩ := perform_move_eq_ok_iff.mp h
    rw [get?_move hl.ne_nil hm.ne_nil, if_neg (hne (by simp [FileCommand.paths]) hm),
      if_neg (hne (by simp [FileCommand.paths]) hl)]

/-- Where both paths reach locations, a file is missing that cannot be found. -/
theorem get?_eq_none_of_move_notFound (hl : t.Reaches p l) (hm : t.Reaches q m)
    (h : t.perform (.move p q) = .error (.system .notFound)) : t.get? l = none := by
  rw [perform_move hl hm] at h
  split at h
  · assumption
  · cases h
  · split at h
    · cases h
    · cases h

/-! ### Directories stay -/

/-- Two trees have the same directories. -/
def SameDirectories (t u : FileTree) : Prop :=
  ∀ l, t.get? l = some .directory ↔ u.get? l = some .directory

theorem SameDirectories.refl (t : FileTree) : SameDirectories t t := fun _ => Iff.rfl

theorem SameDirectories.symm (h : SameDirectories t u) : SameDirectories u t := fun l => (h l).symm

theorem SameDirectories.trans (htu : SameDirectories t u) (huv : SameDirectories u v) :
    SameDirectories t v := fun l => (htu l).trans (huv l)

theorem sameDirectories_set (hl : l ≠ []) (h : t.get? l ≠ some .directory) :
    SameDirectories t (t.set l (.file content)) := by
  intro x
  rw [get?_set hl]
  by_cases hx : x = l
  · subst hx
    simp [h]
  · simp [hx]

theorem sameDirectories_erase (hl : l ≠ []) (h : t.get? l ≠ some .directory) :
    SameDirectories t (t.erase l) := by
  intro x
  rw [get?_erase hl]
  by_cases hx : x = l
  · subst hx
    simp [h]
  · simp [hx]

theorem sameDirectories_of_perform {command : FileCommand} (h : t.perform command = .ok u) :
    SameDirectories t u := by
  cases command with
  | put p content =>
    obtain ⟨l, hl, hdirectory, rfl⟩ := perform_put_eq_ok_iff.mp h
    exact sameDirectories_set hl.ne_nil hdirectory
  | remove p =>
    obtain ⟨l, content, hl, hfile, rfl⟩ := perform_remove_eq_ok_iff.mp h
    exact sameDirectories_erase hl.ne_nil (by simp [hfile])
  | move p q =>
    obtain ⟨l, m, content, hl, hm, hfile, hdirectory, rfl⟩ := perform_move_eq_ok_iff.mp h
    have herase := sameDirectories_erase hl.ne_nil (by simp [hfile] : t.get? l ≠ _)
    exact herase.trans (sameDirectories_set hm.ne_nil (mt (herase m).mpr hdirectory))

/-- A way through directories is the same where the directories are. -/
theorem enter_eq_ok_of_sameDirectories (h : SameDirectories t u) {segments : List String}
    (henter : t.enter l segments = .ok m) : u.enter l segments = .ok m := by
  induction segments generalizing l with
  | nil => exact henter
  | cons segment rest ih =>
    unfold enter at henter ⊢
    split at henter
    · rename_i hblank
      rw [if_pos hblank]
      exact ih henter
    · rename_i hblank
      rw [if_neg hblank]
      split at henter
      · rename_i hparent
        rw [if_pos hparent]
        exact ih henter
      · rename_i hparent
        rw [if_neg hparent]
        split at henter
        · cases henter
        · cases henter
        · cases henter
        · rename_i hlook
          obtain ⟨hname, hdirectory⟩ := look_eq_ok_iff.mp hlook
          rw [look_of_le hname, (h _).mp hdirectory]
          exact ih henter

theorem resolve_eq_ok_of_sameDirectories (h : SameDirectories t u) {destination : Destination}
    (hresolve : t.resolve p = .ok destination) : u.resolve p = .ok destination := by
  have hmap {segments : List String} {f : Location → Destination}
      (hf : (t.enter [] segments).map f = .ok destination) :
      (u.enter [] segments).map f = .ok destination := by
    obtain ⟨parent, henter, hparent⟩ := map_eq_ok_iff.mp hf
    exact map_eq_ok_iff.mpr ⟨parent, enter_eq_ok_of_sameDirectories h henter, hparent⟩
  unfold resolve at hresolve ⊢
  split at hresolve
  · cases hresolve
  · rename_i hlength
    rw [if_neg hlength]
    split at hresolve
    · exact hresolve
    · split at hresolve
      · rename_i hlast
        rw [if_pos hlast]
        exact hmap hresolve
      · rename_i hlast
        rw [if_neg hlast]
        exact hmap hresolve

theorem Reaches.of_sameDirectories (h : SameDirectories t u) (hl : t.Reaches p l) :
    u.Reaches p l := by
  obtain ⟨hnul, parent, name, hresolve, hname, rfl⟩ := hl
  exact ⟨hnul, parent, name, resolve_eq_ok_of_sameDirectories h hresolve, hname, rfl⟩

theorem reaches_iff_of_sameDirectories (h : SameDirectories t u) :
    t.Reaches p l ↔ u.Reaches p l :=
  ⟨.of_sameDirectories h, .of_sameDirectories h.symm⟩

/-! ### Questions -/

theorem content?_of_reaches (hl : t.Reaches p l) (h : t.get? l = some (.file content)) :
    t.content? p = some content := by
  obtain ⟨-, parent, name, hresolve, hname, rfl⟩ := hl
  simp only [content?, hresolve, look_of_le hname, h]

end FileTree

/-! ### Scripts -/

namespace Script

variable {α β : Type} {t : FileTree}

/-- The tree and the result that a script ends with. -/
def final (x : Script α) (t : FileTree) : FileTree × α := ((x.execute t).tree, (x.execute t).result)

theorem final_pure (a : α) : (pure a : Script α).final t = (t, a) := rfl

theorem final_run (command : FileCommand) : (run command).final t = outcome t command := rfl

theorem final_isDirectory (p : Path) : (isDirectory p).final t = (t, t.isDirectory p) := rfl

theorem final_tell (notice : Notice) : (tell notice).final t = (t, ()) := rfl

theorem final_bind (x : Script α) (f : α → Script β) :
    (x >>= f).final t = (f (x.final t).2).final (x.final t).1 := by
  show (x.andThen f).final t = _
  induction x generalizing t with
  | done a => rfl
  | attempt command next ih => exact ih _
  | probe p next ih => exact ih _
  | report notice next ih => exact ih

/-- An operation is carried out, or nothing happens. -/
theorem outcome_cases (t : FileTree) (command : FileCommand) :
    (∃ u, t.perform command = .ok u ∧ outcome t command = (u, .ok ())) ∨
      ∃ e, t.perform command = .error e ∧ outcome t command = (t, .error e) := by
  unfold outcome
  cases t.perform command with
  | ok u => exact .inl ⟨u, rfl, rfl⟩
  | error e => exact .inr ⟨e, rfl, rfl⟩

theorem sameDirectories_outcome (t : FileTree) (command : FileCommand) :
    t.SameDirectories (outcome t command).1 := by
  rcases outcome_cases t command with ⟨u, hperform, houtcome⟩ | ⟨e, -, houtcome⟩
  · rw [houtcome]
    exact FileTree.sameDirectories_of_perform hperform
  · rw [houtcome]
    exact .refl t

theorem get?_outcome {command : FileCommand} {x : Location}
    (hx : ∀ p ∈ command.paths, ¬t.Reaches p x) : (outcome t command).1.get? x = t.get? x := by
  rcases outcome_cases t command with ⟨u, hperform, houtcome⟩ | ⟨e, -, houtcome⟩
  · rw [houtcome]
    exact FileTree.get?_perform hperform hx
  · rw [houtcome]

/-- No script makes or removes a directory. -/
theorem sameDirectories_final (x : Script α) (t : FileTree) :
    t.SameDirectories (x.final t).1 := by
  induction x generalizing t with
  | done a => exact .refl t
  | attempt command next ih => exact (sameDirectories_outcome t command).trans (ih _ _)
  | probe p next ih => exact ih _ _
  | report notice next ih => exact ih t

/-! ### Operations that are tried one after another -/

/-- A script tries an operation for each member of a list.  Whether one fails makes no difference,
but for what is reported. -/
structure TriesEach (f : List α → Script Unit) (command : α → FileCommand) : Prop where
  nil : f [] = pure ()
  cons : ∀ a rest, ∃ next : Except FileFailure Unit → Script Unit,
    f (a :: rest) = run (command a) >>= next ∧
      ∀ r, next r = f rest ∨ ∃ notice, next r = tell notice >>= fun _ => f rest

theorem TriesEach.final_cons {f : List α → Script Unit} {command : α → FileCommand}
    (h : TriesEach f command) (a : α) (rest : List α) :
    (f (a :: rest)).final t = (f rest).final (outcome t (command a)).1 := by
  obtain ⟨next, hf, hnext⟩ := h.cons a rest
  rw [hf, final_bind, final_run]
  rcases hnext (outcome t (command a)).2 with hr | ⟨notice, hr⟩
  · rw [hr]
  · rw [hr, final_bind, final_tell]

end Script
end CanopenTables
