import CanopenTables.Proofs.FileOperations
import Mathlib.Data.List.TakeWhile

/-!
# A source, its header and their hidden siblings

A pair of files is written through six paths: the source, the header beside it, and for each of the
two a staging file and a backup.  All six lead into one directory, where they are told apart by
their names (`FileTree.Reaches.eq_iff`).

* Neither the source nor the header is a hidden sibling of one of the two
  (`FileTree.Reaches.not_hidden`).
* No backup is a staging file (`FileTree.Reaches.staging_ne_backup`).
* Source and header are different files unless the source has the header's extension
  (`Path.fileName?_header_ne`).
-/

namespace CanopenTables

namespace Path

variable {p q : Path} {parents : List String} {name suffix : String}

/-! ### The name of a file -/

theorem split?_append (hblank : isBlank name = false) (hparent : name ≠ "..") :
    split? ⟨parents ++ [name]⟩ = some (parents, name) := by
  simp [split?, hblank, hparent]

theorem exists_backup?_of_staging? (h : p.staging? = some q) : ∃ copy, p.backup? = some copy := by
  obtain ⟨⟨parents, name⟩, hsplit, -⟩ := Option.map_eq_some_iff.mp h
  exact ⟨_, by rw [backup?, sibling?, hsplit, Option.map_some]⟩

/-- A sibling can be told from the blank segments and from the step to the parent by its length. -/
theorem isBlank_sibling (h : 2 ≤ suffix.length) :
    isBlank ("." ++ name ++ suffix) = false ∧ "." ++ name ++ suffix ≠ ".." := by
  have hlength : 3 ≤ ("." ++ name ++ suffix).length := by
    simp only [String.length_append]
    have : ".".length = 1 := rfl
    omega
  have hne {s : String} (hs : s.length < 3) : "." ++ name ++ suffix ≠ s := by
    rintro rfl
    omega
  simp only [isBlank, Bool.or_eq_false_iff, beq_eq_false_iff_ne]
  exact ⟨⟨hne (by decide), hne (by decide)⟩, hne (by decide)⟩

theorem exists_trimmedParents_append (parents : List String) :
    ∃ blanks, parents = trimmedParents parents ++ blanks ∧ ∀ s ∈ blanks, isBlank s := by
  cases parents with
  | nil => exact ⟨[], rfl, by simp⟩
  | cons first rest =>
    refine ⟨(rest.reverse.takeWhile isBlank).reverse, ?_, ?_⟩
    · have hreverse := @List.takeWhile_append_dropWhile _ isBlank rest.reverse
      have hall := congrArg List.reverse hreverse
      rw [List.reverse_append, List.reverse_reverse] at hall
      rw [trimmedParents, List.cons_append, hall]
    · intro s hs
      exact List.mem_takeWhile_imp (List.mem_reverse.mp hs)

theorem exists_text_append (parents : List String) :
    ∃ front : String, ∀ name, text ⟨parents ++ [name]⟩ = front ++ name := by
  induction parents with
  | nil => exact ⟨"", fun name => by simp [text]⟩
  | cons first rest ih =>
    obtain ⟨front, hfront⟩ := ih
    refine ⟨first ++ "/" ++ front, fun name => ?_⟩
    have hcons : text ⟨first :: (rest ++ [name])⟩ = first ++ "/" ++ text ⟨rest ++ [name]⟩ := by
      cases rest with
      | nil => simp [text]
      | cons second rest => simp [text, String.intercalate_cons_cons]
    rw [List.cons_append, hcons, hfront, ← String.append_assoc]

/-! ### Headers -/

theorem stem_append {front : String} {extension : List Char} (hfront : front ≠ "")
    (hsuffix : suffix.toList = '.' :: extension) (hextension : '.' ∉ extension) :
    stem (front ++ suffix) = front := by
  have hreverse : (front ++ suffix).toList.reverse =
      extension.reverse ++ '.' :: front.toList.reverse := by
    simp [hsuffix]
  have hdrop : (extension.reverse ++ '.' :: front.toList.reverse).dropWhile
      (fun c => decide (c ≠ '.')) = '.' :: front.toList.reverse := by
    rw [List.dropWhile_append_of_pos, List.dropWhile_cons_of_neg (by simp)]
    intro c hc
    have hne : c ≠ '.' := fun h => hextension (h ▸ List.mem_reverse.mp hc)
    simpa using hne
  unfold stem
  rw [hreverse, hdrop]
  simp [hfront]

/-- What follows the last dot of a name.  A name whose only dot is its first character has no
extension. -/
def extensionOf (name : String) : Option String :=
  match name.toList.reverse.dropWhile (· ≠ '.') with
  | [] => none
  | _ :: before =>
    if before.isEmpty then none
    else some (String.ofList (name.toList.reverse.takeWhile (· ≠ '.')).reverse)

/-- The extension of the file name that a path names. -/
def extension? (p : Path) : Option String := p.fileName?.bind extensionOf

theorem extensionOf_eq_of_stem_append (h : name = stem name ++ ".h") :
    extensionOf name = some "h" := by
  have hne : stem name ≠ "" := by
    intro hstem
    rw [hstem] at h
    subst h
    exact absurd hstem (by decide)
  have hreverse : name.toList.reverse = 'h' :: '.' :: (stem name).toList.reverse := by
    rw [congrArg (fun s => s.toList.reverse) h]
    simp
  unfold extensionOf
  rw [hreverse]
  simp [hne]

theorem isBlank_header (name : String) :
    isBlank (name ++ ".h") = false ∧ name ++ ".h" ≠ ".." := by
  have hlast {s : String} (hs : s.toList.getLast? ≠ some 'h') : name ++ ".h" ≠ s := by
    rintro rfl
    simp at hs
  simp only [isBlank, Bool.or_eq_false_iff, beq_eq_false_iff_ne]
  exact ⟨⟨hlast (by decide), hlast (by decide)⟩, hlast (by decide)⟩

theorem exists_split?_of_header (h : p.header.split? = some (parents, name)) :
    ∃ source, p.split? = some (parents, source) ∧ name = stem source ++ ".h" := by
  unfold header at h
  split at h
  · rename_i parents' source hsource
    split at h
    · simp [split?, isBlank] at h
    · rw [split?_append (isBlank_header _).1 (isBlank_header _).2] at h
      obtain ⟨rfl, rfl⟩ := Prod.mk.inj (Option.some.inj h)
      exact ⟨source, hsource, rfl⟩
  · rename_i hnone
    exact absurd h (by simp [hnone])

/-! ### Different names -/

/-- The ends of the siblings' names. -/
def IsSuffix (suffix : String) : Prop := suffix = ".tmp" ∨ suffix = ".bak"

theorem ne_own_sibling (a : String) : a ≠ "." ++ a ++ suffix := by
  intro h
  have hlength := congrArg String.length h
  have : ".".length = 1 := rfl
  simp only [String.length_append] at hlength
  omega

theorem header_ne_sibling (a b : String) (h : IsSuffix suffix) :
    a ++ ".h" ≠ "." ++ b ++ suffix := by
  intro heq
  have hlast := congrArg (fun s => s.toList.reverse.head?) heq
  rcases h with rfl | rfl <;> simp at hlast

/-- A source is no sibling of its header: without the extension it would have to be the header with
a dot before it, which is longer than the header's own beginning. -/
theorem ne_sibling_header (a : String) (h : IsSuffix suffix) :
    a ≠ "." ++ (stem a ++ ".h") ++ suffix := by
  intro heq
  have hstem : stem a = "." ++ (stem a ++ ".h") := by
    have hne : "." ++ (stem a ++ ".h") ≠ "" := by simp
    refine (congrArg stem heq).trans ?_
    rcases h with rfl | rfl
    · exact @stem_append ".tmp" _ ['t', 'm', 'p'] hne rfl (by decide)
    · exact @stem_append ".bak" _ ['b', 'a', 'k'] hne rfl (by decide)
  have hlength := congrArg String.length hstem
  have : ".".length = 1 := rfl
  simp only [String.length_append] at hlength
  omega

/-- The names of a source and of its header. -/
def IsPairName (source name : String) : Prop := name = source ∨ name = stem source ++ ".h"

theorem ne_sibling {source a b : String} (ha : IsPairName source a) (hb : IsPairName source b)
    (h : IsSuffix suffix) : a ≠ "." ++ b ++ suffix := by
  rcases ha with rfl | rfl
  · rcases hb with rfl | rfl
    · exact ne_own_sibling _
    · exact ne_sibling_header _ h
  · exact header_ne_sibling _ _ h

theorem staging_ne_backup (a b : String) : "." ++ a ++ ".tmp" ≠ "." ++ b ++ ".bak" := by
  intro h
  have hlast := congrArg (fun s => s.toList.reverse.head?) h
  simp at hlast

/-- What a path is used for while a pair is written. -/
inductive Role where
  | target
  | staging
  | backup
  deriving DecidableEq

/-- The path that plays a role for a target. -/
def Role.path? : Role → Path → Option Path
  | target, p => some p
  | staging, p => p.staging?
  | backup, p => p.backup?

/-- The name of the file that plays a role for a target of a given name. -/
def Role.nameOf : Role → String → String
  | target, name => name
  | staging, name => "." ++ name ++ ".tmp"
  | backup, name => "." ++ name ++ ".bak"

theorem Role.nameOf_eq_iff {r r' : Role} {source a b : String} (ha : IsPairName source a)
    (hb : IsPairName source b) : r.nameOf a = r'.nameOf b ↔ r = r' ∧ a = b := by
  have htmp {a b : String} (ha : IsPairName source a) (hb : IsPairName source b) :
      a ≠ "." ++ b ++ ".tmp" := ne_sibling ha hb (.inl rfl)
  have hbak {a b : String} (ha : IsPairName source a) (hb : IsPairName source b) :
      a ≠ "." ++ b ++ ".bak" := ne_sibling ha hb (.inr rfl)
  cases r <;> cases r' <;> simp only [Role.nameOf, reduceCtorEq, false_and, true_and, iff_false]
  case target.staging => exact htmp ha hb
  case target.backup => exact hbak ha hb
  case staging.target => exact (htmp hb ha).symm
  case backup.target => exact (hbak hb ha).symm
  case staging.backup => exact staging_ne_backup a b
  case backup.staging => exact (staging_ne_backup b a).symm
  all_goals rw [String.append_left_inj, String.append_right_inj]

/-- The two targets: the source and its header. -/
def pair (source : Path) : List Path := [source, source.header]

theorem source_mem_pair {source : Path} : source ∈ source.pair := by simp [pair]

theorem header_mem_pair {source : Path} : source.header ∈ source.pair := by simp [pair]

theorem forall_mem_pair {source : Path} {P : Path → Prop} :
    (∀ p ∈ source.pair, P p) ↔ P source ∧ P source.header := by
  simp [pair]

theorem exists_split?_of_mem_pair {source : Path} (hp : p ∈ source.pair)
    (h : p.split? = some (parents, name)) :
    ∃ sourceName, source.split? = some (parents, sourceName) ∧ IsPairName sourceName name := by
  rcases List.mem_pair.mp hp with rfl | rfl
  · exact ⟨name, h, .inl rfl⟩
  · obtain ⟨sourceName, hsource, hname⟩ := exists_split?_of_header h
    exact ⟨sourceName, hsource, .inr hname⟩

/-- The hidden siblings of both targets. -/
def siblings (source : Path) : List Path :=
  source.pair.flatMap fun p => p.staging?.toList ++ p.backup?.toList

theorem mem_siblings {source : Path} :
    q ∈ source.siblings ↔ ∃ p ∈ source.pair, p.staging? = some q ∨ p.backup? = some q := by
  simp [siblings]

theorem fileName?_header_ne (hextension : p.extension? ≠ some "h")
    (h : p.header.split? = some (parents, name)) : p.fileName? ≠ p.header.fileName? := by
  obtain ⟨source, hsource, hname⟩ := exists_split?_of_header h
  have hsourceName : p.fileName? = some source := by simp [fileName?, hsource]
  have hheaderName : p.header.fileName? = some name := by simp [fileName?, h]
  rw [hsourceName, hheaderName]
  rintro heq
  rw [← Option.some.inj heq] at hname
  exact hextension (by simp [extension?, hsourceName, extensionOf_eq_of_stem_append hname])

end Path

namespace FileTree

variable {t : FileTree} {p q : Path} {l m : Location} {parents : List String} {name : String}

/-! ### Paths that reach locations -/

/-- Blank segments at the end of a way lead no further. -/
theorem enter_append_blanks (front : List String) {blanks : List String}
    (h : ∀ s ∈ blanks, Path.isBlank s) : t.enter l (front ++ blanks) = t.enter l front := by
  induction front generalizing l with
  | nil =>
    induction blanks with
    | nil => rfl
    | cons segment rest ih =>
      obtain ⟨hsegment, hrest⟩ := List.forall_mem_cons.mp h
      simp only [List.nil_append, enter, hsegment, if_true] at ih ⊢
      exact ih hrest
  | cons segment rest ih => simp only [List.cons_append, enter, ih]

theorem enter_trimmedParents (parents : List String) :
    t.enter l (Path.trimmedParents parents) = t.enter l parents := by
  obtain ⟨blanks, hparents, hblanks⟩ := Path.exists_trimmedParents_append parents
  conv_rhs => rw [hparents]
  exact (enter_append_blanks _ hblanks).symm

/-- A path that ends in a name leads to that name in the directory before it. -/
theorem resolve_append (hblank : Path.isBlank name = false) (hparent : name ≠ "..") :
    t.resolve ⟨parents ++ [name]⟩ =
      if longestPath < (Path.text ⟨parents ++ [name]⟩).utf8ByteSize then .error .nameTooLong
      else (t.enter [] parents).map fun parent => .name parent name false := by
  have hname : name ≠ "" ∧ name ≠ "." := by simpa [Path.isBlank] using hblank
  unfold resolve
  simp [hname, hparent]

theorem reaches_append_iff (hblank : Path.isBlank name = false) (hparent : name ≠ "..") :
    t.Reaches ⟨parents ++ [name]⟩ l ↔
      '\x00' ∉ (Path.text ⟨parents ++ [name]⟩).toList ∧
        (Path.text ⟨parents ++ [name]⟩).utf8ByteSize ≤ longestPath ∧
        name.utf8ByteSize ≤ longestName ∧
        ∃ directory, t.enter [] parents = .ok directory ∧ l = directory ++ [name] := by
  unfold Reaches
  rw [resolve_append hblank hparent]
  constructor
  · rintro ⟨hnul, parent, last, hresolve, hlast, rfl⟩
    split at hresolve
    · cases hresolve
    · rename_i hlength
      obtain ⟨directory, henter, hdestination⟩ := map_eq_ok_iff.mp hresolve
      cases hdestination
      exact ⟨hnul, Nat.not_lt.mp hlength, hlast, parent, henter, rfl⟩
  · rintro ⟨hnul, hlength, hlast, directory, henter, rfl⟩
    refine ⟨hnul, directory, name, ?_, hlast, rfl⟩
    rw [if_neg (Nat.not_lt.mpr hlength), henter]
    rfl

theorem Reaches.exists_append (hl : t.Reaches p l) :
    ∃ parents name, p = ⟨parents ++ [name]⟩ ∧ Path.isBlank name = false ∧ name ≠ ".." := by
  obtain ⟨segments⟩ := p
  obtain ⟨-, parent, last, hresolve, -, -⟩ := hl
  unfold resolve at hresolve
  split at hresolve
  · cases hresolve
  · split at hresolve
    · split at hresolve <;> cases hresolve
    · rename_i last' before hsegments
      split at hresolve
      · obtain ⟨_, -, hdestination⟩ := map_eq_ok_iff.mp hresolve
        cases hdestination
      · rename_i hname
        obtain ⟨_, -, hdestination⟩ := map_eq_ok_iff.mp hresolve
        obtain ⟨-, -, hslash⟩ := Destination.name.inj hdestination
        -- No slash stands at the end, so the last segment is the name.
        rcases List.eq_nil_or_concat segments with rfl | ⟨parents, name, rfl⟩
        · cases hsegments
        · have hempty : name ≠ "" := by simpa using hslash
          have hlast : name = last' := by
            rw [List.concat_eq_append, List.reverse_append, List.reverse_singleton,
              List.singleton_append, List.dropWhile_cons_of_neg (by simpa using hempty)]
              at hsegments
            exact (List.cons.inj hsegments).1
          subst hlast
          obtain ⟨hdot, hparent⟩ := not_or.mp hname
          exact ⟨parents, name, by rw [List.concat_eq_append], by simp [Path.isBlank, hempty, hdot],
            hparent⟩

theorem Reaches.eq_append (hl : t.Reaches p l) (h : p.split? = some (parents, name)) :
    ∃ directory, t.enter [] parents = .ok directory ∧ l = directory ++ [name] := by
  obtain ⟨parents', name', rfl, hblank, hparent⟩ := hl.exists_append
  rw [Path.split?_append hblank hparent] at h
  obtain ⟨rfl, rfl⟩ := Prod.mk.inj (Option.some.inj h)
  exact ((reaches_append_iff hblank hparent).mp hl).2.2.2

theorem Reaches.exists_split? (hl : t.Reaches p l) :
    ∃ parents name, p.split? = some (parents, name) := by
  obtain ⟨parents, name, rfl, hblank, hparent⟩ := hl.exists_append
  exact ⟨parents, name, Path.split?_append hblank hparent⟩

/-! ### The six locations of a pair -/

theorem Reaches.eq_append_sibling {suffix : String} (hq : p.sibling? suffix = some q)
    (hsuffix : 2 ≤ suffix.length) (hl : t.Reaches q l) :
    ∃ parents name directory, p.split? = some (parents, name) ∧
      t.enter [] parents = .ok directory ∧ l = directory ++ ["." ++ name ++ suffix] := by
  obtain ⟨⟨parents, name⟩, hsplit, rfl⟩ := Option.map_eq_some_iff.mp hq
  obtain ⟨hblank, hparent⟩ := @Path.isBlank_sibling name suffix hsuffix
  obtain ⟨directory, henter, hl⟩ := hl.eq_append (Path.split?_append hblank hparent)
  rw [enter_trimmedParents] at henter
  exact ⟨parents, name, directory, hsplit, henter, hl⟩

/-- All paths of a target reach locations in one directory. -/
theorem Reaches.eq_append_nameOf {r : Path.Role} (hq : r.path? p = some q) (hl : t.Reaches q l) :
    ∃ parents name directory, p.split? = some (parents, name) ∧
      t.enter [] parents = .ok directory ∧ l = directory ++ [r.nameOf name] := by
  cases r with
  | target =>
    cases hq
    obtain ⟨parents, name, hsplit⟩ := hl.exists_split?
    obtain ⟨directory, henter, hl⟩ := hl.eq_append hsplit
    exact ⟨parents, name, directory, hsplit, henter, hl⟩
  | staging => exact hl.eq_append_sibling hq (by decide)
  | backup => exact hl.eq_append_sibling hq (by decide)

/-- The locations of a source, its header and their siblings differ where the roles or the file
names differ. -/
theorem Reaches.eq_iff (r r' : Path.Role) {source p' q' : Path} (hp : p ∈ source.pair)
    (hq : q ∈ source.pair) (hp' : r.path? p = some p') (hq' : r'.path? q = some q')
    (hl : t.Reaches p' l) (hm : t.Reaches q' m) :
    l = m ↔ r = r' ∧ p.fileName? = q.fileName? := by
  obtain ⟨parents, a, directory, ha, henter, rfl⟩ := hl.eq_append_nameOf hp'
  obtain ⟨parents', b, directory', hb, henter', rfl⟩ := hm.eq_append_nameOf hq'
  obtain ⟨sourceName, hsource, hpa⟩ := Path.exists_split?_of_mem_pair hp ha
  obtain ⟨sourceName', hsource', hpb⟩ := Path.exists_split?_of_mem_pair hq hb
  -- Both targets stand in one directory.
  rw [hsource] at hsource'
  obtain ⟨rfl, rfl⟩ := Prod.mk.inj (Option.some.inj hsource')
  rw [henter] at henter'
  cases henter'
  rw [List.append_cancel_left_eq, List.singleton_inj, Path.Role.nameOf_eq_iff hpa hpb]
  simp [Path.fileName?, ha, hb]

/-- Locations that hold a hidden sibling of the source or of the header, or could hold one. -/
def Hidden (t : FileTree) (source : Path) (x : Location) : Prop :=
  ∃ q ∈ source.siblings, t.Reaches q x

theorem Reaches.hidden_of_staging {source staged : Path} (hp : p ∈ source.pair)
    (hstaged : p.staging? = some staged) (hl : t.Reaches staged l) : t.Hidden source l :=
  ⟨staged, Path.mem_siblings.mpr ⟨p, hp, .inl hstaged⟩, hl⟩

theorem Reaches.hidden_of_backup {source copy : Path} (hp : p ∈ source.pair)
    (hcopy : p.backup? = some copy) (hl : t.Reaches copy l) : t.Hidden source l :=
  ⟨copy, Path.mem_siblings.mpr ⟨p, hp, .inr hcopy⟩, hl⟩

/-- Neither the source nor the header stands where a hidden sibling stands. -/
theorem Reaches.not_hidden {source : Path} (hp : p ∈ source.pair) (hl : t.Reaches p l) :
    ¬t.Hidden source l := by
  rintro ⟨sibling, hsibling, hm⟩
  obtain ⟨q, hq, hstaging | hbackup⟩ := Path.mem_siblings.mp hsibling
  · have h := (Reaches.eq_iff .target .staging hp hq rfl hstaging hl hm).mp rfl
    exact absurd h.1 (by decide)
  · have h := (Reaches.eq_iff .target .backup hp hq rfl hbackup hl hm).mp rfl
    exact absurd h.1 (by decide)

/-- No backup stands where a staging file stands. -/
theorem Reaches.staging_ne_backup {source staged copy : Path} (hp : p ∈ source.pair)
    (hq : q ∈ source.pair) (hstaged : p.staging? = some staged) (hcopy : q.backup? = some copy)
    (hl : t.Reaches staged l) (hm : t.Reaches copy m) : l ≠ m := by
  intro heq
  have h := (Reaches.eq_iff .staging .backup hp hq hstaged hcopy hl hm).mp heq
  exact absurd h.1 (by decide)

/-- Two targets share a sibling when they are the same file. -/
theorem Reaches.role_eq_iff (r : Path.Role) {source p' q' : Path} {x y : Location}
    (hp : p ∈ source.pair) (hq : q ∈ source.pair) (hp' : r.path? p = some p')
    (hq' : r.path? q = some q') (hl : t.Reaches p l) (hm : t.Reaches q m) (hx : t.Reaches p' x)
    (hy : t.Reaches q' y) : x = y ↔ l = m := by
  rw [Reaches.eq_iff r r hp hq hp' hq' hx hy, Reaches.eq_iff .target .target hp hq rfl rfl hl hm]
  simp

/-- A backup can be made wherever a staging file can be written. -/
theorem Reaches.exists_backup {staged copy : Path} (hstaged : p.staging? = some staged)
    (hcopy : p.backup? = some copy) (hl : t.Reaches staged l) : ∃ m, t.Reaches copy m := by
  obtain ⟨⟨parents, name⟩, hsplit, rfl⟩ := Option.map_eq_some_iff.mp hstaged
  obtain ⟨⟨_, _⟩, hsplit', rfl⟩ := Option.map_eq_some_iff.mp hcopy
  rw [hsplit] at hsplit'
  obtain ⟨rfl, rfl⟩ := Prod.mk.inj (Option.some.inj hsplit')
  obtain ⟨hblank, hparent⟩ := @Path.isBlank_sibling name ".tmp" (by decide)
  obtain ⟨hblank', hparent'⟩ := @Path.isBlank_sibling name ".bak" (by decide)
  obtain ⟨hnul, hlength, hname, directory, henter, rfl⟩ :=
    (reaches_append_iff hblank hparent).mp hl
  -- The two paths differ in the last three characters only.
  obtain ⟨front, hfront⟩ := Path.exists_text_append (Path.trimmedParents parents)
  have hsize : ".bak".utf8ByteSize = ".tmp".utf8ByteSize := by decide
  rw [hfront] at hnul hlength
  refine ⟨_, (reaches_append_iff hblank' hparent').mpr ⟨?_, ?_, ?_, directory, henter, rfl⟩⟩
  · rw [hfront]
    simpa using hnul
  · rw [hfront]
    simpa [String.utf8ByteSize_append, hsize] using hlength
  · simpa [String.utf8ByteSize_append, hsize] using hname

end FileTree
end CanopenTables
