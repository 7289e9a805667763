import CanopenTables.Proofs.NamedPaths
import Mathlib.Data.List.ProdSigma

/-!
# The six paths of a pair

A pair of files is written through six paths: for the source and for its header the path itself, the
staging file and the backup (`Path.workingPaths`).  No run names another path
(`PairWriter.names_write`).

* The **directory** of a path is made of its components, the segments without the blank ones, before
  the last.  A header and the hidden siblings keep the segments in front of the file name up to
  blanks, and so the directory.
* A file name is the **stem**, a dot and the extension, or it is the stem alone
  (`Path.eq_append_of_extensionOf`, `Path.stem_eq_self`).  A header has the stem of its source, so
  it is its own header, and it has the name of its source exactly when that has its extension.
* The **names** of the six files differ as soon as those of source and header do
  (`Path.Role.nameOf_eq_iff`).

All this has one exception.  Without its extension a file name such as `..c` is not two dots but the
step to the parent directory, which can take no extension and names no file.

Main statement: `PairWriter.pair_paths_apart`; `not_forall_header_of_source` shows the exception.
-/

namespace CanopenTables

theorem eq_append_of_dropWhile_reverse {α : Type} {sort : α → Bool} {l before : List α} {a : α}
    (h : l.reverse.dropWhile sort = a :: before) :
    l = before.reverse ++ a :: (l.reverse.takeWhile sort).reverse ∧ sort a = false ∧
      ∀ b ∈ (l.reverse.takeWhile sort).reverse, sort b = true := by
  refine ⟨?_, ?_, fun b hb => List.mem_takeWhile_imp (List.mem_reverse.mp hb)⟩
  · have hcut := List.takeWhile_append_dropWhile (p := sort) (l := l.reverse)
    rw [h] at hcut
    calc l = (l.reverse.takeWhile sort ++ a :: before).reverse := by
          rw [hcut, List.reverse_reverse]
      _ = before.reverse ++ a :: (l.reverse.takeWhile sort).reverse := by
          rw [List.reverse_append, List.reverse_cons, List.append_assoc, List.singleton_append]
  · have hhead := List.head?_dropWhile_not sort l.reverse
    rw [h] at hhead
    exact hhead

namespace Path

variable {p q source : Path} {parents blanks : List String} {name extension : String}

/-! ### Components -/

/-- Some segments without the blank ones.  The first segment stays; when it is blank, it stands for
the root or for a dot at the beginning of a path. -/
def bare : List String → List String
  | [] => []
  | first :: rest => first :: rest.filter fun segment => !isBlank segment

/-- The components of a path.  The empty path has none. -/
def components (p : Path) : List String := if p.segments = [""] then [] else bare p.segments

/-- The components before the last one.  They lead to the directory that holds what a path names,
unless the path ends in a step to the parent directory. -/
def directory (p : Path) : List String := p.components.dropLast

theorem filter_eq_nil_of_blanks (hblanks : ∀ s ∈ blanks, isBlank s = true) :
    blanks.filter (fun segment => !isBlank segment) = [] := by
  rw [List.filter_eq_nil_iff]
  intro s hs
  simp [hblanks s hs]

theorem bare_append_blanks (parents : List String) (hname : isBlank name = false)
    (hblanks : ∀ s ∈ blanks, isBlank s = true) :
    bare (parents ++ name :: blanks) = bare parents ++ [name] := by
  cases parents with
  | nil => simp [bare, filter_eq_nil_of_blanks hblanks]
  | cons first rest => simp [bare, hname, filter_eq_nil_of_blanks hblanks]

theorem directory_append (parents : List String) (hname : isBlank name = false)
    (hblanks : ∀ s ∈ blanks, isBlank s = true) :
    directory ⟨parents ++ name :: blanks⟩ = bare parents := by
  have hne : parents ++ name :: blanks ≠ [""] := by
    intro h
    have hmem : name ∈ [""] := h ▸ List.mem_append_right _ List.mem_cons_self
    rw [List.mem_singleton.mp hmem] at hname
    exact absurd hname (by decide)
  rw [directory, components, if_neg hne, bare_append_blanks parents hname hblanks,
    List.dropLast_concat]

theorem bare_trimmedParents (parents : List String) :
    bare (trimmedParents parents) = bare parents := by
  obtain ⟨blanks, hparents, hblanks⟩ := exists_trimmedParents_append parents
  cases parents with
  | nil => rfl
  | cons first rest =>
    have hrest : rest = (rest.reverse.dropWhile isBlank).reverse ++ blanks :=
      (List.cons.inj hparents).2
    conv_rhs => rw [bare, hrest, List.filter_append, filter_eq_nil_of_blanks hblanks,
      List.append_nil]
    rfl

theorem exists_segments_of_split? (h : p.split? = some (parents, name)) :
    ∃ blanks, p.segments = parents ++ name :: blanks ∧ (∀ s ∈ blanks, isBlank s = true) ∧
      isBlank name = false ∧ name ≠ ".." := by
  unfold split? at h
  split at h
  · cases h
  · rename_i last before hlast
    split at h
    · cases h
    · rename_i hparent
      cases h
      obtain ⟨hsegments, hname, hblanks⟩ := eq_append_of_dropWhile_reverse hlast
      exact ⟨_, hsegments, hblanks, hname, hparent⟩

theorem directory_of_split? (h : p.split? = some (parents, name)) : p.directory = bare parents := by
  obtain ⟨blanks, hsegments, hblanks, hname, -⟩ := exists_segments_of_split? h
  have hp : p = ⟨parents ++ name :: blanks⟩ := by rw [← hsegments]
  rw [hp, directory_append parents hname hblanks]

theorem directory_concat (hname : isBlank name = false) :
    directory ⟨parents ++ [name]⟩ = bare parents :=
  directory_append parents hname (List.forall_mem_nil _)

theorem fileName?_of_split? (h : p.split? = some (parents, name)) : p.fileName? = some name := by
  rw [fileName?, h]
  rfl

theorem exists_split?_of_fileName? (h : p.fileName? = some name) :
    ∃ parents, p.split? = some (parents, name) := by
  obtain ⟨⟨parents, name'⟩, hsplit, hname⟩ := Option.map_eq_some_iff.mp h
  cases hname
  exact ⟨parents, hsplit⟩

/-! ### Stem and extension -/

/-- A name with an extension is its stem, a dot and the extension, which has no further dot. -/
theorem eq_append_of_extensionOf (h : extensionOf name = some extension) :
    name = stem name ++ "." ++ extension ∧ stem name ≠ "" ∧ '.' ∉ extension.toList := by
  unfold extensionOf at h
  split at h
  · cases h
  · rename_i dot before hdrop
    split at h
    · cases h
    · rename_i hbefore
      cases h
      obtain ⟨hname, hdot, hextension⟩ := eq_append_of_dropWhile_reverse hdrop
      obtain rfl : dot = '.' := by simpa using hdot
      have hstem : stem name = String.ofList before.reverse := by
        unfold stem
        rw [hdrop]
        exact if_neg hbefore
      refine ⟨?_, ?_, ?_⟩
      · rw [hstem, ← String.toList_inj]
        conv_lhs => rw [hname]
        simp
      · rw [hstem]
        simpa using hbefore
      · rw [String.toList_ofList]
        intro hmem
        simpa using hextension '.' hmem

theorem stem_eq_self (h : extensionOf name = none) : stem name = name := by
  revert h
  unfold extensionOf stem
  cases name.toList.reverse.dropWhile fun c => decide (c ≠ '.') with
  | nil => exact fun _ => rfl
  | cons dot before =>
    dsimp only
    by_cases hbefore : before.isEmpty = true
    · rw [if_pos hbefore, if_pos hbefore]
      exact fun _ => rfl
    · rw [if_neg hbefore, if_neg hbefore]
      exact fun h => absurd h (Option.some_ne_none _)

/-- Two dots and an extension. -/
def IsDoubleDotted (name : String) : Prop :=
  ∃ extension, name = ".." ++ extension ∧ '.' ∉ extension.toList

/-- Without its extension the file name of a path is the step to the parent directory: it is two
dots and an extension, and nothing follows it. -/
def LosesName (p : Path) (name : String) : Prop :=
  IsDoubleDotted name ∧ p.segments.getLast? = some name

theorem stem_eq_dot_iff (hname : isBlank name = false) : stem name = "." ↔ IsDoubleDotted name := by
  constructor
  · intro hstem
    cases hextension : extensionOf name with
    | none =>
      rw [stem_eq_self hextension] at hstem
      subst hstem
      exact absurd hname (by decide)
    | some extension =>
      obtain ⟨heq, -, hdot⟩ := eq_append_of_extensionOf hextension
      rw [hstem] at heq
      exact ⟨extension, heq, hdot⟩
  · rintro ⟨extension, rfl, hdot⟩
    have hdots : ".." ++ extension = "." ++ ("." ++ extension) := by
      rw [← String.append_assoc]
      rfl
    have hsuffix : ("." ++ extension).toList = '.' :: extension.toList := by
      rw [String.toList_append]
      rfl
    rw [hdots]
    exact stem_append (by decide) hsuffix hdot

theorem stem_ne_empty (hname : isBlank name = false) : stem name ≠ "" := by
  cases hextension : extensionOf name with
  | none =>
    rw [stem_eq_self hextension]
    rintro rfl
    exact absurd hname (by decide)
  | some extension => exact (eq_append_of_extensionOf hextension).2.1

theorem stem_header (hname : isBlank name = false) : stem (stem name ++ ".h") = stem name :=
  @stem_append ".h" _ ['h'] (stem_ne_empty hname) rfl (by decide)

/-- A header has the name of its source when that has its extension. -/
theorem stem_append_eq_self_iff : stem name ++ ".h" = name ↔ extensionOf name = some "h" := by
  constructor
  · intro h
    exact extensionOf_eq_of_stem_append h.symm
  · intro h
    have heq := (eq_append_of_extensionOf h).1
    rw [String.append_assoc] at heq
    exact heq.symm

/-! ### Headers -/

theorem leavesParentStep_iff (hname : isBlank name = false) :
    p.leavesParentStep name = true ↔ p.LosesName name := by
  rw [LosesName, ← stem_eq_dot_iff hname]
  simp [leavesParentStep, and_comm]

theorem header_of_leavesParentStep (h : p.split? = some (parents, name))
    (hstep : p.leavesParentStep name = true) : p.header = ⟨parents ++ [".."]⟩ := by
  unfold header
  rw [h]
  exact if_pos hstep

theorem header_of_not_leavesParentStep (h : p.split? = some (parents, name))
    (hstep : ¬p.leavesParentStep name = true) : p.header = ⟨parents ++ [stem name ++ ".h"]⟩ := by
  unfold header
  rw [h]
  exact if_neg hstep

theorem split?_parentStep : split? ⟨parents ++ [".."]⟩ = none := by
  simp [split?, isBlank]

theorem header_eq_self (h : p.split? = none) : p.header = p := by
  unfold header
  rw [h]

theorem split?_header (h : p.split? = some (parents, name))
    (hstep : ¬p.leavesParentStep name = true) :
    p.header.split? = some (parents, stem name ++ ".h") := by
  rw [header_of_not_leavesParentStep h hstep]
  exact split?_append (isBlank_header _).1 (isBlank_header _).2

theorem directory_header (h : p.split? = some (parents, name)) :
    p.header.directory = p.directory := by
  rw [directory_of_split? h]
  by_cases hstep : p.leavesParentStep name = true
  · rw [header_of_leavesParentStep h hstep]
    exact directory_concat (by decide)
  · rw [header_of_not_leavesParentStep h hstep]
    exact directory_concat (isBlank_header _).1

/-- A header is its own header, unless it consists of two dots and the extension. -/
theorem header_header_iff (h : p.split? = some (parents, name)) :
    p.header.header = p.header ↔ (IsDoubleDotted name → p.segments.getLast? = some name) := by
  obtain ⟨-, -, -, hname, -⟩ := exists_segments_of_split? h
  by_cases hstep : p.leavesParentStep name = true
  · have hlast := ((leavesParentStep_iff hname).mp hstep).2
    rw [header_of_leavesParentStep h hstep, header_eq_self split?_parentStep]
    exact iff_of_true rfl fun _ => hlast
  · have hsplit := split?_header h hstep
    have hheader := header_of_not_leavesParentStep h hstep
    have hstem := stem_header hname
    have hagain : p.header.leavesParentStep (stem name ++ ".h") = true ↔ IsDoubleDotted name := by
      rw [← stem_eq_dot_iff hname, hheader]
      simp [leavesParentStep, hstem]
    rw [leavesParentStep_iff hname, LosesName, not_and] at hstep
    by_cases hdots : IsDoubleDotted name
    · -- The header is two dots and its extension, which it loses together with the file name.
      rw [header_of_leavesParentStep hsplit (hagain.mpr hdots)]
      refine iff_of_false (fun heq => ?_) fun hlast => hstep hdots (hlast hdots)
      have hnone := @split?_parentStep parents
      rw [heq, hsplit] at hnone
      cases hnone
    · rw [header_of_not_leavesParentStep hsplit (mt hagain.mp hdots), hstem, ← hheader]
      exact iff_of_true rfl fun hdots' => absurd hdots' hdots

theorem fileName?_header_eq_iff (h : p.split? = some (parents, name))
    (hstep : ¬p.leavesParentStep name = true) :
    p.header.fileName? = p.fileName? ↔ p.extension? = some "h" := by
  rw [fileName?_of_split? (split?_header h hstep), fileName?_of_split? h, Option.some_inj,
    stem_append_eq_self_iff, extension?, fileName?_of_split? h]
  rfl

/-! ### Six paths -/

namespace Role

theorem exists_path? (r : Role) (h : p.split? = some (parents, name)) :
    ∃ q, r.path? p = some q ∧ q.fileName? = some (r.nameOf name) ∧ q.directory = p.directory := by
  have hsibling {suffix : String} (hsuffix : 2 ≤ suffix.length) :
      ∃ q, p.sibling? suffix = some q ∧ q.fileName? = some ("." ++ name ++ suffix) ∧
        q.directory = p.directory := by
    obtain ⟨hblank, hparent⟩ := @isBlank_sibling name suffix hsuffix
    refine ⟨⟨trimmedParents parents ++ ["." ++ name ++ suffix]⟩, ?_, ?_, ?_⟩
    · rw [sibling?, h]
      rfl
    · exact fileName?_of_split? (split?_append hblank hparent)
    · rw [directory_concat hblank, bare_trimmedParents, directory_of_split? h]
  cases r with
  | target => exact ⟨p, rfl, fileName?_of_split? h, rfl⟩
  | staging => exact hsibling (by decide)
  | backup => exact hsibling (by decide)

theorem map_fileName?_paths (h : p.split? = some (parents, name)) :
    (all.filterMap (·.path? p)).map fileName? = all.map fun r => some (r.nameOf name) := by
  have hrole (r : Role) : (r.path? p).map fileName? = some (some (r.nameOf name)) := by
    obtain ⟨q, hq, hname, -⟩ := r.exists_path? h
    rw [hq, Option.map_some, hname]
  rw [List.map_filterMap, ← List.filterMap_eq_map]
  exact congrArg (List.filterMap · all) (funext hrole)

end Role

/-- Six paths lead to six names in one directory. -/
structure StandApart (source : Path) : Prop where
  six : source.workingPaths.length = 6
  named : ∀ q ∈ source.workingPaths, ∃ name, q.fileName? = some name
  apart : (source.workingPaths.map fileName?).Nodup
  together : ∀ q ∈ source.workingPaths, q.directory = source.directory

theorem standApart_of_ne {name' : String} (h : source.split? = some (parents, name))
    (hheader : source.header.split? = some (parents, name')) (hpair : IsPairName name name')
    (hne : name ≠ name') : source.StandApart := by
  have hnames : source.workingPaths.map fileName? =
      ([name, name'] ×ˢ Role.all).map fun x => some (x.2.nameOf x.1) := by
    unfold workingPaths pair
    rw [List.flatMap_cons, List.flatMap_singleton, List.map_append, Role.map_fileName?_paths h,
      Role.map_fileName?_paths hheader]
    rfl
  have hpaths {p q : Path} {r : Role} {name : String} (hp : p.split? = some (parents, name))
      (hq : r.path? p = some q) :
      q.fileName? = some (r.nameOf name) ∧ q.directory = p.directory := by
    obtain ⟨q', hq', hname, hdirectory⟩ := r.exists_path? hp
    rw [hq] at hq'
    cases hq'
    exact ⟨hname, hdirectory⟩
  refine ⟨?_, ?_, ?_, ?_⟩
  · have hlength := congrArg List.length hnames
    rwa [List.length_map] at hlength
  · intro q hq
    obtain ⟨p, hp, r, hr⟩ := mem_workingPaths_iff.mp hq
    rcases List.mem_pair.mp hp with rfl | rfl
    · exact ⟨_, (hpaths h hr).1⟩
    · exact ⟨_, (hpaths hheader hr).1⟩
  · have hnodup : [name, name'].Nodup := by simpa using hne
    rw [hnames]
    refine (hnodup.product (by decide)).map_on fun x hx y hy heq => ?_
    obtain ⟨hx, -⟩ := List.mem_product.mp hx
    obtain ⟨hy, -⟩ := List.mem_product.mp hy
    have hmem {a : String} (ha : a ∈ [name, name']) : IsPairName name a := by
      rcases List.mem_pair.mp ha with rfl | rfl
      · exact .inl rfl
      · exact hpair
    obtain ⟨hrole, hname⟩ := (Role.nameOf_eq_iff (hmem hx) (hmem hy)).mp (Option.some.inj heq)
    exact Prod.ext hname hrole
  · intro q hq
    obtain ⟨p, hp, r, hr⟩ := mem_workingPaths_iff.mp hq
    rcases List.mem_pair.mp hp with rfl | rfl
    · exact (hpaths h hr).2
    · exact (hpaths hheader hr).2.trans (directory_header h)

end Path

/-- The failures of a run that was given a path it cannot use.  The file system has no part in
them. -/
def FileFailure.isInvalidInput : FileFailure → Bool
  | nulInPath => true
  | noFileName _ => true
  | directoryTarget _ => true
  | system _ => false
  | other _ => false

/-- A script fails on an invalid input before it tries its first operation. -/
def Script.Refuses (x : Script (Except FileFailure Unit)) (failure : FileFailure) : Prop :=
  failure.isInvalidInput = true ∧ x = pure (.error failure)

namespace PairWriter

open CanopenTables.Path

variable {source : Path}

theorem sibling?_eq_none (h : source.fileName? = none) (suffix : String) :
    source.sibling? suffix = none := by
  have hsplit : source.split? = none := by simpa [fileName?] using h
  rw [sibling?, hsplit]
  rfl

theorem write_refuses_source (h : source.fileName? = none) (header : Path) (files : DocumentPair) :
    (write source header files).Refuses (.noFileName source) := by
  refine ⟨rfl, ?_⟩
  unfold write
  rw [show source.staging? = none from sibling?_eq_none h _]

theorem write_refuses_header {parents : List String} {name : String} {header : Path}
    (hsource : source.split? = some (parents, name)) (h : header.fileName? = none)
    (files : DocumentPair) : (write source header files).Refuses (.noFileName header) := by
  obtain ⟨staged, hstaged, -⟩ := Role.staging.exists_path? hsource
  have hstaged : source.staging? = some staged := hstaged
  refine ⟨rfl, ?_⟩
  unfold write
  rw [hstaged, show header.staging? = none from sibling?_eq_none h _]

/-- The header of a source stands in the directory of the source, is its own header, and has
another name unless the source has its extension; and then the six paths through which the pair is
written stand apart.  The exceptions are file names of two dots and an extension: where such a name
ends the path, the header has no file name and the run is refused, and elsewhere the header is not
its own header.  A run is refused as well when the source names no file. -/
theorem pair_paths_apart (source : Path) (files : DocumentPair) :
    (∀ name, source.fileName? = some name →
      source.header.directory = source.directory ∧
      (source.header.header = source.header ↔
        (IsDoubleDotted name → source.segments.getLast? = some name)) ∧
      (¬source.LosesName name →
        (source.header.fileName? = source.fileName? ↔ source.extension? = some "h") ∧
        (source.header.fileName? ≠ source.fileName? → source.StandApart)) ∧
      (source.LosesName name →
        source.header.fileName? = none ∧
          (write source source.header files).Refuses (.noFileName source.header))) ∧
    (source.fileName? = none →
      ∀ header, (write source header files).Refuses (.noFileName source)) ∧
    (write source source.header files).Names (· ∈ source.workingPaths) fun _ => True := by
  refine ⟨fun name hname => ?_, fun h header => write_refuses_source h header files,
    names_write source files⟩
  obtain ⟨parents, hsplit⟩ := exists_split?_of_fileName? hname
  obtain ⟨-, -, -, hblank, -⟩ := exists_segments_of_split? hsplit
  refine ⟨directory_header hsplit, header_header_iff hsplit, fun hkeeps => ?_, fun hloses => ?_⟩
  · have hstep : ¬source.leavesParentStep name = true := mt (leavesParentStep_iff hblank).mp hkeeps
    have hheader := split?_header hsplit hstep
    refine ⟨fileName?_header_eq_iff hsplit hstep, fun hne => ?_⟩
    refine standApart_of_ne hsplit hheader (.inr rfl) fun heq => hne ?_
    rw [fileName?_of_split? hheader, hname, ← heq]
  · have hheader := header_of_leavesParentStep hsplit ((leavesParentStep_iff hblank).mpr hloses)
    have hnone : source.header.fileName? = none := by
      rw [hheader, fileName?, split?_parentStep]
      rfl
    exact ⟨hnone, write_refuses_header hsplit hnone files⟩

def deviceSource : Path := ⟨["out", "Dev.c"]⟩

/-- A source whose name is two dots and an extension, with a slash behind it. -/
def dottedSource : Path := ⟨["..c", ""]⟩

/-- Two sources whose six paths stand apart, one that loses its name and one without a name. -/
theorem pair_paths_apart_device :
    (deviceSource.header.header = deviceSource.header ∧ deviceSource.StandApart) ∧
    (dottedSource.header.header ≠ dottedSource.header ∧ dottedSource.StandApart) ∧
    (write ⟨["..c"]⟩ ⟨[".."]⟩ ⟨"", ""⟩).Refuses (.noFileName ⟨[".."]⟩) ∧
    (write ⟨[""]⟩ ⟨[""]⟩ ⟨"", ""⟩).Refuses (.noFileName ⟨[""]⟩) := by
  have hdots : IsDoubleDotted "..c" := ⟨"c", rfl, by decide⟩
  refine ⟨?_, ?_, ?_, ?_⟩
  · obtain ⟨-, hheader, hkeeps, -⟩ := (pair_paths_apart deviceSource ⟨"", ""⟩).1 "Dev.c" (by decide)
    have hplain : ¬IsDoubleDotted "Dev.c" := mt (stem_eq_dot_iff (by decide)).mpr (by decide)
    exact ⟨hheader.mpr (absurd · hplain), (hkeeps fun h => hplain h.1).2 (by decide)⟩
  · obtain ⟨-, hheader, hkeeps, -⟩ := (pair_paths_apart dottedSource ⟨"", ""⟩).1 "..c" (by decide)
    have hlast : dottedSource.segments.getLast? ≠ some "..c" := by decide
    exact ⟨fun heq => hlast (hheader.mp heq hdots), (hkeeps fun h => hlast h.2).2 (by decide)⟩
  · obtain ⟨-, -, -, hloses⟩ := (pair_paths_apart ⟨["..c"]⟩ ⟨"", ""⟩).1 "..c" (by decide)
    exact (hloses ⟨hdots, by decide⟩).2
  · exact (pair_paths_apart ⟨[""]⟩ ⟨"", ""⟩).2.1 (by decide) ⟨[""]⟩

/-- Not every header of a source is its own header, and not every source with the extension of a
header has the name of its header. -/
theorem not_forall_header_of_source :
    ¬(∀ source : Path, source.fileName? ≠ none → source.header.header = source.header) ∧
    ¬(∀ source : Path, source.fileName? ≠ none →
      (source.header.fileName? = source.fileName? ↔ source.extension? = some "h")) := by
  constructor
  · intro h
    exact absurd (h dottedSource (by decide)) (by decide)
  · intro h
    exact absurd ((h ⟨["..h"]⟩ (by decide)).mpr (by decide)) (by decide)

end PairWriter
end CanopenTables
