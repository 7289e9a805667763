import CanopenTables.Files.Failure

/-!
# A tree of files

Directories and regular files below one top directory, which is also the working directory.  The
operations answer as a Linux file system does: a missing directory on the way is not found, a file
on the way is no directory, and a path that ends in a slash cannot name a regular file.

* `put` writes a file, `remove` deletes one, `move` puts one in the place of another.
* `listing` shows the tree depth first, each directory in the order of its names.
-/

namespace CanopenTables

/-- Where something stands: the names from the top directory down. -/
abbrev Location := List String

/-- What can stand at a location. -/
inductive Item where
  | file (content : String)
  | directory
  deriving DecidableEq, Repr

/-- A tree of files; the top directory is not listed. -/
structure FileTree where
  items : List (Location × Item)
  deriving DecidableEq, Repr

/-- A file operation. -/
inductive FileCommand where
  /-- Writes a file. -/
  | put (path : Path) (content : String)
  /-- Moves a regular file to another path, replacing a regular file there. -/
  | move (source target : Path)
  /-- Deletes a regular file. -/
  | remove (path : Path)
  deriving DecidableEq, Repr

namespace FileTree

/-- The tree with nothing in its top directory. -/
def empty : FileTree := ⟨[]⟩

/-- What stands at a location. -/
def get? (t : FileTree) (l : Location) : Option Item :=
  if l = [] then some .directory else t.items.lookup l

def erase (t : FileTree) (l : Location) : FileTree := ⟨t.items.filter fun b => b.1 ≠ l⟩

def set (t : FileTree) (l : Location) (item : Item) : FileTree := ⟨(l, item) :: (t.erase l).items⟩

theorem lookup_filter_ne (l l' : Location) (items : List (Location × Item)) :
    (items.filter fun b => b.1 ≠ l).lookup l' = if l' = l then none else items.lookup l' := by
  induction items with
  | nil => simp
  | cons b rest ih =>
    obtain ⟨m, item⟩ := b
    by_cases hm : m = l
    · subst hm
      rw [List.filter_cons_of_neg (by simp), ih, List.lookup_cons]
      by_cases h : l' = m
      · simp [h]
      · simp [h, beq_eq_false_iff_ne.mpr h]
    · rw [List.filter_cons_of_pos (by simpa using hm), List.lookup_cons, List.lookup_cons, ih]
      by_cases h : l' = l
      · simp [h, beq_eq_false_iff_ne.mpr (Ne.symm hm)]
      · simp [h]

theorem get?_erase {t : FileTree} {l l' : Location} (hl : l ≠ []) :
    (t.erase l).get? l' = if l' = l then none else t.get? l' := by
  unfold get? erase
  rw [lookup_filter_ne]
  by_cases h : l' = l
  · simp [h, hl]
  · simp [h]

/-- After an item was put at a location it stands there, and all else is as before. -/
theorem get?_set {t : FileTree} {l l' : Location} {item : Item} (hl : l ≠ []) :
    (t.set l item).get? l' = if l' = l then some item else t.get? l' := by
  unfold get? set erase
  rw [List.lookup_cons, lookup_filter_ne]
  by_cases h : l' = l
  · simp [h, hl]
  · have : (l' == l) = false := by simpa using h
    simp [h, this]

/-! ### Finding a location -/

/-- The longest name, in bytes. -/
def longestName : Nat := 255

/-- The longest path, in bytes. -/
def longestPath : Nat := 4095

/-- What stands under a name in a directory. -/
def look (t : FileTree) (parent : Location) (name : String) : Except SystemError (Option Item) :=
  if longestName < name.utf8ByteSize then .error .nameTooLong
  else .ok (t.get? (parent ++ [name]))

/-- Follows segments from a directory.  Each has to name a directory; the step above the top
directory stays there. -/
def enter (t : FileTree) (location : Location) : List String → Except SystemError Location
  | [] => .ok location
  | segment :: rest =>
    if Path.isBlank segment then t.enter location rest
    else if segment = ".." then t.enter location.dropLast rest
    else
      match t.look location segment with
      | .error e => .error e
      | .ok none => .error .notFound
      | .ok (some (.file _)) => .error .notADirectory
      | .ok (some .directory) => t.enter (location ++ [segment]) rest

/-- What a path leads to. -/
inductive Destination where
  /-- A directory that is reached without a name of its own. -/
  | directory (location : Location)
  /-- A name in a directory, behind which a slash may stand. -/
  | name (parent : Location) (name : String) (slash : Bool)
  deriving DecidableEq, Repr

/-- Follows a path up to its last name. -/
def resolve (t : FileTree) (p : Path) : Except SystemError Destination :=
  if longestPath < p.text.utf8ByteSize then .error .nameTooLong
  else
    match p.segments.reverse.dropWhile (· = "") with
    | [] => if p.text = "" then .error .notFound else .ok (.directory [])
    | last :: before =>
      if last = "." ∨ last = ".." then
        (t.enter [] (last :: before).reverse).map .directory
      else
        (t.enter [] before.reverse).map fun parent =>
          .name parent last (p.segments.getLast? = some "")

/-! ### Operations -/

/-- Writes a file.  A path that ends in a slash asks for a directory. -/
def put (t : FileTree) (p : Path) (content : String) : Except SystemError FileTree := do
  match ← t.resolve p with
  | .directory _ => .error .isADirectory
  | .name parent name slash =>
    if slash then .error .isADirectory
    else
      match ← t.look parent name with
      | some .directory => .error .isADirectory
      | _ => .ok (t.set (parent ++ [name]) (.file content))

/-- Deletes a regular file. -/
def remove (t : FileTree) (p : Path) : Except SystemError FileTree := do
  match ← t.resolve p with
  | .directory _ => .error .isADirectory
  | .name parent name slash =>
    match ← t.look parent name with
    | none => .error .notFound
    | some .directory => .error .isADirectory
    | some (.file _) => if slash then .error .notADirectory else .ok (t.erase (parent ++ [name]))

/-- Moves a regular file, replacing a regular file at the target.  Directories are not moved. -/
def move (t : FileTree) (source target : Path) : Except SystemError FileTree := do
  match ← t.resolve source, ← t.resolve target with
  | .name parent name slash, .name parent' name' slash' =>
    match ← t.look parent name with
    | none => .error .notFound
    | some .directory => .error .isADirectory
    | some (.file content) =>
      let standing ← t.look parent' name'
      if slash ∨ slash' then .error .notADirectory
      else if standing = some .directory then .error .isADirectory
      else
        let target := parent' ++ [name']
        .ok ((t.erase (parent ++ [name])).set target (.file content))
  | _, _ => .error .isADirectory

def isDirectory (t : FileTree) (p : Path) : Bool :=
  match t.resolve p with
  | .error _ => false
  | .ok (.directory _) => true
  | .ok (.name parent name _) =>
    match t.look parent name with
    | .ok (some .directory) => true
    | _ => false

/-- The content of the regular file that a path leads to. -/
def content? (t : FileTree) (p : Path) : Option String :=
  match t.resolve p with
  | .ok (.name parent name false) =>
    match t.look parent name with
    | .ok (some (.file content)) => some content
    | _ => none
  | _ => none

/-- Carries out an operation.  A path that holds a NUL character is refused beforehand. -/
def perform (t : FileTree) (command : FileCommand) : Except FileFailure FileTree :=
  let paths := match command with
    | .put path _ => [path]
    | .move source target => [source, target]
    | .remove path => [path]
  if paths.any fun p => p.text.toList.contains '\x00' then .error .nulInPath
  else
    (match command with
      | .put path content => t.put path content
      | .move source target => t.move source target
      | .remove path => t.remove path).mapError .system

/-- Follows segments from a directory and makes each directory that is missing on the way.  It ends
at a regular file and at a name that is too long. -/
def makeDirectoriesFrom (t : FileTree) (location : Location) : List String → FileTree
  | [] => t
  | segment :: rest =>
    if Path.isBlank segment then t.makeDirectoriesFrom location rest
    else if segment = ".." then t.makeDirectoriesFrom location.dropLast rest
    else
      match t.look location segment with
      | .ok none =>
        (t.set (location ++ [segment]) .directory).makeDirectoriesFrom (location ++ [segment]) rest
      | .ok (some .directory) => t.makeDirectoriesFrom (location ++ [segment]) rest
      | _ => t

/-- Makes a directory, with all directories on the way to it. -/
def makeDirectory (t : FileTree) (p : Path) : FileTree := t.makeDirectoriesFrom [] p.segments

/-! ### Listing -/

/-- The order of locations: a directory stands before what it holds, and names are compared
character by character. -/
def comesBefore : Location → Location → Bool
  | [], _ => true
  | _ :: _, [] => false
  | a :: as, b :: bs => if a = b then comesBefore as bs else a < b

/-- Everything in the tree, depth first. -/
def listing (t : FileTree) : List (Location × Item) :=
  t.items.mergeSort fun a b => comesBefore a.1 b.1

end FileTree
end CanopenTables
