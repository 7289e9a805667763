/-!
# Paths

A path is the list of segments between its slashes, so its text is kept as it was given.  Blank
segments (nothing, or a single dot) name nothing of their own: a path names a file by its last
segment that is not blank, provided that this is not the step to the parent directory.

* `Path.header`: the path of the header that belongs to a source file: the extension is replaced.
* `Path.sibling?`: a hidden file in the same directory, marked by a suffix.
-/

namespace CanopenTables

/-- A path, by the segments between its slashes. -/
structure Path where
  segments : List String
  deriving DecidableEq, Repr

namespace Path

def ofText (s : String) : Path := ⟨(s.toList.splitOn '/').map String.ofList⟩

def text (p : Path) : String := "/".intercalate p.segments

/-- Segments that name nothing of their own. -/
def isBlank (segment : String) : Bool := segment == "" || segment == "."

/-- The segments before the file name, and the file name. -/
def split? (p : Path) : Option (List String × String) :=
  match p.segments.reverse.dropWhile isBlank with
  | [] => none
  | name :: parents => if name = ".." then none else some (parents.reverse, name)

def fileName? (p : Path) : Option String := p.split?.map (·.2)

/-- A file name without its extension, which begins at the last dot.  A name whose only dot is its
first character has none. -/
def stem (name : String) : String :=
  match name.toList.reverse.dropWhile (· ≠ '.') with
  | [] => name
  | _ :: before => if before.isEmpty then name else String.ofList before.reverse

/-- Whether a path ends in a file name that is two dots and an extension.  Without the extension the
two dots are left, and these are the step to the parent directory. -/
def leavesParentStep (p : Path) (name : String) : Bool :=
  p.segments.getLast? = some name && stem name = "."

/-- The path of the header beside a source file.  The extension is taken off before the new one is
put on, and only a file name can carry a new one: a path that names no file stays as it is, and so
does the step to the parent directory that `..c` leaves.  What follows the file name is dropped. -/
def header (p : Path) : Path :=
  match p.split? with
  | some (parents, name) =>
    if p.leavesParentStep name then ⟨parents ++ [".."]⟩ else ⟨parents ++ [stem name ++ ".h"]⟩
  | none => p

/-- The directory part of a path in its shortest text: blank segments at its end are dropped, except
for the first segment, which tells an absolute path and a leading dot apart from other paths. -/
def trimmedParents : List String → List String
  | [] => []
  | first :: rest => first :: (rest.reverse.dropWhile isBlank).reverse

/-- The hidden file beside the named one whose name carries a suffix. -/
def sibling? (p : Path) (suffix : String) : Option Path :=
  p.split?.map fun (parents, name) => ⟨trimmedParents parents ++ ["." ++ name ++ suffix]⟩

/-- Where the new content of a file is written before it takes the file's place. -/
def staging? (p : Path) : Option Path := p.sibling? ".tmp"

/-- Where the old content of a file is kept while the new one takes its place. -/
def backup? (p : Path) : Option Path := p.sibling? ".bak"

end Path
end CanopenTables
