import CanopenTables.Files.PairWriter
import CanopenTables.Generation

/-!
# Publishing a dictionary

The documents of a dictionary are generated in memory and then written beside each other.  A
dictionary that cannot be generated leaves the files as they are.
-/

namespace CanopenTables.Dictionary

/-- Writes the documents of a dictionary to a path and to the header path that belongs to it. -/
def publish (d : Dictionary) (source : Path) (aliases : PointerAliases) (config : Config)
    (t : FileTree) : FileTree × Reported Unit :=
  let header := source.header
  let generated := d.generate (header.fileName?.getD "") aliases config
  match generated.outcome with
  | .error e => (t, ⟨generated.notices, .error e⟩)
  | .ok files =>
    let run := (PairWriter.write source header files).execute t
    match run.result with
    | .error e => (run.tree, ⟨generated.notices ++ run.notices, .error (.file e)⟩)
    | .ok () =>
      (run.tree,
        ⟨generated.notices ++ run.notices ++ [.published d.node.name source], .ok ()⟩)

end CanopenTables.Dictionary
