import CanopenTables.Files.Tree
import CanopenTables.Notice

/-!
# Scripts of file operations

A script is a program whose only effects are file operations, the question whether a path is a
directory, and reports.  It is data: it can be carried out on a file tree, and it can as well be
followed step by step where single operations fail or the run stops in between.
-/

namespace CanopenTables

/-- A program of file operations. -/
inductive Script (α : Type) where
  /-- The program is at its end. -/
  | done (result : α)
  /-- Tries an operation and goes on with its outcome. -/
  | attempt (command : FileCommand) (next : Except FileFailure Unit → Script α)
  /-- Asks whether a path is a directory. -/
  | probe (path : Path) (next : Bool → Script α)
  /-- Reports a notice. -/
  | report (notice : Notice) (next : Script α)

namespace Script

variable {α β : Type}

/-- Goes on with a second script at the end of the first. -/
def andThen : Script α → (α → Script β) → Script β
  | done a, f => f a
  | attempt command next, f => attempt command fun r => (next r).andThen f
  | probe path next, f => probe path fun r => (next r).andThen f
  | report notice next, f => report notice (next.andThen f)

instance : Monad Script where
  pure := done
  bind := andThen

def run (command : FileCommand) : Script (Except FileFailure Unit) := attempt command done

def isDirectory (path : Path) : Script Bool := probe path done

def tell (notice : Notice) : Script Unit := report notice (done ())

/-- What an operation leaves behind: a failing one changes nothing. -/
def outcome (t : FileTree) (command : FileCommand) : FileTree × Except FileFailure Unit :=
  match t.perform command with
  | .ok t' => (t', .ok ())
  | .error e => (t, .error e)

/-- The result of carrying out a script on a file tree. -/
structure Execution (α : Type) where
  tree : FileTree
  notices : List Notice
  result : α

def execute (t : FileTree) : Script α → Execution α
  | done a => ⟨t, [], a⟩
  | attempt command next =>
    let (t', r) := outcome t command
    execute t' (next r)
  | probe path next => execute t (next (t.isDirectory path))
  | report notice next =>
    let rest := execute t next
    { rest with notices := notice :: rest.notices }

end Script
end CanopenTables
