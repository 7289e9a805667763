import CanopenTables.Files.Path

/-!
# Failures of file operations

A failure is either an answer of the file system or a refusal before the file system is asked.
-/

namespace CanopenTables

/-- The answers of a file system that refuses an operation. -/
inductive SystemError where
  /-- A directory on the way or the file itself is missing. -/
  | notFound
  /-- A directory is needed where something else stands. -/
  | notADirectory
  /-- Something else is needed where a directory stands. -/
  | isADirectory
  /-- A segment or the whole path is too long. -/
  | nameTooLong
  deriving DecidableEq, Repr

def SystemError.message : SystemError → String
  | notFound => "No such file or directory (os error 2)"
  | notADirectory => "Not a directory (os error 20)"
  | isADirectory => "Is a directory (os error 21)"
  | nameTooLong => "File name too long (os error 36)"

/-- Why a file operation failed. -/
inductive FileFailure where
  /-- The file system refused. -/
  | system (error : SystemError)
  /-- The path holds a character that no path may hold. -/
  | nulInPath
  /-- The path names no file. -/
  | noFileName (path : Path)
  /-- The path of a file to be replaced is a directory. -/
  | directoryTarget (path : Path)
  /-- Any other cause, in words. -/
  | other (text : String)
  deriving DecidableEq, Repr

def FileFailure.message : FileFailure → String
  | system error => error.message
  | nulInPath => "file name contained an unexpected NUL byte"
  | noFileName path => "'" ++ path.text ++ "' does not name a file"
  | directoryTarget path => "'" ++ path.text ++ "' is a directory"
  | other text => text

end CanopenTables
