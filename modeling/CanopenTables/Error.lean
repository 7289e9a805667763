import CanopenTables.Profile
import CanopenTables.Files.Failure
import CanopenTables.Numeral.Positional

/-!
# Errors of a generation

Every error ends the run; nothing is written then.
-/

namespace CanopenTables

/-- Hexadecimal notation of at least so many digits behind `0x`. -/
def hexLiteral (width n : Nat) : String := "0x" ++ Numeral.upperHex width n

def indexText (i : Index) : String := hexLiteral 4 i.toNat

def subIndexText (k : SubIndex) : String := hexLiteral 2 k.toNat

/-- Why a generation failed. -/
inductive GenerationError where
  /-- The name denotes no supported data type. -/
  | unresolvableType (name : String)
  /-- A domain that the application uses by name has no bytes to start with. -/
  | uninitializedDomain (index : Index) (sub : SubIndex)
  /-- A type code has no name. -/
  | missingTypeDefinition (code : UInt16)
  /-- A value cannot be written as what is expected at its place. -/
  | invalidValue (index : Index) (sub : SubIndex) (expected : String)
  /-- An entry, or a subindex of it, is missing. -/
  | missingEntry (index : Index) (sub : Option SubIndex)
  /-- A text could not be put together. -/
  | formatting
  /-- A document could not be written. -/
  | file (failure : FileFailure)
  deriving DecidableEq, Repr

namespace GenerationError

def message : GenerationError → String
  | unresolvableType name => name ++ " isn't a valid type for CanFestival"
  | uninitializedDomain index sub =>
    "Domain variable not initialized (index " ++ indexText index ++ ", subindex " ++
      subIndexText sub ++ ")"
  | missingTypeDefinition code =>
    "Datatype with value \"" ++ indexText code ++ "\" isn't defined in CanFestival"
  | invalidValue index sub expected =>
    "Value at index " ++ indexText index ++ " subindex " ++ subIndexText sub ++
      " cannot be rendered as " ++ expected
  | missingEntry index (some sub) =>
    "Missing subindex " ++ subIndexText sub ++ " of index " ++ indexText index
  | missingEntry index none => "Missing entry for index " ++ indexText index
  | formatting => "Formatting error: an error occurred when formatting an argument"
  | file failure => "Unable to write generated file: " ++ failure.message

/-- Whether the error passes on a failure of something beneath. -/
def hasCause : GenerationError → Bool
  | formatting => true
  | file _ => true
  | _ => false

end GenerationError
end CanopenTables
