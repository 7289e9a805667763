import CanopenTables.DataType
import CanopenTables.Literal

/-!
# Variables of the generated code

A declarator says what is declared: a storage type, whether it is pointed to, a name and an extent.
Variables and arrays of elements are declarators with their first values.  Entries of the mapped
areas are defined at file scope and declared in the header; the definition and the declaration are
kept apart here, each with the place in the dictionary that its comment shows.
-/

namespace CanopenTables

/-- How many elements a declarator has. -/
inductive Extent where
  /-- It is no array. -/
  | single
  /-- An array of a given length. -/
  | fixed (length : Nat)
  /-- An array as long as its first values. -/
  | asFilled
  deriving DecidableEq, Repr

/-- The suffix of an extent. -/
def Extent.text : Extent → String
  | single => ""
  | fixed length => arraySuffix (some length)
  | asFilled => "[]"

/-- The extent of a resolved type: strings and domains are arrays of bytes. -/
def Extent.ofSize : Option Nat → Extent
  | some n => fixed n
  | none => single

/-- What is declared. -/
structure Declarator where
  /-- The storage type. -/
  storage : Storage
  /-- Whether the elements are pointers to the storage type. -/
  pointer : Bool
  /-- The name. -/
  name : String
  /-- The number of elements. -/
  extent : Extent
  deriving DecidableEq, Repr

def Declarator.text (d : Declarator) : String :=
  d.storage.text ++ (if d.pointer then "*" else "") ++ " " ++ d.name ++ d.extent.text

/-- A variable with its first value. -/
structure Variable where
  declarator : Declarator
  value : Literal
  deriving DecidableEq, Repr

/-- The text of a variable, up to the end of the statement. -/
def Variable.text (v : Variable) : String := v.declarator.text ++ " = " ++ v.value.text ++ ";"

/-- An array with the first values of its elements. -/
structure ElementArray where
  declarator : Declarator
  values : List Literal
  deriving DecidableEq, Repr

/-- The lines of first values, indented; each but the last ends in a comma. -/
def elementLines (indent : String) : List Literal → String
  | [] => ""
  | [last] => indent ++ last.text ++ last.comment ++ "\n"
  | value :: rest =>
    indent ++ value.text ++ "," ++ value.comment ++ "\n" ++ elementLines indent rest

/-- A definition at file scope. -/
inductive MappedDefinition where
  /-- The value of an entry at subindex 0. -/
  | scalar (index : Index) (v : Variable)
  /-- The value of one subindex. -/
  | member (index : Index) (sub : SubIndex) (v : Variable)
  /-- All subindexes from 1 on; `count` is the highest one that is declared. -/
  | record (index : Index) (count : Nat) (array : ElementArray)
  deriving DecidableEq, Repr

/-- A declaration in the header. -/
inductive MappedDeclaration where
  /-- The value of an entry at subindex 0. -/
  | scalar (index : Index) (declarator : Declarator)
  /-- The value of one subindex. -/
  | member (index : Index) (sub : SubIndex) (declarator : Declarator)
  /-- All subindexes from 1 on; `count` is the highest one that is declared. -/
  | record (index : Index) (count : Nat) (declarator : Declarator)
  deriving DecidableEq, Repr

/-- The comment that tells where a record is mapped. -/
def recordPlace (index : Index) (count : Nat) : String :=
  "\t\t/* Mapped at index " ++ indexText index ++ ", subindex 0x01 - " ++ hexLiteral 2 count ++
    " */\n"

/-- The comment that tells where a subindex is mapped. -/
def memberPlace (index : Index) (sub : SubIndex) : String :=
  "\t\t/* Mapped at index " ++ indexText index ++ ", subindex " ++ subIndexText sub ++ " */\n"

def MappedDefinition.text : MappedDefinition → String
  | scalar index v => v.text ++ memberPlace index 0
  | member index sub v => v.text ++ memberPlace index sub
  | record index count array =>
    array.declarator.text ++ " =" ++ recordPlace index count ++ "  \x7b\n" ++
      elementLines "    " array.values ++ "  \x7d;\n"

def MappedDeclaration.text : MappedDeclaration → String
  | scalar index d =>
    "extern " ++ d.text ++ ";\t\t/* Mapped at index " ++ indexText index ++ ", subindex 0x00*/\n"
  | member index sub d => "extern " ++ d.text ++ ";" ++ memberPlace index sub
  | record index count d => "extern " ++ d.text ++ ";" ++ recordPlace index count

end CanopenTables
