import CanopenTables.Code.Symbol
import CanopenTables.Code.Variable
import CanopenTables.Entry

/-!
# Blocks of the object dictionary section

Each listed index has one block: a title comment, the variables that are defined there, the callback
array if changes are reported, and the subindex table.  Row `k` of the table describes subindex `k`
and holds the address of the variable behind it.
-/

namespace CanopenTables

inductive SizeColumn where
  /-- A number of bytes. -/
  | bytes (n : Nat)
  /-- The size of a storage type. -/
  | sizeOf (storage : Storage)
  deriving DecidableEq, Repr

def SizeColumn.text : SizeColumn → String
  | bytes n => Numeral.decimal n
  | sizeOf storage => "sizeof (" ++ storage.text ++ ")"

/-- A row of a subindex table. -/
structure Row where
  /-- The access right. -/
  access : Access
  /-- Whether the value has to survive a power cycle. -/
  save : Bool
  /-- The data type, of which the row shows the kind. -/
  type : ResolvedType
  /-- The size. -/
  size : SizeColumn
  /-- The variable whose address the row holds. -/
  target : String
  deriving DecidableEq, Repr

def Row.text (r : Row) : String :=
  "\x7b " ++ r.access.token ++ (if r.save then "|TO_BE_SAVE" else "") ++ ", " ++ r.type.kind.tag ++
    ", " ++ r.size.text ++ ", (void*)&" ++ r.target ++ " \x7d"

/-- What the title comment of a block says. -/
inductive Title where
  /-- An entry whose variables stand in the block. -/
  | inPlace (name : String)
  /-- An entry whose variables stand at file scope. -/
  | mapped (name : String)
  /-- An entry that the dictionary lacks; some of these lines end in a blank. -/
  | fallback (name : String) (blankAtEnd : Bool)
  deriving DecidableEq, Repr

/-- The end of a title line, from the name on. -/
def Title.text : Title → String
  | inPlace name => name ++ ". */"
  | mapped name => "Mapped variable " ++ name ++ " */"
  | fallback name blankAtEnd => name ++ " */" ++ (if blankAtEnd then " " else "")

def blockIndent : String := "                    "

/-- A part of a block. -/
inductive BlockItem where
  /-- The variable that holds the highest subindex. -/
  | highest (storage : Storage) (name : String) (value : Nat)
  /-- A variable. -/
  | single (v : Variable)
  /-- An array of elements. -/
  | elements (array : ElementArray)
  /-- An array of one zero, for an entry without elements. -/
  | zeroElement (storage : Storage) (name : String)
  /-- A callback array, with a free place for each subindex. -/
  | callbacks (name : String) (places : Nat)
  /-- The subindex table. -/
  | table (name : String) (rows : List Row)
  deriving DecidableEq, Repr

/-- The lines of the rows; each but the last ends in a comma. -/
def rowLines : List Row → String
  | [] => ""
  | [last] => "                       " ++ last.text ++ "\n"
  | row :: rest => "                       " ++ row.text ++ ",\n" ++ rowLines rest

namespace BlockItem

def name : BlockItem → String
  | highest _ name _ => name
  | single v => v.declarator.name
  | elements array => array.declarator.name
  | zeroElement _ name => name
  | callbacks name _ => Symbol.callbacks name
  | table name _ => name

def text : BlockItem → String
  | highest storage name value =>
    blockIndent ++ storage.text ++ " " ++ name ++ " = " ++ Numeral.decimal value ++
      "; /* number of subindex - 1*/\n"
  | single v => blockIndent ++ v.text ++ v.value.comment ++ "\n"
  | elements array =>
    blockIndent ++ array.declarator.text ++ " = \n" ++ blockIndent ++ "\x7b\n" ++
      elementLines "                      " array.values ++ blockIndent ++ "\x7d;\n"
  | zeroElement storage name => blockIndent ++ storage.text ++ " " ++ name ++ "[]=\x7b0\x7d;\n"
  | callbacks name places =>
    blockIndent ++ "ODCallback_t " ++ Symbol.callbacks name ++ "[] = \n" ++ blockIndent ++
      " \x7b\n" ++ String.join (List.replicate places "                       NULL,\n") ++
      blockIndent ++ " \x7d;\n"
  | table name rows =>
    blockIndent ++ "subindex " ++ name ++ "[] = \n" ++ blockIndent ++ " \x7b\n" ++ rowLines rows ++
      blockIndent ++ " \x7d;\n"

end BlockItem

/-- What stands in the object dictionary section for one index. -/
structure Block where
  index : Index
  title : Title
  items : List BlockItem
  deriving DecidableEq, Repr

namespace Block

def titleLine (b : Block) : String :=
  "/* index " ++ indexText b.index ++ " :   " ++ b.title.text ++ "\n"

def text (b : Block) : String :=
  "\n" ++ b.titleLine ++ String.join (b.items.map BlockItem.text)

def names (b : Block) : List String := b.items.map BlockItem.name

end Block
end CanopenTables
