import CanopenTables.Generation
import CanopenTables.Proofs.NumberTexts

/-!
# Printed lines

A document is a structure of typed parts, and what holds of the parts says something about its text
only if the printed lines are known.  Here the lines are spelled out once more, without the
functions that print them (`spelled`), and it is shown where they stand.

* **Within a text** (`PrintsIn`) there may be anything in front and behind.
* **In its section.**  A document is a sequence of parts, some of which stand between fixed lines
  (`SourceDocument.printsIn_of_neighbours`), and each block stands in the object dictionary section
  with all its items (`SourceDocument.printsAt_of_mem_items`).
* **Line by line.**  Rows and first values are written with a comma behind all lines but the last
  (`dividedLines`).
-/

namespace CanopenTables

/-! ### Texts within texts -/

/-- A text stands within another one. -/
def PrintsIn (part text : String) : Prop := ∃ front back, text = front ++ part ++ back

namespace PrintsIn

theorem refl (text : String) : PrintsIn text text := ⟨"", "", by simp⟩

theorem trans {a b c : String} (hab : PrintsIn a b) (hbc : PrintsIn b c) : PrintsIn a c := by
  obtain ⟨front, back, rfl⟩ := hab
  obtain ⟨front', back', rfl⟩ := hbc
  exact ⟨front' ++ front, back ++ back', by simp only [String.append_assoc]⟩

theorem append_left {part text : String} (h : PrintsIn part text) (front : String) :
    PrintsIn part (front ++ text) :=
  h.trans ⟨front, "", by simp⟩

theorem append_right {part text : String} (h : PrintsIn part text) (back : String) :
    PrintsIn part (text ++ back) :=
  h.trans ⟨"", back, by simp⟩

theorem of_eq_append {part text : String} (back : String) (h : text = part ++ back) :
    PrintsIn part text :=
  ⟨"", back, by rw [h, String.empty_append]⟩

theorem join_of_mem {part : String} {texts : List String} (h : part ∈ texts) :
    PrintsIn part (String.join texts) := by
  obtain ⟨before, after, rfl⟩ := List.append_of_mem h
  refine ⟨String.join before, String.join after, ?_⟩
  rw [String.join_append, String.join_cons, String.append_assoc]

end PrintsIn

/-! ### Lines -/

/-- Lines of two parts; every line but the last has a comma between the parts. -/
def dividedLines (indent : String) (lines : List (String × String)) : String :=
  String.join <| lines.zipIdx.map fun (line, k) =>
    indent ++ line.1 ++ (if k + 1 = lines.length then "" else ",") ++ line.2 ++ "\n"

theorem dividedLines_singleton (indent : String) (line : String × String) :
    dividedLines indent [line] = indent ++ line.1 ++ line.2 ++ "\n" := by
  simp [dividedLines]

/-- The first of several lines has a comma, and does not count for the others. -/
theorem dividedLines_cons (indent : String) (line next : String × String)
    (lines : List (String × String)) :
    dividedLines indent (line :: next :: lines) =
      indent ++ line.1 ++ "," ++ line.2 ++ "\n" ++ dividedLines indent (next :: lines) := by
  unfold dividedLines
  rw [List.zipIdx_cons, List.map_cons, String.join_cons, List.length_cons]
  congr 1
  rw [List.zipIdx_succ, List.map_map]
  refine congrArg String.join (List.map_congr_left ?_)
  rintro ⟨line', k⟩ -
  simp

theorem elementLines_eq (indent : String) (literals : List Literal) :
    elementLines indent literals =
      dividedLines indent (literals.map fun v => (v.text, v.comment)) := by
  induction literals with
  | nil => rfl
  | cons v rest ih =>
    cases rest with
    | nil => rw [List.map_singleton, dividedLines_singleton, elementLines]
    | cons next rest =>
      rw [elementLines, ih]
      · simp only [List.map_cons, dividedLines_cons]
      · exact List.cons_ne_nil next rest

def rowIndent : String := "                       "

theorem rowLines_eq (rows : List Row) :
    rowLines rows = dividedLines rowIndent (rows.map fun row => (row.text, "")) := by
  induction rows with
  | nil => rfl
  | cons row rest ih =>
    cases rest with
    | nil =>
      rw [List.map_singleton, dividedLines_singleton, String.append_empty]
      rfl
    | cons next rest =>
      have hcomma : ",\n" = "," ++ "\n" := rfl
      have hfirst : rowLines (row :: next :: rest) =
          rowIndent ++ row.text ++ ",\n" ++ rowLines (next :: rest) := rfl
      rw [hfirst, ih, hcomma]
      simp only [List.map_cons, dividedLines_cons, String.append_empty, String.append_assoc]

/-- The lines of an array: each element with its comment. -/
def ElementArray.lines (array : ElementArray) : List (String × String) :=
  array.values.map fun v => (v.text, v.comment)

theorem MappedDefinition.text_record (i : Index) (n : Nat) (array : ElementArray) :
    (MappedDefinition.record i n array).text =
      array.declarator.text ++ " =" ++ recordPlace i n ++ "  \x7b\n" ++
        dividedLines "    " array.lines ++ "  \x7d;\n" := by
  rw [text, elementLines_eq]
  rfl

theorem BlockItem.text_elements (array : ElementArray) :
    (BlockItem.elements array).text =
      blockIndent ++ array.declarator.text ++ " = \n" ++ blockIndent ++ "\x7b\n" ++
        dividedLines "                      " array.lines ++ blockIndent ++ "\x7d;\n" := by
  rw [text, elementLines_eq]
  rfl

theorem BlockItem.text_table (name : String) (rows : List Row) :
    (BlockItem.table name rows).text =
      blockIndent ++ "subindex " ++ name ++ "[] = \n" ++ blockIndent ++ " \x7b\n" ++
        dividedLines rowIndent (rows.map fun row => (row.text, "")) ++ blockIndent ++
        " \x7d;\n" := by
  rw [text, rowLines_eq]

/-! ### Variables -/

def Storage.spelled : Storage → String
  | unsigned width => "UNS" ++ Numeral.decimal width
  | integer width => "INTEGER" ++ Numeral.decimal width
  | real width => "REAL" ++ Numeral.decimal width

theorem Storage.text_eq_spelled (storage : Storage) : storage.text = storage.spelled := by
  cases storage with
  | unsigned width => rfl
  | integer width => rfl
  | real width => rfl

/-- The suffix that makes an array. -/
def Extent.spelled : Extent → String
  | single => ""
  | fixed length => "[" ++ Numeral.decimal length ++ "]"
  | asFilled => "[]"

theorem Extent.text_eq_spelled (extent : Extent) : extent.text = extent.spelled := by
  cases extent with
  | single => rfl
  | fixed length => rfl
  | asFilled => rfl

/-- Storage type, star of a pointer, name and suffix. -/
def Declarator.spelled (v : Declarator) : String :=
  v.storage.spelled ++ (if v.pointer then "*" else "") ++ " " ++ v.name ++ v.extent.spelled

theorem Declarator.text_eq_spelled (v : Declarator) : v.text = v.spelled := by
  unfold text spelled
  rw [Storage.text_eq_spelled, Extent.text_eq_spelled]

namespace MappedDefinition

/-- The lines with which the source defines a variable. -/
def spelled : MappedDefinition → String
  | scalar i v => v.declarator.spelled ++ " = " ++ v.value.text ++ ";" ++ memberPlace i 0
  | member i k v => v.declarator.spelled ++ " = " ++ v.value.text ++ ";" ++ memberPlace i k
  | record i n array =>
    array.declarator.spelled ++ " =" ++ recordPlace i n ++ "  \x7b\n" ++
      dividedLines "    " array.lines ++ "  \x7d;\n"

theorem text_eq_spelled (m : MappedDefinition) : m.text = m.spelled := by
  cases m with
  | scalar i v => rw [text, spelled, Variable.text, v.declarator.text_eq_spelled]
  | member i k v => rw [text, spelled, Variable.text, v.declarator.text_eq_spelled]
  | record i n array => rw [text_record, spelled, array.declarator.text_eq_spelled]

/-- The line with which the header declares the variable that a definition defines; a record has
the length of its first values there. -/
def spelledExtern : MappedDefinition → String
  | scalar i v =>
    "extern " ++ v.declarator.spelled ++ ";\t\t/* Mapped at index " ++ indexText i ++
      ", subindex 0x00*/\n"
  | member i k v => "extern " ++ v.declarator.spelled ++ ";" ++ memberPlace i k
  | record i n array =>
    "extern " ++ { array.declarator with extent := .fixed array.values.length }.spelled ++ ";" ++
      recordPlace i n

end MappedDefinition

/-- A text declares a variable: by itself, as an element of an array that is as long as its first
values, or as the only zero of an array. -/
inductive Declares (text : String) : Declarator → Prop
  | alone {v : Declarator} (h : PrintsIn (v.spelled ++ " = ") text) : Declares text v
  | element {array : Declarator} (k : Nat) (h : PrintsIn (array.spelled ++ " =") text) :
    Declares text ⟨array.storage, array.pointer, Symbol.element array.name k, .single⟩
  | zero {storage : Storage} {name : String}
    (h : PrintsIn (storage.spelled ++ " " ++ name ++ "[]=\x7b0\x7d;") text) :
    Declares text ⟨storage, false, Symbol.element name 0, .single⟩

theorem Declares.mono {text text' : String} {v : Declarator} (h : Declares text v)
    (htext : PrintsIn text text') : Declares text' v := by
  cases h with
  | alone h => exact .alone (h.trans htext)
  | element k h => exact .element k (h.trans htext)
  | zero h => exact .zero (h.trans htext)

/-! ### Rows and blocks -/

def RangeId.spelled : RangeId → String
  | errorCount => "valueRange_EMC"
  | numbered n => "valueRange_" ++ Numeral.decimal n

theorem RangeId.text_eq_spelled (id : RangeId) : id.text = id.spelled := by
  cases id with
  | errorCount => rfl
  | numbered n => rfl

/-- The tag of a kind; a range shows its constant. -/
def Kind.spelled : Kind → String
  | unsigned width => "uint" ++ Numeral.decimal width
  | integer width => "int" ++ Numeral.decimal width
  | real width => "real" ++ Numeral.decimal width
  | visibleString => "visible_string"
  | domain => "domain"
  | boolean => "boolean"
  | valueRange id => id.spelled

theorem Kind.tag_eq_spelled (kind : Kind) : kind.tag = kind.spelled := by
  cases kind with
  | valueRange id => exact id.text_eq_spelled
  | _ => rfl

/-- A row of a subindex table, between its braces. -/
def Row.spelled (row : Row) : String :=
  "\x7b " ++ row.access.token ++ (if row.save then "|TO_BE_SAVE" else "") ++ ", " ++
    row.type.kind.spelled ++ ", " ++
    (match row.size with
      | .bytes n => Numeral.decimal n
      | .sizeOf storage => "sizeof (" ++ storage.spelled ++ ")") ++
    ", (void*)&" ++ row.target ++ " \x7d"

theorem Row.text_eq_spelled (row : Row) : row.text = row.spelled := by
  unfold text spelled SizeColumn.text
  rw [row.type.kind.tag_eq_spelled]
  cases row.size with
  | bytes n => rfl
  | sizeOf storage =>
    dsimp only
    rw [storage.text_eq_spelled]

/-- The lines of a part of a block behind the indentation. -/
def BlockItem.spelled : BlockItem → String
  | highest storage name n =>
    storage.spelled ++ " " ++ name ++ " = " ++ Numeral.decimal n ++
      "; /* number of subindex - 1*/\n"
  | single v => v.declarator.spelled ++ " = " ++ v.value.text ++ ";" ++ v.value.comment ++ "\n"
  | elements array =>
    array.declarator.spelled ++ " = \n" ++ blockIndent ++ "\x7b\n" ++
      dividedLines "                      " array.lines ++ blockIndent ++ "\x7d;\n"
  | zeroElement storage name => storage.spelled ++ " " ++ name ++ "[]=\x7b0\x7d;\n"
  | callbacks name places =>
    "ODCallback_t " ++ Symbol.callbacks name ++ "[] = \n" ++ blockIndent ++ " \x7b\n" ++
      String.join (List.replicate places "                       NULL,\n") ++ blockIndent ++
      " \x7d;\n"
  | table name rows =>
    "subindex " ++ name ++ "[] = \n" ++ blockIndent ++ " \x7b\n" ++
      dividedLines rowIndent (rows.map fun row => (row.spelled, "")) ++ blockIndent ++ " \x7d;\n"

theorem BlockItem.text_eq_spelled (item : BlockItem) : item.text = blockIndent ++ item.spelled := by
  unfold spelled
  cases item with
  | highest storage name n =>
    rw [text, storage.text_eq_spelled]
    simp only [String.append_assoc]
  | single v =>
    rw [text, Variable.text, v.declarator.text_eq_spelled]
    simp only [String.append_assoc]
  | elements array =>
    rw [text_elements, array.declarator.text_eq_spelled]
    simp only [String.append_assoc]
  | zeroElement storage name =>
    rw [text, storage.text_eq_spelled]
    simp only [String.append_assoc]
  | callbacks name places =>
    rw [text]
    simp only [String.append_assoc]
  | table name rows =>
    rw [text_table]
    simp only [Row.text_eq_spelled, String.append_assoc]

theorem BlockItem.printsIn_name (item : BlockItem) : PrintsIn item.name item.spelled := by
  unfold name spelled
  cases item with
  | highest storage name n =>
    exact ⟨storage.spelled ++ " ", " = " ++ Numeral.decimal n ++ "; /* number of subindex - 1*/\n",
      by simp only [String.append_assoc]⟩
  | single v =>
    refine ⟨v.declarator.storage.spelled ++ (if v.declarator.pointer then "*" else "") ++ " ",
      v.declarator.extent.spelled ++ " = " ++ v.value.text ++ ";" ++ v.value.comment ++ "\n", ?_⟩
    unfold Declarator.spelled
    simp only [String.append_assoc]
  | elements array =>
    refine ⟨array.declarator.storage.spelled ++
      (if array.declarator.pointer then "*" else "") ++ " ",
      array.declarator.extent.spelled ++ " = \n" ++ blockIndent ++ "\x7b\n" ++
        dividedLines "                      " array.lines ++ blockIndent ++ "\x7d;\n", ?_⟩
    unfold Declarator.spelled
    simp only [String.append_assoc]
  | zeroElement storage name =>
    exact ⟨storage.spelled ++ " ", "[]=\x7b0\x7d;\n", by simp only [String.append_assoc]⟩
  | callbacks name places =>
    exact ⟨"ODCallback_t ", "[] = \n" ++ blockIndent ++ " \x7b\n" ++
      String.join (List.replicate places "                       NULL,\n") ++ blockIndent ++
      " \x7d;\n", by simp only [String.append_assoc]⟩
  | table name rows =>
    exact ⟨"subindex ", "[] = \n" ++ blockIndent ++ " \x7b\n" ++
      dividedLines rowIndent (rows.map fun row => (row.spelled, "")) ++ blockIndent ++
      " \x7d;\n", by simp only [String.append_assoc]⟩

/-- The title line of a block and the lines of its parts. -/
def Block.spelled (b : Block) : String :=
  "\n/* index 0x" ++ Numeral.upperHex 4 b.index.toNat ++ " :   " ++ b.title.text ++ "\n" ++
    String.join (b.items.map fun item => blockIndent ++ item.spelled)

theorem Block.text_eq_spelled (b : Block) : b.text = b.spelled := by
  have hjoint : "\n/* index 0x" = "\n" ++ "/* index " ++ "0x" := rfl
  unfold text spelled titleLine indexText hexLiteral
  rw [hjoint, show BlockItem.text = fun item => blockIndent ++ item.spelled from
    funext BlockItem.text_eq_spelled]
  simp only [String.append_assoc]

theorem Block.printsIn_of_mem_items {b : Block} {item : BlockItem} (h : item ∈ b.items) :
    PrintsIn item.spelled b.spelled := by
  have hitem : PrintsIn (blockIndent ++ item.spelled) b.spelled :=
    (PrintsIn.join_of_mem (List.mem_map_of_mem h)).append_left _
  exact ((PrintsIn.refl item.spelled).append_left blockIndent).trans hitem

/-! ### Tables of entries -/

def NavigationRow.spelled (row : NavigationRow) : String :=
  "  \x7b (subindex*)" ++ row.table ++ ",sizeof(" ++ row.table ++ ")/sizeof(" ++ row.table ++
    "[0]), 0x" ++ Numeral.upperHex 4 row.index.toNat ++ "\x7d,\n"

theorem NavigationRow.text_eq_spelled (row : NavigationRow) : row.text = row.spelled := by
  have hjoint : "[0]), 0x" = "[0]), " ++ "0x" := rfl
  unfold text spelled indexText hexLiteral
  rw [hjoint]
  simp only [String.append_assoc]

def DispatchCase.spelled (c : DispatchCase) : String :=
  "\t\tcase 0x" ++ Numeral.upperHex 4 c.index.toNat ++ ": i = " ++ Numeral.decimal c.position ++
    ";" ++ (c.callbacks.elim "" fun name => "*callbacks = " ++ name ++ "; ") ++ "break;\n"

theorem DispatchCase.text_eq_spelled (c : DispatchCase) : c.text = c.spelled := by
  have hjoint : "\t\tcase 0x" = "\t\tcase " ++ "0x" := rfl
  unfold text spelled indexText hexLiteral
  rw [hjoint]
  cases c.callbacks with
  | none => simp only [Option.elim, String.append_assoc]
  | some name => simp only [Option.elim, String.append_assoc]

/-- The table of subindex tables. -/
def Navigation.spelledTable (n : Navigation) (node : String) : String :=
  "\nconst indextable " ++ node ++ "_objdict[] = \n\x7b\n" ++
    String.join (n.rows.map NavigationRow.spelled) ++ "\x7d;\n\n"

/-- The routine with the switch. -/
def Navigation.spelledSwitch (n : Navigation) (node : String) : String :=
  "const indextable * " ++ node ++
      "_scanIndexOD (UNS16 wIndex, UNS32 * errorCode, ODCallback_t **callbacks)\n" ++
    "\x7b\n\tint i;\n\t*callbacks = NULL;\n\tswitch(wIndex)\x7b\n" ++
    String.join (n.cases.map DispatchCase.spelled) ++
    "\t\tdefault:\n\t\t\t*errorCode = OD_NO_SUCH_OBJECT;\n\t\t\treturn NULL;\n\t\x7d\n" ++
    "\t*errorCode = OD_SUCCESSFUL;\n\treturn &" ++ node ++ "_objdict[i];\n\x7d\n"

/-- The states of transmitted process data, as many as declared. -/
def Navigation.spelledStates (n : Navigation) (node : String) : String :=
  "s_PDO_status " ++ node ++ "_PDO_status[" ++ Numeral.decimal n.transmitCount ++ "] = \x7b" ++
    ",".intercalate (List.replicate n.transmitCount "s_PDO_status_Initializer") ++ "\x7d;\n"

/-- The positions of all categories, line by line. -/
def Positions.spelled (p : Positions) (name : String) : String :=
  "\nconst quick_index " ++ name ++ " = \x7b\n" ++
    String.join
      ["  " ++ Numeral.decimal p.sdoServer ++ ", /* SDO_SVR */\n",
        "  " ++ Numeral.decimal p.sdoClient ++ ", /* SDO_CLT */\n",
        "  " ++ Numeral.decimal p.pdoReceive ++ ", /* PDO_RCV */\n",
        "  " ++ Numeral.decimal p.pdoReceiveMap ++ ", /* PDO_RCV_MAP */\n",
        "  " ++ Numeral.decimal p.pdoTransmit ++ ", /* PDO_TRS */\n",
        "  " ++ Numeral.decimal p.pdoTransmitMap ++ " /* PDO_TRS_MAP */\n"] ++ "\x7d;\n"

theorem QuickIndex.text_eq_spelled (node : String) (q : QuickIndex) :
    q.text node =
      q.first.spelled (node ++ "_firstIndex") ++ q.last.spelled (node ++ "_lastIndex") := by
  unfold QuickIndex.text tableText Positions.spelled
  simp [Category.all, Category.label, Positions.get, String.append_assoc]

/-- A pointer at the variable behind a row. -/
def PointerDefinition.spelled (p : PointerDefinition) : String :=
  p.storage.spelled ++ "* " ++ p.name ++ " = &" ++ p.target ++ ";\n"

theorem PointerDefinition.text_eq_spelled (p : PointerDefinition) : p.text = p.spelled := by
  rw [text, p.storage.text_eq_spelled]
  rfl

/-! ### Ranges -/

def RangeConstant.spelled (c : RangeConstant) : String :=
  "\n#define " ++ c.id.spelled ++ " 0x" ++ Numeral.upperHex 2 c.value ++ " /* " ++ c.comment ++
    " */"

theorem RangeConstant.text_eq_spelled (c : RangeConstant) : c.text = c.spelled := by
  have hjoint : " 0x" = " " ++ "0x" := rfl
  unfold text spelled hexLiteral
  rw [hjoint, c.id.text_eq_spelled]
  simp only [String.append_assoc]

namespace RangeCheck

/-- The line that refuses values below a bound, if there is one. -/
def spelledLower (check : RangeCheck) : String :=
  match check.lower with
  | some bound =>
    "      if (*(" ++ check.storage.spelled ++ "*)value < (" ++ check.storage.spelled ++ ")" ++
      bound.text ++ ") return OD_VALUE_TOO_LOW;\n"
  | none => "      /* Negative or null low limit ignored because of unsigned type */;\n"

/-- The line that refuses values above the other bound. -/
def spelledUpper (check : RangeCheck) : String :=
  "      if (*(" ++ check.storage.spelled ++ "*)value > (" ++ check.storage.spelled ++ ")" ++
    check.upper.text ++ ") return OD_VALUE_TOO_HIGH;\n"

theorem text_eq_spelled (check : RangeCheck) :
    check.text = check.spelledLower ++ check.spelledUpper := by
  have hbelow : "*)value < (" = "*)value " ++ "<" ++ " (" := rfl
  have habove : "*)value > (" = "*)value " ++ ">" ++ " (" := rfl
  have hlow : ") return OD_VALUE_TOO_LOW;\n" = ") return " ++ "OD_VALUE_TOO_LOW" ++ ";\n" := rfl
  have hhigh : ") return OD_VALUE_TOO_HIGH;\n" = ") return " ++ "OD_VALUE_TOO_HIGH" ++ ";\n" := rfl
  unfold text comparison spelledLower spelledUpper
  rw [habove, hhigh, check.storage.text_eq_spelled]
  cases check.lower with
  | none => simp only [String.append_assoc]
  | some bound =>
    rw [hbelow, hlow]
    simp only [String.append_assoc]

end RangeCheck

namespace RangeCase

/-- The lines behind the label of a case. -/
def spelledBody : RangeCase → String
  | zero _ storage =>
    "      if (*(" ++ storage.spelled ++ "*)value != (" ++ storage.spelled ++
      ")0) return OD_VALUE_RANGE_EXCEEDED;\n      break;\n"
  | bounds _ check => check.spelledLower ++ check.spelledUpper ++ "    break;\n"

def spelled (c : RangeCase) : String := "    case " ++ c.id.spelled ++ ":\n" ++ c.spelledBody

theorem text_eq_spelled (c : RangeCase) : c.text = c.spelled := by
  unfold text spelled spelledBody
  cases c with
  | zero id storage =>
    have hlabel : ":\n      if (*(" = ":\n" ++ "      if (*(" := rfl
    dsimp only
    rw [hlabel, id.text_eq_spelled, storage.text_eq_spelled]
    simp only [RangeCase.id, String.append_assoc]
  | bounds id check =>
    dsimp only
    rw [id.text_eq_spelled, check.text_eq_spelled]
    simp only [RangeCase.id, String.append_assoc]

/-- A case reads the value through a pointer to its storage type. -/
theorem printsIn_body (c : RangeCase) :
    PrintsIn ("      if (*(" ++ c.storage.spelled ++ "*)value ") c.spelledBody := by
  cases c with
  | zero id storage =>
    have hread : "*)value != (" = "*)value " ++ "!= (" := rfl
    refine ⟨"", "!= (" ++ storage.spelled ++ ")0) return OD_VALUE_RANGE_EXCEEDED;\n      break;\n",
      ?_⟩
    unfold spelledBody RangeCase.storage
    dsimp only
    rw [hread]
    simp only [String.append_assoc, String.empty_append]
  | bounds id check =>
    have hread : "*)value > (" = "*)value " ++ "> (" := rfl
    refine ⟨check.spelledLower, "> (" ++ check.storage.spelled ++ ")" ++ check.upper.text ++
      ") return OD_VALUE_TOO_HIGH;\n" ++ "    break;\n", ?_⟩
    unfold spelledBody RangeCheck.spelledUpper RangeCase.storage
    dsimp only
    rw [hread]
    simp only [String.append_assoc]

end RangeCase

/-- The section of value ranges. -/
def RangeSection.spelled (s : RangeSection) : String :=
  String.join (s.constants.map RangeConstant.spelled) ++
    "\nUNS32 " ++ s.node ++ "_valueRangeTest (UNS8 typeValue, void * value)\n\x7b" ++
    "\n  switch (typeValue) \x7b\n" ++
    String.join (s.cases.map RangeCase.spelled) ++
    "  \x7d\n  return 0;\n\x7d\n"

theorem RangeSection.text_eq_spelled (s : RangeSection) : s.text = s.spelled := by
  unfold text spelled
  rw [show RangeConstant.text = RangeConstant.spelled from funext RangeConstant.text_eq_spelled,
    show RangeCase.text = RangeCase.spelled from funext RangeCase.text_eq_spelled]

/-! ### Documents -/

namespace SourceDocument

variable {d : SourceDocument}

theorem indexTableText_eq_spelled (d : SourceDocument) :
    d.indexTableText = d.navigation.spelledTable d.node.name := by
  unfold indexTableText Navigation.spelledTable
  rw [show NavigationRow.text = NavigationRow.spelled from funext NavigationRow.text_eq_spelled]

theorem scanText_eq_spelled (d : SourceDocument) :
    d.scanText = d.navigation.spelledSwitch d.node.name := by
  unfold scanText Navigation.spelledSwitch
  rw [show DispatchCase.text = DispatchCase.spelled from funext DispatchCase.text_eq_spelled]

theorem text_statusArray (d : SourceDocument) :
    d.statusArray.text = d.navigation.spelledStates d.node.name := by
  have hname : "_PDO_status[" = "_PDO_status" ++ "[" := rfl
  unfold Navigation.spelledStates StatusArray.text statusArray
  rw [hname]
  simp only [String.append_assoc]

/-- The timers that watch heartbeats, as many as declared but at least one. -/
def spelledTimers (d : SourceDocument) : String :=
  if d.heartbeatTimers = 0 then "TIMER_HANDLE " ++ d.node.name ++ "_heartBeatTimers[1];\n"
  else
    "TIMER_HANDLE " ++ d.node.name ++ "_heartBeatTimers[" ++ Numeral.decimal d.heartbeatTimers ++
      "] = \x7b" ++ ",".intercalate (List.replicate d.heartbeatTimers "TIMER_NONE") ++ "\x7d;\n"

/-- The parts of a source document, in their order. -/
def parts (d : SourceDocument) : List String :=
  ["\n" ++ d.banner ++ "\n", "\n#include \"" ++ d.headerName ++ "\"\n",
    sectionText "Declaration of mapped variables",
    String.join (d.definitions.map MappedDefinition.spelled),
    sectionText "Declaration of value range types", d.ranges.spelled,
    sectionText "The node id", d.identityText, d.spelledTimers,
    dictionaryHeading, String.join (d.blocks.values.map Block.spelled),
    sectionText "Declaration of pointed variables",
    String.join (d.pointers.map PointerDefinition.spelled),
    d.navigation.spelledTable d.node.name, d.navigation.spelledSwitch d.node.name,
    d.transmitText, d.navigation.quickIndex.first.spelled (d.node.name ++ "_firstIndex"),
    d.navigation.quickIndex.last.spelled (d.node.name ++ "_lastIndex"), d.nodeDataText]

theorem text_eq_join_parts (d : SourceDocument) : d.text = String.join d.parts := by
  unfold text parts
  rw [show MappedDefinition.text = MappedDefinition.spelled from
      funext MappedDefinition.text_eq_spelled,
    show PointerDefinition.text = PointerDefinition.spelled from
      funext PointerDefinition.text_eq_spelled,
    show Block.text = Block.spelled from funext Block.text_eq_spelled,
    d.ranges.text_eq_spelled, d.indexTableText_eq_spelled, d.scanText_eq_spelled,
    d.navigation.quickIndex.text_eq_spelled, show d.timersText = d.spelledTimers from rfl]
  simp only [String.join_cons, String.join_nil, String.append_assoc, String.append_empty]

theorem printsIn_of_mem_parts {part : String} (h : part ∈ d.parts) : PrintsIn part d.text := by
  rw [text_eq_join_parts]
  exact .join_of_mem h

/-- Neighbouring parts stand together in the text. -/
theorem printsIn_of_neighbours {a b c : String} {after : List String} (k : Nat)
    (h : d.parts.drop k = a :: b :: c :: after) : PrintsIn (a ++ b ++ c) d.text := by
  have hparts : d.parts = d.parts.take k ++ a :: b :: c :: after := by
    rw [← h, List.take_append_drop]
  refine ⟨String.join (d.parts.take k), String.join after, ?_⟩
  rw [text_eq_join_parts, congrArg String.join hparts, String.join_append]
  simp only [String.join_cons, String.append_assoc]

theorem printsIn_definitions (d : SourceDocument) :
    PrintsIn (sectionText "Declaration of mapped variables" ++
      String.join (d.definitions.map MappedDefinition.spelled) ++
      sectionText "Declaration of value range types") d.text :=
  printsIn_of_neighbours 2 rfl

theorem printsIn_ranges (d : SourceDocument) :
    PrintsIn (sectionText "Declaration of value range types" ++ d.ranges.spelled ++
      sectionText "The node id") d.text :=
  printsIn_of_neighbours 4 rfl

theorem printsIn_blocks (d : SourceDocument) :
    PrintsIn (dictionaryHeading ++ String.join (d.blocks.values.map Block.spelled) ++
      sectionText "Declaration of pointed variables") d.text :=
  printsIn_of_neighbours 9 rfl

theorem printsIn_pointers (d : SourceDocument) :
    PrintsIn (sectionText "Declaration of pointed variables" ++
      String.join (d.pointers.map PointerDefinition.spelled) ++
      d.navigation.spelledTable d.node.name) d.text :=
  printsIn_of_neighbours 11 rfl

theorem printsIn_navigation (d : SourceDocument) :
    PrintsIn (d.navigation.spelledTable d.node.name ++ d.navigation.spelledSwitch d.node.name)
      d.text :=
  ((PrintsIn.refl _).append_right d.transmitText).trans (printsIn_of_neighbours 13 rfl)

theorem printsIn_states (d : SourceDocument) :
    PrintsIn (d.navigation.spelledStates d.node.name) d.text := by
  have htransmit : PrintsIn d.transmitText d.text := printsIn_of_mem_parts (by simp [parts])
  rw [← text_statusArray]
  exact PrintsIn.trans ((PrintsIn.refl d.statusArray.text).append_left _) htransmit

theorem printsIn_lastPositions (d : SourceDocument) :
    PrintsIn (d.navigation.quickIndex.last.spelled (d.node.name ++ "_lastIndex")) d.text :=
  printsIn_of_mem_parts (by simp [parts])

theorem printsIn_timers (d : SourceDocument) : PrintsIn d.spelledTimers d.text :=
  printsIn_of_mem_parts (by simp [parts])

end SourceDocument

theorem HeaderDocument.printsIn_declarations (d : HeaderDocument) :
    PrintsIn ("extern CO_Data " ++ d.node ++ "_Data;\n" ++
      String.join (d.declarations.map MappedDeclaration.text) ++ "\n#endif // ") d.text := by
  let guard := includeGuard d.headerName
  let front := "\n" ++ d.banner ++ "\n" ++
    "\n#ifndef " ++ guard ++ "\n#define " ++ guard ++ "\n\n" ++
    "#include \"" ++ d.stackHeader ++ "\"\n\n" ++
    "/* Prototypes of function provided by object dictionnary */\n" ++
    "UNS32 " ++ d.node ++ "_valueRangeTest (UNS8 typeValue, void * value);\n" ++
    "const indextable * " ++ d.node ++
      "_scanIndexOD (UNS16 wIndex, UNS32 * errorCode, ODCallback_t **callbacks);\n\n" ++
    "/* Master node data struct */\n"
  refine ⟨front, guard ++ "\n", ?_⟩
  unfold text
  simp only [front, guard, String.append_assoc]

/-! ### Reports -/

/-- The line that reports an alias without a value. -/
def ignoredLine (node : String) (b : Address × String) : String :=
  "WARN [node=" ++ node ++ ", stage=aliases] Ignoring pointer alias '" ++ b.2 ++
    "': no subindex 0x" ++ Numeral.upperHex 2 b.1.sub.toNat ++ " at index 0x" ++
    Numeral.upperHex 4 b.1.index.toNat

theorem Notice.line_aliasIgnored (node : String) (b : Address × String) :
    (staged node (.aliasIgnored b.1 b.2)).line = ignoredLine node b := by
  have hsub : "': no subindex 0x" = "': no subindex " ++ "0x" := rfl
  have hindex : " at index 0x" = " at index " ++ "0x" := rfl
  have hfront : ", stage=aliases] Ignoring pointer alias '" =
      ", stage=" ++ "aliases" ++ "] " ++ "Ignoring pointer alias '" := rfl
  have hlevel : "WARN [node=" = "WARN" ++ " " ++ "[node=" := rfl
  unfold ignoredLine line message StageEvent.message subIndexText indexText hexLiteral
  rw [hsub, hindex, hfront, hlevel]
  simp only [severity, StageEvent.severity, Severity.text, StageEvent.stage, Stage.text,
    String.append_assoc]

/-- The line that reports how much has been generated. -/
def finishedLine (node : String) (indexes mapped : Nat) : String :=
  "INFO [node=" ++ node ++ ", stage=compose] Generated " ++ Numeral.decimal indexes ++
    " indexes, " ++ Numeral.decimal mapped ++ " mapped variables"

theorem Notice.line_finished (node : String) (indexes mapped : Nat) :
    (staged node (.finished indexes mapped)).line = finishedLine node indexes mapped := by
  have hfront : ", stage=compose] Generated " =
      ", stage=" ++ "compose" ++ "] " ++ "Generated " := rfl
  have hlevel : "INFO [node=" = "INFO" ++ " " ++ "[node=" := rfl
  unfold finishedLine line message StageEvent.message
  rw [hfront, hlevel]
  simp only [severity, StageEvent.severity, Severity.text, StageEvent.stage, Stage.text,
    String.append_assoc]

/-! ### Blocks in their documents -/

namespace SourceDocument

variable {d : SourceDocument} {x : Index} {b : Block}

/-- A text stands in the block of an index. -/
def PrintsAt (d : SourceDocument) (x : Index) (part : String) : Prop :=
  ∃ b, d.blocks.get? x = some b ∧ PrintsIn part b.spelled ∧ PrintsIn b.spelled d.text

theorem printsIn_block (h : d.blocks.get? x = some b) : PrintsIn b.spelled d.text := by
  have hmem : b ∈ d.blocks.values :=
    List.mem_map.mpr ⟨(x, b), AscendingMap.get?_eq_some_iff.mp h, rfl⟩
  have hblocks : PrintsIn (String.join (d.blocks.values.map Block.spelled)) d.text :=
    printsIn_of_mem_parts (by simp [parts])
  exact (PrintsIn.join_of_mem (List.mem_map_of_mem hmem)).trans hblocks

theorem printsAt_of_mem_items (h : d.blocks.get? x = some b) {item : BlockItem}
    (hitem : item ∈ b.items) : d.PrintsAt x item.spelled :=
  ⟨b, h, Block.printsIn_of_mem_items hitem, printsIn_block h⟩

end SourceDocument
end CanopenTables
