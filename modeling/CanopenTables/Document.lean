import CanopenTables.EntryCode
import CanopenTables.Navigation
import CanopenTables.RangeType
import CanopenTables.Text.Uppercase

/-!
# The two documents

A dictionary becomes a source document with all definitions and a header with the declarations that
an application needs.  A document is a structure of typed parts; its text is the parts one after
the other between fixed lines.
-/

namespace CanopenTables

/-- Settings that are not part of a dictionary. -/
structure Config where
  /-- The line at the top of both documents. -/
  banner : String := "/* File generated by objdictgen. Should not be modified. */"
  /-- The path of the stack's own header. -/
  stackHeader : String := "CanFestival/data.h"
  deriving DecidableEq, Repr

/-- The two documents as texts. -/
structure DocumentPair where
  source : String
  header : String
  deriving DecidableEq, Repr

/-- The source document. -/
structure SourceDocument where
  banner : String
  /-- The file name of the header. -/
  headerName : String
  /-- The node. -/
  node : Node
  /-- The variables at file scope. -/
  definitions : List MappedDefinition
  ranges : RangeSection
  /-- The number of heartbeats to watch. -/
  heartbeatTimers : Nat
  /-- The blocks of the object dictionary section by index. -/
  blocks : AscendingMap Index Block
  pointers : List PointerDefinition
  navigation : Navigation

/-- The header. -/
structure HeaderDocument where
  banner : String
  /-- The file name of the header. -/
  headerName : String
  stackHeader : String
  /-- The name of the node. -/
  node : String
  /-- The declarations of the variables at file scope. -/
  declarations : List MappedDeclaration

/-- A line of asterisks between comment marks. -/
def ruleLine : String :=
  "/**************************************************************************/\n"

/-- A section heading.  Titles are filled up by blanks to 71 characters. -/
def sectionText (title : String) : String :=
  "\n" ++ ruleLine ++ "/* " ++ title.pushn ' ' (71 - title.length) ++ "*/\n" ++ ruleLine

/-- The include guard of a header: points become underscores and letters capitals. -/
def includeGuard (headerName : String) : String :=
  Text.upper (headerName.map fun c => if c = '.' then '_' else c)

/-- An array of states with its declared length and its first values. -/
structure StatusArray where
  name : String
  length : Nat
  values : List String
  deriving DecidableEq, Repr

def StatusArray.text (a : StatusArray) : String :=
  "s_PDO_status " ++ a.name ++ "[" ++ Numeral.decimal a.length ++ "] = \x7b" ++
    ",".intercalate a.values ++ "\x7d;\n"

namespace SourceDocument

def identityText (d : SourceDocument) : String :=
  "/* node_id default value.*/\n" ++
    "UNS8 " ++ d.node.name ++ "_bDeviceNodeId = " ++ hexLiteral 2 d.node.id.toNat ++ ";\n" ++
    "\n" ++ ruleLine ++
    "/* Array of message processing information */\n\n" ++
    "const UNS8 " ++ d.node.name ++ "_iam_a_slave = " ++
      (if d.node.role.isSlave then "1" else "0") ++ ";\n" ++
    "\n"

/-- The heartbeat timers; one timer stands there even if none is used. -/
def timersText (d : SourceDocument) : String :=
  if d.heartbeatTimers = 0 then "TIMER_HANDLE " ++ d.node.name ++ "_heartBeatTimers[1];\n"
  else
    "TIMER_HANDLE " ++ d.node.name ++ "_heartBeatTimers[" ++ Numeral.decimal d.heartbeatTimers ++
      "] = \x7b" ++ ",".intercalate (List.replicate d.heartbeatTimers "TIMER_NONE") ++ "\x7d;\n"

def dictionaryHeading : String :=
  let rule := "$$$$$$$$$$$$$$$$$$$$$$$$$$$$$$$$$$$$$$$$$$$$$$$$$$$$$$$$$$$$$$$$$$$$$$$$$$$\n"
  "\n/*\n" ++ rule ++ "\n" ++ "                               OBJECT DICTIONARY\n\n" ++ rule ++
    "*/\n"

def indexTableText (d : SourceDocument) : String :=
  "\nconst indextable " ++ d.node.name ++ "_objdict[] = \n\x7b\n" ++
    String.join (d.navigation.rows.map NavigationRow.text) ++ "\x7d;\n\n"

/-- The routine that finds the row of an index. -/
def scanText (d : SourceDocument) : String :=
  "const indextable * " ++ d.node.name ++
      "_scanIndexOD (UNS16 wIndex, UNS32 * errorCode, ODCallback_t **callbacks)\n" ++
    "\x7b\n\tint i;\n\t*callbacks = NULL;\n\tswitch(wIndex)\x7b\n" ++
    String.join (d.navigation.cases.map DispatchCase.text) ++
    "\t\tdefault:\n\t\t\t*errorCode = OD_NO_SUCH_OBJECT;\n\t\t\treturn NULL;\n\t\x7d\n" ++
    "\t*errorCode = OD_SUCCESSFUL;\n\treturn &" ++ d.node.name ++ "_objdict[i];\n\x7d\n"

/-- The states of the transmitted process data, one for each transmit parameter. -/
def statusArray (d : SourceDocument) : StatusArray :=
  { name := d.node.name ++ "_PDO_status"
    length := d.navigation.transmitCount
    values := List.replicate d.navigation.transmitCount "s_PDO_status_Initializer" }

/-- The states of the transmitted process data under their comment. -/
def transmitText (d : SourceDocument) : String :=
  "\n/* \n" ++
    " * To count at which received SYNC a PDO must be sent.\n" ++
    " * Even if no pdoTransmit are defined, at least one entry is computed\n" ++
    " * for compilations issues.\n" ++
    " */\n" ++
    d.statusArray.text

/-- The size of the table and the data of the node. -/
def nodeDataText (d : SourceDocument) : String :=
  let table := d.node.name ++ "_objdict"
  "\nconst UNS16 " ++ d.node.name ++ "_ObjdictSize = sizeof(" ++ table ++ ")/sizeof(" ++ table ++
      "[0]); \n" ++
    "\nCO_Data " ++ d.node.name ++ "_Data = CANOPEN_NODE_DATA_INITIALIZER(" ++ d.node.name ++
      ");\n\n"

def text (d : SourceDocument) : String :=
  "\n" ++ d.banner ++ "\n" ++
    "\n#include \"" ++ d.headerName ++ "\"\n" ++
    sectionText "Declaration of mapped variables" ++
    String.join (d.definitions.map MappedDefinition.text) ++
    sectionText "Declaration of value range types" ++
    d.ranges.text ++
    sectionText "The node id" ++
    d.identityText ++
    d.timersText ++
    dictionaryHeading ++
    String.join (d.blocks.values.map Block.text) ++
    sectionText "Declaration of pointed variables" ++
    String.join (d.pointers.map PointerDefinition.text) ++
    d.indexTableText ++
    d.scanText ++
    d.transmitText ++
    d.navigation.quickIndex.text d.node.name ++
    d.nodeDataText

end SourceDocument

def HeaderDocument.text (d : HeaderDocument) : String :=
  let guard := includeGuard d.headerName
  "\n" ++ d.banner ++ "\n" ++
    "\n#ifndef " ++ guard ++ "\n#define " ++ guard ++ "\n\n" ++
    "#include \"" ++ d.stackHeader ++ "\"\n\n" ++
    "/* Prototypes of function provided by object dictionnary */\n" ++
    "UNS32 " ++ d.node ++ "_valueRangeTest (UNS8 typeValue, void * value);\n" ++
    "const indextable * " ++ d.node ++
      "_scanIndexOD (UNS16 wIndex, UNS32 * errorCode, ODCallback_t **callbacks);\n\n" ++
    "/* Master node data struct */\n" ++
    "extern CO_Data " ++ d.node ++ "_Data;\n" ++
    String.join (d.declarations.map MappedDeclaration.text) ++
    "\n#endif // " ++ guard ++ "\n"

end CanopenTables
