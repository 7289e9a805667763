import CanopenTables.Code.Block
import CanopenTables.DataType.Resolver
import CanopenTables.Dictionary
import CanopenTables.Text.Identifier

/-!
# The code of an entry

An entry from index 0x1000 on is laid out in one of three shapes.

* A **scalar** is one variable.
* A **record** is one array, whose element `k - 1` is subindex `k`, and a variable that holds the
  highest subindex.
* An **array** is one variable per subindex from 1 on, and a variable that holds the highest
  subindex.

In the mapped areas the variables are defined at file scope and declared in the header; elsewhere
they stand in the entry's block.  Every entry has a subindex table with one row per value, and a
callback array if one of its subindexes reports changes.
-/

namespace CanopenTables

/-- Names that the caller gives to pointers at values. -/
abbrev PointerAliases := AscendingMap Address String

/-- The type of the error field's count, to which only zero may be written. -/
def errorCountType : ResolvedType := ⟨.unsigned 8, none, .valueRange .errorCount, true⟩

/-- The variable that holds the highest subindex of an entry. -/
structure HighestSubIndex where
  storage : Storage
  name : String
  value : Nat
  deriving DecidableEq, Repr

/-- A variable that stands in a block. -/
inductive LocalVariable where
  | single (v : Variable)
  | elements (array : ElementArray)
  deriving DecidableEq, Repr

/-- The part of a block that a local variable is. -/
def LocalVariable.item : LocalVariable → BlockItem
  | single v => .single v
  | elements array => .elements array

/-- A callback array. -/
structure CallbackArray where
  /-- The name that the array's own name begins with. -/
  name : String
  /-- The number of callbacks. -/
  places : Nat
  deriving DecidableEq, Repr

/-- What an entry's shape defines and declares. -/
structure ShapeCode where
  /-- The highest subindex. -/
  highest : Option HighestSubIndex := none
  /-- The variables in the block. -/
  locals : List LocalVariable := []
  /-- The variables at file scope. -/
  definitions : List MappedDefinition := []
  /-- Their declarations in the header. -/
  declarations : List MappedDeclaration := []
  /-- The number of variables at file scope, counted one by one. -/
  mappedCount : Nat := 0
  deriving DecidableEq, Repr

/-- Puts the code of the second part behind that of the first. -/
def ShapeCode.append (a b : ShapeCode) : ShapeCode :=
  { highest := a.highest <|> b.highest
    locals := a.locals ++ b.locals
    definitions := a.definitions ++ b.definitions
    declarations := a.declarations ++ b.declarations
    mappedCount := a.mappedCount + b.mappedCount }

/-- A pointer that the caller named. -/
structure PointerDefinition where
  storage : Storage
  name : String
  target : String
  deriving DecidableEq, Repr

def PointerDefinition.text (p : PointerDefinition) : String :=
  p.storage.text ++ "* " ++ p.name ++ " = &" ++ p.target ++ ";\n"

/-- All that an entry becomes. -/
structure EntryCode where
  index : Index
  title : Title
  /-- What its shape defines and declares. -/
  shape : ShapeCode
  /-- The callback array, if changes are reported. -/
  callbacks : Option CallbackArray
  /-- The name of the subindex table. -/
  table : String
  /-- The rows of the subindex table. -/
  rows : List Row
  deriving DecidableEq, Repr

namespace EntryCode

def block (c : EntryCode) : Block :=
  { index := c.index
    title := c.title
    items :=
      (c.shape.highest.map fun h => BlockItem.highest h.storage h.name h.value).toList ++
        c.shape.locals.map LocalVariable.item ++
        (c.callbacks.map fun a => BlockItem.callbacks a.name a.places).toList ++
        [.table c.table c.rows] }

/-- The pointers at values of the entry, by subindex. -/
def pointers (c : EntryCode) (aliases : PointerAliases) : List PointerDefinition :=
  c.rows.zipIdx.filterMap fun (row, k) =>
    (aliases.get? ⟨c.index, UInt8.ofNat k⟩).map fun name =>
      ⟨row.type.storage, name, row.target⟩

end EntryCode

/-- An entry at its place in a dictionary. -/
structure Site where
  dictionary : Dictionary
  index : Index
  entry : Entry

namespace Site

def node (s : Site) : String := s.dictionary.node.name

/-- Whether the variables of the entry stand at file scope. -/
def isMapped (s : Site) : Bool := Profile.isMapped s.index

/-- The values of the entry.  There has to be one, and each needs a subindex of its own. -/
def values (s : Site) : Except GenerationError (List Value) :=
  let values := s.entry.object.values
  if values = [] then .error (.missingEntry s.index (some 0))
  else if values.length > 256 then .error (.invalidValue s.index 255 "subindex count")
  else .ok values

def subEntry (s : Site) (k : SubIndex) : Except GenerationError SubEntry :=
  match s.entry.sub? k with
  | some sub => .ok sub
  | none => .error (.missingEntry s.index (some k))

def typeName (s : Site) (sub : SubEntry) : Except GenerationError String :=
  match s.dictionary.typeName? sub.typeCode with
  | some name => .ok name
  | none => .error (.missingTypeDefinition sub.typeCode)

/-- The data type of a subindex, for some values. -/
def resolve (s : Site) (sub : SubEntry) (candidates : List Value) : Lowering ResolvedType := do
  let name ← s.typeName sub
  Lowering.resolveFor name candidates

/-- The highest subindex that the first value declares. -/
def count (s : Site) (values : List Value) : Except GenerationError Nat :=
  match values.head?.bind Value.toUInt64? with
  | some n => .ok n.toNat
  | none => .error (.invalidValue s.index 0 "subindex count")

/-! ### Shapes -/

def scalarLayout (s : Site) (sub : SubEntry) (type : ResolvedType) (literal : Literal) :
    ShapeCode :=
  if s.isMapped then
    let d := ⟨type.storage, false, Text.identifier sub.name, .ofSize type.size⟩
    { definitions := [.scalar s.index ⟨d, literal⟩]
      declarations := [.scalar s.index d]
      mappedCount := 1 }
  else
    let d := ⟨type.storage, false, Symbol.object s.node s.index, .ofSize type.size⟩
    { locals := [.single ⟨d, literal⟩] }

/-- A scalar.  A domain at file scope needs a byte to start with. -/
def scalarCode (s : Site) (value : Value) : Lowering ShapeCode := do
  let sub ← s.subEntry 0
  let type ← s.resolve sub [value]
  if s.isMapped ∧ type.kind = .domain ∧ type.size = some 0 then
    Lowering.fail (.uninitializedDomain s.index 0)
  else
    let literal ← Literal.format type.kind value s.index 0
    pure (s.scalarLayout sub type literal)

/-- The first value of the variable that holds the highest subindex; the error field starts without
errors. -/
def highestValue (s : Site) (values : List Value) : Except GenerationError Nat :=
  if s.index = Profile.predefinedErrorField then .ok 0 else s.count values

def highestCode (s : Site) (values : List Value) : Lowering ShapeCode := do
  let sub ← s.subEntry 0
  let type ← s.resolve sub []
  let value ← s.highestValue values
  pure { highest := some ⟨type.storage, Symbol.highestSubIndex s.node s.index, value⟩ }

/-- The first value of an element of a record.  A domain at file scope needs a byte to start
with. -/
def elementLiteral (s : Site) (kind : Kind) (value : Value) (k : SubIndex) :
    Except GenerationError Literal := do
  let literal ← Literal.format kind value s.index k
  if s.isMapped ∧ kind = .domain ∧ value.byteLength? = some 0 then
    .error (.uninitializedDomain s.index k)
  else pure literal

/-- The array of a record's elements.  Strings and domains are kept as pointers to bytes. -/
def recordLayout (s : Site) (values : List Value) (type : ResolvedType) (count : Nat)
    (literals : List Literal) : ShapeCode :=
  if s.isMapped then
    let d := ⟨type.storage, type.size.isSome, Text.identifier s.entry.name, .asFilled⟩
    { definitions := [.record s.index count ⟨d, literals⟩]
      declarations := [.record s.index count { d with extent := .fixed (values.length - 1) }]
      mappedCount := 1 }
  else
    let d := ⟨type.storage, type.size.isSome, Symbol.object s.node s.index, .asFilled⟩
    { locals := [.elements ⟨d, literals⟩] }

def recordCode (s : Site) (values : List Value) : Lowering ShapeCode := do
  let sub ← s.subEntry 1
  let type ← s.resolve sub values.tail
  let count ← s.count values
  let literals ← (values.tail.zipIdx 1).mapM fun (value, k) =>
    s.elementLiteral type.kind value (UInt8.ofNat k)
  pure (s.recordLayout values type count literals)

def memberLayout (s : Site) (k : SubIndex) (sub : SubEntry) (type : ResolvedType)
    (literal : Literal) : ShapeCode :=
  let name := Text.joinedWords sub.name
  if s.isMapped then
    let d :=
      ⟨type.storage, false, Text.identifier s.entry.name ++ "_" ++ name, .ofSize type.size⟩
    { definitions := [.member s.index k ⟨d, literal⟩]
      declarations := [.member s.index k d]
      mappedCount := 1 }
  else
    let d := ⟨type.storage, false, Symbol.member s.node s.index name, .ofSize type.size⟩
    { locals := [.single ⟨d, literal⟩] }

/-- A member of an array.  A domain at file scope needs a byte to start with. -/
def memberCode (s : Site) (value : Value) (k : SubIndex) : Lowering ShapeCode := do
  let sub ← s.subEntry k
  let type ← s.resolve sub [value]
  let literal ← Literal.format type.kind value s.index k
  if s.isMapped ∧ type.kind = .domain ∧ type.size = some 0 then
    Lowering.fail (.uninitializedDomain s.index k)
  else pure (s.memberLayout k sub type literal)

def arrayCode (s : Site) (values : List Value) : Lowering ShapeCode := do
  let members ← (values.tail.zipIdx 1).mapM fun (value, k) => s.memberCode value (UInt8.ofNat k)
  pure (members.foldl ShapeCode.append {})

/-- The subindexes from 1 on: one array if they are alike, else a variable each. -/
def elementsCode (s : Site) (values : List Value) : Lowering ShapeCode :=
  if s.entry.hasIdenticalSubs then s.recordCode values else s.arrayCode values

/-- What the shape of the entry defines and declares. -/
def shapeCode (s : Site) (values : List Value) : Lowering ShapeCode := do
  match s.entry.object with
  | .single value => s.scalarCode value
  | .sequence _ =>
    let highest ← s.highestCode values
    let elements ← s.elementsCode values
    pure (highest.append elements)

/-! ### Callbacks and the subindex table -/

/-- The callback array, if changes are reported. -/
def callbackArray (s : Site) (places : Nat) : Option CallbackArray :=
  if s.entry.hasCallbacks then
    let name :=
      if s.isMapped then Text.identifier s.entry.name
      else Text.identifier (Symbol.table s.node s.index)
    some ⟨name, places⟩
  else none

/-- The variable behind a subindex, by the structure flags of the entry. -/
def targetName (s : Site) (k : SubIndex) (sub : SubEntry) : String :=
  Text.guardDigit <|
    if k = 0 then
      if s.entry.hasMultipleSubs then Symbol.highestSubIndex s.node s.index
      else if s.isMapped then Text.joinedWords sub.name
      else Symbol.object s.node s.index
    else if s.entry.hasIdenticalSubs then
      if s.isMapped then Symbol.element (Text.joinedWords s.entry.name) (k.toNat - 1)
      else Symbol.element (Symbol.object s.node s.index) (k.toNat - 1)
    else if s.isMapped then Text.identifier s.entry.name ++ "_" ++ Text.joinedWords sub.name
    else Symbol.member s.node s.index (Text.joinedWords sub.name)

/-- The size column of a row: the bytes of a domain, the bytes of a string but at least the default
size, and the size of the storage type for everything else. -/
def sizeColumn (s : Site) (type : ResolvedType) (value : Value) (k : SubIndex) :
    Except GenerationError SizeColumn :=
  if type.kind.isByteSequence then
    match value.byteLength? with
    | some n =>
      .ok (.bytes (if type.kind = .visibleString then max n s.dictionary.node.defaultStringSize
        else n))
    | none => .error (.invalidValue s.index k type.kind.tag)
  else .ok (.sizeOf type.storage)

/-- The values that the type of a row has to hold: identical subindexes share one type for all
values from subindex 1 on. -/
def rowCandidates (s : Site) (values : List Value) (value : Value) : List Value :=
  if s.entry.hasIdenticalSubs then values.tail else [value]

/-- The type of a row; the count of the error field has one of its own. -/
def rowType (s : Site) (k : SubIndex) (declared : ResolvedType) : ResolvedType :=
  if k = 0 ∧ s.index = Profile.predefinedErrorField then errorCountType else declared

def row (s : Site) (values : List Value) (value : Value) (k : SubIndex) : Lowering Row := do
  let sub ← s.subEntry k
  let declared ← s.resolve sub (s.rowCandidates values value)
  let type := s.rowType k declared
  let size ← s.sizeColumn type value k
  pure ⟨sub.access, sub.save, type, size, s.targetName k sub⟩

def rows (s : Site) (values : List Value) : Lowering (List Row) :=
  values.zipIdx.mapM fun (value, k) => s.row values value (UInt8.ofNat k)

/-- The title of the block.  Characters outside ASCII are replaced. -/
def title (s : Site) : Title :=
  if s.isMapped then .mapped (Text.asciiOnly s.entry.name)
  else .inPlace (Text.asciiOnly s.entry.name)

/-- All that the entry becomes. -/
def code (s : Site) : Lowering EntryCode := do
  let values ← s.values
  let shape ← s.shapeCode values
  let rows ← s.rows values
  pure
    { index := s.index
      title := s.title
      shape := shape
      callbacks := s.callbackArray values.length
      table := Symbol.table s.node s.index
      rows := rows }

/-- Reports the entry and lays it out. -/
def codeReported (s : Site) : Lowering EntryCode := do
  Lowering.report (.staged s.node (.entryEmitted s.index s.entry.name s.entry.shape))
  s.code

end Site

namespace Dictionary

/-- The entries that are laid out, ascending. -/
def sites (d : Dictionary) : List Site :=
  (d.entriesIn Profile.commAreaStart 0xFFFF).map fun (i, e) => ⟨d, i, e⟩

/-- The code of all entries, ascending. -/
def entryCodes (d : Dictionary) : Lowering (List EntryCode) := d.sites.mapM Site.codeReported

end Dictionary
end CanopenTables
