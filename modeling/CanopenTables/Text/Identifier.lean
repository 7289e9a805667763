/-!
# Names as C identifiers

The names in a dictionary are free text.  `wordRuns` cuts a text into its maximal runs of word
characters (ASCII letters, digits and the underscore); `joinedWords` joins the runs by single
underscores, `guardDigit` puts an underscore in front of a leading digit, and `identifier` does
both.  `asciiOnly` replaces what a C comment should not hold.
-/

namespace CanopenTables.Text

/-- Word characters: ASCII letters, ASCII digits and the underscore. -/
def isWordChar (c : Char) : Bool := c.isAlphanum || c == '_'

/-- Puts a character in front of the first run. -/
def extendFirst (c : Char) : List (List Char) → List (List Char)
  | [] => [[c]]
  | run :: runs => (c :: run) :: runs

/-- The maximal runs of word characters, in order.  A word character belongs to the first run of
the rest exactly when the rest begins with a word character. -/
def wordRuns : List Char → List (List Char)
  | [] => []
  | c :: rest =>
    if isWordChar c then
      if rest.head?.any isWordChar then extendFirst c (wordRuns rest) else [c] :: wordRuns rest
    else wordRuns rest

/-- The word runs of a text joined by single underscores. -/
def joinedWords (s : String) : String := String.ofList (['_'].intercalate (wordRuns s.toList))

/-- A leading ASCII digit gets an underscore in front. -/
def guardDigit (s : String) : String :=
  match s.toList with
  | c :: _ => if c.isDigit then "_" ++ s else s
  | [] => s

/-- The C identifier of a name: its word runs joined, not starting with a digit. -/
def identifier (s : String) : String := guardDigit (joinedWords s)

/-- Every character outside ASCII becomes a question mark. -/
def asciiOnly (s : String) : String := s.map fun c => if c.toNat < 128 then c else '?'

end CanopenTables.Text
