/-! What may stand between the parts of a settings file: blanks, comments and line ends. -/
namespace SemanticQuery.Toml

def isBlank (c : Char) : Bool := c == ' ' || c == '\t'

def skipBlanks (cs : List Char) : List Char := cs.dropWhile isBlank

/-- Comments and text hold no control characters but tabs. -/
def isTextChar (c : Char) : Bool := c == '\t' || (' ' ≤ c && c != '\x7f')

/-- What follows a line end. -/
def lineEnd? : List Char → Option (List Char)
  | '\n' :: rest => some rest
  | '\r' :: '\n' :: rest => some rest
  | _ => none

/-- What follows a comment, a line end and blanks before them; nothing else may end a line. -/
def endOfLine? (cs : List Char) : Option (List Char) :=
  let behind := match skipBlanks cs with
    | '#' :: rest => rest.dropWhile isTextChar
    | rest => rest
  if behind.isEmpty then some [] else lineEnd? behind

mutual

/-- Skips blanks, comments and line ends between the parts of an array or inline table. -/
def skipGaps : List Char → List Char
  | ' ' :: rest => skipGaps rest
  | '\t' :: rest => skipGaps rest
  | '\n' :: rest => skipGaps rest
  | '\r' :: '\n' :: rest => skipGaps rest
  | '#' :: rest => skipComment rest
  | cs => cs

def skipComment : List Char → List Char
  | '\n' :: rest => skipGaps rest
  | '\r' :: '\n' :: rest => skipGaps rest
  | c :: rest => if isTextChar c then skipComment rest else c :: rest
  | [] => []

end

end SemanticQuery.Toml
