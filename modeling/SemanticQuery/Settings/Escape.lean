import SemanticQuery.Digits
/-! Characters that text in quotes writes behind a backslash. -/
namespace SemanticQuery.Escape

/-- The character with that number, unless it is half of a pair. -/
def char? (n : Nat) : Option Char := if n.isValidChar then some (Char.ofNat n) else none

def ofHex? (digits : List Char) : Option Char := do char? (← ofDigits? 16 digits)

def ofLetter? : Char → Option Char
  | 'b' => some '\x08'
  | 't' => some '\t'
  | 'n' => some '\n'
  | 'f' => some '\x0c'
  | 'r' => some '\r'
  | '"' => some '"'
  | '\\' => some '\\'
  | _ => none

/-- Puts a character in front of text that was read with what follows it. -/
def withChar? (c : Option Char) (read : Option (List Char × List Char)) :
    Option (List Char × List Char) := do
  let c ← c
  let (text, rest) ← read
  return (c :: text, rest)

end SemanticQuery.Escape
