import SemanticQuery.Settings.Item
import SemanticQuery.Settings.Numeral
import SemanticQuery.Settings.Toml.Moment
import SemanticQuery.Settings.Toml.Text
/-!
Keys and values of settings files. Keys may be bare, quoted or dotted. Of the values, settings are
made from booleans, integers, arrays and inline tables; the others are read and not told apart.
-/
namespace SemanticQuery.Toml

open Settings

/-- Arrays and inline tables nest no deeper, and no key has more parts. -/
def nestingLimit : Nat := 80

/-- Neither key is the other one or lies inside it. -/
def apart (a b : List String) : Bool := !a.isPrefixOf b && !b.isPrefixOf a

def pairwiseApart : List (List String) → Bool
  | [] => true
  | a :: rest => rest.all (apart a) && pairwiseApart rest

def isBareKeyChar (c : Char) : Bool := c.isAlphanum || c == '_' || c == '-'

def keyPart? : List Char → Option (String × List Char)
  | '"' :: rest => (quoted? rest).map fun (text, rest) => (String.ofList text, rest)
  | '\'' :: rest => (literal? rest).map fun (text, rest) => (String.ofList text, rest)
  | cs =>
    match cs.takeWhile isBareKeyChar with
    | [] => none
    | name => some (String.ofList name, cs.dropWhile isBareKeyChar)

/-- The parts of a key, of which there may be `most`, and what follows it and the blanks behind it. -/
def keyUpTo? (most : Nat) (cs : List Char) : Option (List String × List Char) :=
  match most with
  | 0 => none
  | most + 1 => do
    let (part, rest) ← keyPart? (skipBlanks cs)
    match skipBlanks rest with
    | '.' :: rest =>
      let (parts, rest) ← keyUpTo? most rest
      return (part :: parts, rest)
    | rest => return ([part], rest)

def key? (cs : List Char) : Option (List String × List Char) := keyUpTo? nestingLimit cs

/-- Signs of the notation end a word; quotes inside it do not. -/
def isWordChar (c : Char) : Bool := !"=,[]\x7b\x7d# \t\r\n".toList.contains c

/-- Whether a word goes on behind blanks, as a date does with a time. -/
def wordFollows (cs : List Char) : Bool :=
  (skipBlanks cs).head?.any fun c => isWordChar c && c != '.' && c != '"' && c != '\''

/-- A value without quotes, and what follows it. -/
def word : List Char → List Char × List Char
  | [] => ([], [])
  | c :: rest =>
    if isWordChar c || (isBlank c && wordFollows rest) then
      let (more, behind) := word rest
      (c :: more, behind)
    else ([], c :: rest)

def ofWord? (word : List Char) : Option Item :=
  if word == ['t', 'r', 'u', 'e'] then some (.flag true)
  else if word == ['f', 'a', 'l', 's', 'e'] then some (.flag false)
  else if Numeral.isInteger word then some (((Numeral.integer? word).map .number).getD .other)
  else if Numeral.isFloat word || isMoment word then some .other
  else none

mutual

/-- A value in which arrays and inline tables nest at most `depth` deep. -/
def value? (fuel depth : Nat) (cs : List Char) : Option (Item × List Char) :=
  match fuel, depth, cs with
  | 0, _, _ => none
  | _ + 1, 0, '[' :: _ => none
  | _ + 1, 0, '{' :: _ => none
  | fuel + 1, depth + 1, '[' :: rest => do
    let (items, rest) ← items? fuel depth rest
    return (.list items, rest)
  | fuel + 1, depth + 1, '{' :: rest => do
    let (fields, rest) ← fields? fuel depth rest
    if pairwiseApart (fields.map (·.1)) then some (.table fields, rest) else none
  | _ + 1, _, '"' :: '"' :: '"' :: rest => (behindLines? '"' rest).map (.other, ·)
  | _ + 1, _, '\'' :: '\'' :: '\'' :: rest => (behindLines? '\'' rest).map (.other, ·)
  | _ + 1, _, '"' :: rest => (quoted? rest).map fun (_, rest) => (.other, rest)
  | _ + 1, _, '\'' :: rest => (literal? rest).map fun (_, rest) => (.other, rest)
  | _ + 1, _, cs =>
    let (word, rest) := word cs
    (ofWord? word).map (·, rest)

/-- The items of an array up to its end. A comma may follow the last one. -/
def items? (fuel depth : Nat) (cs : List Char) : Option (List Item × List Char) :=
  match fuel with
  | 0 => none
  | fuel + 1 =>
    match skipGaps cs with
    | ']' :: rest => some ([], rest)
    | cs => do
      let (item, rest) ← value? fuel depth cs
      match skipGaps rest with
      | ',' :: rest =>
        let (items, rest) ← items? fuel depth rest
        return (item :: items, rest)
      | ']' :: rest => return ([item], rest)
      | _ => none

/-- The fields of an inline table up to its end. A comma may follow the last one. -/
def fields? (fuel depth : Nat) (cs : List Char) :
    Option (List (List String × Item) × List Char) :=
  match fuel with
  | 0 => none
  | fuel + 1 =>
    match skipGaps cs with
    | '}' :: rest => some ([], rest)
    | cs => do
      let (field, rest) ← field? fuel depth skipGaps cs
      match skipGaps rest with
      | ',' :: rest =>
        let (fields, rest) ← fields? fuel depth rest
        return (field :: fields, rest)
      | '}' :: rest => return ([field], rest)
      | _ => none

/-- A key and its value. What may stand around the sign between them is for `skip` to say. -/
def field? (fuel depth : Nat) (skip : List Char → List Char) (cs : List Char) :
    Option ((List String × Item) × List Char) :=
  match fuel with
  | 0 => none
  | fuel + 1 => do
    let (key, rest) ← key? cs
    match skip rest with
    | '=' :: rest =>
      let (value, rest) ← value? fuel depth (skip rest)
      return ((key, value), rest)
    | _ => none

end

end SemanticQuery.Toml
