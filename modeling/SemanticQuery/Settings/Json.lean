import SemanticQuery.Settings.Escape
import SemanticQuery.Settings.Item
import SemanticQuery.Settings.Numeral
/-!
Settings in JSON. A number with a fraction or an exponent is no integer, whatever its value, and
neither is a negative zero.
-/
namespace SemanticQuery.Json
open Escape Settings

def skipBlanks (cs : List Char) : List Char := cs.dropWhile [' ', '\t', '\n', '\r'].contains

def escaped? (c : Char) : Option Char := if c == '/' then some '/' else ofLetter? c

def isFirstHalf (n : Nat) : Bool := 0xd800 ≤ n && n < 0xdc00

/-- The character that two halves of a pair stand for. -/
def ofPair? (first second : Nat) : Option Char :=
  if 0xdc00 ≤ second ∧ second < 0xe000 then
    some (Char.ofNat (0x10000 + (first - 0xd800) * 0x400 + (second - 0xdc00)))
  else none

/-- Text up to its closing quote, and what follows it. -/
def text? : List Char → Option (List Char × List Char)
  | [] => none
  | '"' :: rest => some ([], rest)
  | '\\' :: 'u' :: a :: b :: c :: d :: rest =>
    match ofDigits? 16 [a, b, c, d] with
    | none => none
    | some n =>
      if isFirstHalf n then
        match rest with
        | '\\' :: 'u' :: e :: f :: g :: h :: later =>
          withChar? ((ofDigits? 16 [e, f, g, h]).bind (ofPair? n)) (text? later)
        | _ => none
      else withChar? (char? n) (text? rest)
  | '\\' :: c :: rest => withChar? (escaped? c) (text? rest)
  | c :: rest => if ' ' ≤ c && c != '\\' then withChar? (some c) (text? rest) else none

def isWordChar (c : Char) : Bool := c.isAlphanum || ['+', '-', '.'].contains c

def ofWord? (word : List Char) : Option Item :=
  if word == ['t', 'r', 'u', 'e'] then some (.flag true)
  else if word == ['f', 'a', 'l', 's', 'e'] then some (.flag false)
  else if word == ['n', 'u', 'l', 'l'] || word == ['-', '0'] then some .other
  else if word.all fun c => c.isDigit || ['+', '-', '.', 'e', 'E'].contains c then
    if word.head? == some '+' then none
    else if Numeral.isInteger word then (Numeral.integer? word).map .number
    else if Numeral.isFloat word then some .other
    else none
  else none

mutual

def value? (fuel : Nat) (cs : List Char) : Option (Item × List Char) :=
  match fuel, cs with
  | 0, _ => none
  | fuel + 1, '[' :: rest =>
    match skipBlanks rest with
    | ']' :: rest => some (.list [], rest)
    | rest => (items? fuel rest).map fun (items, rest) => (.list items, rest)
  | fuel + 1, '{' :: rest =>
    match skipBlanks rest with
    | '}' :: rest => some (.table [], rest)
    | rest => (fields? fuel rest).map fun (fields, rest) => (.table fields, rest)
  | _ + 1, '"' :: rest => (text? rest).map fun (_, rest) => (.other, rest)
  | _ + 1, cs => (ofWord? (cs.takeWhile isWordChar)).map (·, cs.dropWhile isWordChar)

def items? (fuel : Nat) (cs : List Char) : Option (List Item × List Char) :=
  match fuel with
  | 0 => none
  | fuel + 1 => do
    let (item, rest) ← value? fuel cs
    match skipBlanks rest with
    | ',' :: rest =>
      let (items, rest) ← items? fuel (skipBlanks rest)
      return (item :: items, rest)
    | ']' :: rest => return ([item], rest)
    | _ => none

/-- Of fields with the same name the last one counts. -/
def fields? (fuel : Nat) (cs : List Char) : Option (List (List String × Item) × List Char) :=
  match fuel with
  | 0 => none
  | fuel + 1 => do
    let (name, value, rest) ← field? fuel cs
    match skipBlanks rest with
    | ',' :: rest =>
      let (fields, rest) ← fields? fuel (skipBlanks rest)
      if fields.any (·.1 == [name]) then return (fields, rest)
      else return (([name], value) :: fields, rest)
    | '}' :: rest => return ([([name], value)], rest)
    | _ => none

def field? (fuel : Nat) (cs : List Char) : Option (String × Item × List Char) :=
  match fuel, cs with
  | fuel + 1, '"' :: rest => do
    let (name, rest) ← text? rest
    match skipBlanks rest with
    | ':' :: rest =>
      let (value, rest) ← value? fuel (skipBlanks rest)
      return (String.ofList name, value, rest)
    | _ => none
  | _, _ => none

end

/-- Every step takes a character, so three times their number is fuel enough. -/
def read? (text : String) : Option Item := do
  let cs := text.toList
  let (item, rest) ← value? (3 * cs.length + 3) (skipBlanks cs)
  if (skipBlanks rest).isEmpty then some item else none

end SemanticQuery.Json
