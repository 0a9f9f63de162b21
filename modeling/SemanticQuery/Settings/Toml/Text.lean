import SemanticQuery.Settings.Escape
import SemanticQuery.Settings.Toml.Layout
/-!
Text in quotes. Double quotes enclose text with escapes, single quotes text without. Behind one quote
the text ends on its line; behind three it may go on over several lines.
-/
namespace SemanticQuery.Toml

open Escape

def escaped? (c : Char) : Option Char := if c == 'e' then some '\x1b' else ofLetter? c

/-- Text in double quotes up to its closing quote, and what follows it. -/
def quoted? : List Char → Option (List Char × List Char)
  | [] => none
  | '"' :: rest => some ([], rest)
  | '\\' :: 'x' :: a :: b :: rest => withChar? (ofHex? [a, b]) (quoted? rest)
  | '\\' :: 'u' :: a :: b :: c :: d :: rest => withChar? (ofHex? [a, b, c, d]) (quoted? rest)
  | '\\' :: 'U' :: a :: b :: c :: d :: e :: f :: g :: h :: rest =>
    withChar? (ofHex? [a, b, c, d, e, f, g, h]) (quoted? rest)
  | '\\' :: c :: rest => withChar? (escaped? c) (quoted? rest)
  | c :: rest =>
    if isTextChar c && c != '\\' then withChar? (some c) (quoted? rest) else none

def literal? (cs : List Char) : Option (List Char × List Char) :=
  let inText (c : Char) : Bool := isTextChar c && c != '\''
  match cs.dropWhile inText with
  | '\'' :: rest => some (cs.takeWhile inText, rest)
  | _ => none

def isScalar (width : Nat) (cs : List Char) : Bool :=
  width ≤ cs.length && (ofHex? (cs.take width)).isSome

/-- Text over several lines may also have a backslash before a line end and blanks in front of that. -/
def mayFollowBackslash : List Char → Bool
  | 'x' :: rest => isScalar 2 rest
  | 'u' :: rest => isScalar 4 rest
  | 'U' :: rest => isScalar 8 rest
  | cs => (cs.head?.bind escaped?).isSome || (lineEnd? (skipBlanks cs)).isSome

/-- What follows three closing quotes; up to two more before them belong to the text. -/
def closed? (quote : Char) (cs : List Char) : Option (List Char) :=
  let run := (cs.takeWhile (· == quote)).length
  if 3 ≤ run then some (cs.drop (min run 5)) else none

/-- What follows text in three quotes. -/
def behindLines? (quote : Char) : List Char → Option (List Char)
  | [] => none
  | c :: rest =>
    match closed? quote (c :: rest) with
    | some behind => some behind
    | none =>
      if c == '\\' && quote == '"' then
        match rest with
        | [] => none
        | _ :: later => if mayFollowBackslash rest then behindLines? quote later else none
      else if isTextChar c || (lineEnd? (c :: rest)).isSome then behindLines? quote rest
      else none

end SemanticQuery.Toml
