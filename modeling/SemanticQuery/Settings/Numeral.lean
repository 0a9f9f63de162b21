import SemanticQuery.Digits
/-!
Numbers as settings are written with, each a word by itself: integers in four bases, and numbers with
a fraction or an exponent. Whether a word is written as an integer is asked apart from its value, which
it may lack: of a decimal integer only the digits in front of its first underscore and the neighbours
of underscores are looked at.
-/
namespace SemanticQuery.Numeral

/-- Each underscore has a digit on either side, where `behindDigit` tells what stands before. -/
def isSeparatedFrom (isDigit : Char → Bool) (behindDigit : Bool) : List Char → Bool
  | [] => true
  | '_' :: rest => behindDigit && rest.head?.any isDigit && isSeparatedFrom isDigit false rest
  | c :: rest => isSeparatedFrom isDigit (isDigit c) rest

/-- Each underscore has a digit on either side. -/
def isSeparated (isDigit : Char → Bool) (cs : List Char) : Bool := isSeparatedFrom isDigit false cs

def isHexDigit (c : Char) : Bool := (digit? 16 c).isSome

/-- Digits of a base, or none at all. -/
def isBased (base : Nat) (cs : List Char) : Bool :=
  cs.all (fun c => c == '_' || (digit? base c).isSome) && isSeparated isHexDigit cs

/-- A decimal integer behind its sign. It has no leading zero. -/
def isDecimal (cs : List Char) : Bool :=
  cs == ['0'] ||
    cs.head? != some '0' &&
      match cs.dropWhile Char.isDigit with
      | [] => !cs.isEmpty
      | '_' :: rest => !rest.any [' ', '.', 'e', 'E'].contains && isSeparated isHexDigit cs
      | _ => false

def isInteger : List Char → Bool
  | '0' :: 'x' :: rest => isBased 16 rest
  | '0' :: 'o' :: rest => isBased 8 rest
  | '0' :: 'b' :: rest => isBased 2 rest
  | '+' :: rest => isDecimal rest
  | '-' :: rest => isDecimal rest
  | cs => isDecimal cs

/-- The number that a word written as an integer stands for. -/
def integer? (word : List Char) : Option Int :=
  match word.filter (· != '_') with
  | '0' :: 'x' :: rest => (ofDigits? 16 rest).map fun n => (n : Int)
  | '0' :: 'o' :: rest => (ofDigits? 8 rest).map fun n => (n : Int)
  | '0' :: 'b' :: rest => (ofDigits? 2 rest).map fun n => (n : Int)
  | '+' :: rest => (ofDigits? 10 rest).map fun n => (n : Int)
  | '-' :: rest => (ofDigits? 10 rest).map fun n => -(n : Int)
  | cs => (ofDigits? 10 cs).map fun n => (n : Int)

def behindSign : List Char → List Char
  | '+' :: rest => rest
  | '-' :: rest => rest
  | cs => cs

def inRun (c : Char) : Bool := c.isDigit || c == '_'

def isRun (cs : List Char) : Bool := cs.any Char.isDigit && cs.all inRun

/-- A zero stands in front of the point by itself. -/
def isWhole (run : List Char) : Bool :=
  run.any Char.isDigit && (run.head? != some '0' || run.countP Char.isDigit == 1)

def isExponent : List Char → Bool
  | 'e' :: rest => isRun (behindSign rest)
  | 'E' :: rest => isRun (behindSign rest)
  | _ => false

/-- A fraction, an exponent, or both behind digits; a point needs digits on either side. -/
def isScientific (cs : List Char) : Bool :=
  isWhole (cs.takeWhile inRun) &&
    match cs.dropWhile inRun with
    | '.' :: rest =>
      let behind := rest.dropWhile inRun
      isRun (rest.takeWhile inRun) && (behind.isEmpty || isExponent behind)
    | rest => isExponent rest

/-- Any size is read, and so are infinity and what is not a number. -/
def isFloat (word : List Char) : Bool :=
  let cs := behindSign word
  cs == ['i', 'n', 'f'] || cs == ['n', 'a', 'n'] ||
    isScientific cs && isSeparated Char.isDigit cs

end SemanticQuery.Numeral
