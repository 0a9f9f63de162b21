import SemanticQuery.Digits
/-! Dates and times of settings files, each a word by itself. Only dates of the calendar are read. -/
namespace SemanticQuery.Toml

def isLeapYear (year : Nat) : Bool := year % 4 == 0 && (year % 100 != 0 || year % 400 == 0)

def daysInMonth (year month : Nat) : Nat :=
  if month = 2 then if isLeapYear year then 29 else 28
  else if month ∈ [4, 6, 9, 11] then 30
  else 31

def isDay (year month day : Nat) : Bool :=
  1 ≤ month && month ≤ 12 && 1 ≤ day && day ≤ daysInMonth year month

/-- Year, month and day with four, two and two digits. -/
def isDate : List Char → Bool
  | [a, b, c, d, '-', e, f, '-', g, h] =>
    match ofDigits? 10 [a, b, c, d], ofDigits? 10 [e, f], ofDigits? 10 [g, h] with
    | some year, some month, some day => isDay year month day
    | _, _, _ => false
  | _ => false

/-- What follows two digits for a number up to `greatest`. -/
def upTo? (greatest : Nat) : List Char → Option (List Char)
  | a :: b :: rest => do
    let n ← ofDigits? 10 [a, b]
    if n ≤ greatest then some rest else none
  | _ => none

/-- What follows an hour and a minute. -/
def minute? (cs : List Char) : Option (List Char) := do
  match ← upTo? 23 cs with
  | ':' :: rest => upTo? 59 rest
  | _ => none

/-- A point needs a digit behind it. -/
def fraction? : List Char → Option (List Char)
  | '.' :: c :: rest => if c.isDigit then some (rest.dropWhile Char.isDigit) else none
  | cs => some cs

/-- What follows a time of day. Seconds may be left out, and may count a leap second. -/
def time? (cs : List Char) : Option (List Char) := do
  match ← minute? cs with
  | ':' :: rest => fraction? (← upTo? 60 rest)
  | rest => some rest

def isTime (word : List Char) : Bool := time? word == some []

/-- The distance from universal time, if it is given. -/
def isOffset : List Char → Bool
  | [] => true
  | ['Z'] => true
  | ['z'] => true
  | '+' :: rest => minute? rest == some []
  | '-' :: rest => minute? rest == some []
  | _ => false

def isDateTime (word : List Char) : Bool :=
  isDate (word.take 10) &&
    match word.drop 10 with
    | 'T' :: rest => (time? rest).any isOffset
    | 't' :: rest => (time? rest).any isOffset
    | ' ' :: rest => (time? rest).any isOffset
    | _ => false

def isMoment (word : List Char) : Bool := isDate word || isTime word || isDateTime word

end SemanticQuery.Toml
