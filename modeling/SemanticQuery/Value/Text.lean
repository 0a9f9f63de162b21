import SemanticQuery.Digits
import SemanticQuery.Value
/-!
The text of a value, as literals and messages show it. Text stands between single quotes with each
quote inside written twice; byte strings show their length only.
-/
namespace SemanticQuery

def quote : Char := '\x27'

def doubleQuotes : List Char → List Char
  | [] => []
  | c :: rest => if c = quote then quote :: quote :: doubleQuotes rest else c :: doubleQuotes rest

def quoted (s : String) : String := String.ofList (quote :: (doubleQuotes s.toList ++ [quote]))

namespace Value

mutual

def toText : Value → String
  | null => "null"
  | bool true => "true"
  | bool false => "false"
  | byte v => toString v.toInt
  | short v => toString v.toInt
  | int v => toString v.toInt
  | long v => toString v.toInt
  | bigInt v => toString v
  | float bits => Decimal.BinaryFormat.single.text bits.toNat
  | double bits => Decimal.BinaryFormat.double.text bits.toNat
  | decimal v => v
  | char v => String.ofList [quote, v, quote]
  | text v => quoted v
  | uuid v => String.ofList (hexDigits 32 v.toNat)
  | bytes v => "<" ++ toString v.length ++ " bytes>"
  | date days => "date(" ++ toString days.toInt ++ ")"
  | timestamp micros => "timestamp(" ++ toString micros.toInt ++ ")"
  | composite parts => "(" ++ String.intercalate ", " (texts parts) ++ ")"
  | entity name id _ => name ++ "#" ++ id.toText

def texts : List Value → List String
  | [] => []
  | v :: rest => v.toText :: texts rest

end

end Value

end SemanticQuery
