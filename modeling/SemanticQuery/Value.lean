import SemanticQuery.Decimal.Shortest
import SemanticQuery.Kind
/-!
Values: what literals carry, what is bound to parameters, and what a value decomposes into column by
column. Equality is that of the numbers for floating point; the text is what statements show.
-/
namespace SemanticQuery

/-- Floating point values are their bits, decimals their text. Dates count days and timestamps
microseconds from 1 January 1970. An entity's attributes are listed by name. -/
inductive Value where
  | null
  | bool (v : Bool)
  | byte (v : Int8)
  | short (v : Int16)
  | int (v : Int32)
  | long (v : Int64)
  | bigInt (v : Int)
  | float (bits : UInt32)
  | double (bits : UInt64)
  | decimal (text : String)
  | char (v : Char)
  | text (v : String)
  | uuid (v : BitVec 128)
  | bytes (v : List UInt8)
  | date (days : Int32)
  | timestamp (micros : Int64)
  | composite (parts : List Value)
  | entity (name : String) (id : Value) (attributes : List (String × Value))

namespace Value

instance : Inhabited Value := ⟨null⟩

def isNull : Value → Bool
  | null => true
  | _ => false

def kind : Value → Kind
  | null => .object
  | bool _ => .boolean
  | byte _ => .byte
  | short _ => .short
  | int _ => .integer
  | long _ => .long
  | bigInt _ => .bigInteger
  | float _ => .float
  | double _ => .double
  | decimal _ => .bigDecimal
  | char _ => .character
  | text _ => .text
  | uuid _ => .uuid
  | bytes _ => .binary
  | date _ => .date
  | timestamp _ => .timestamp
  | composite _ => .composite
  | entity .. => .entity

/-- The identifier an entity is bound and compared by; any other value stands for itself. -/
def identifier : Value → Value
  | entity _ id _ => id
  | v => v

mutual

def beq : Value → Value → Bool
  | null, null => true
  | bool a, bool b => a == b
  | byte a, byte b => a == b
  | short a, short b => a == b
  | int a, int b => a == b
  | long a, long b => a == b
  | bigInt a, bigInt b => a == b
  | float a, float b => Decimal.BinaryFormat.single.sameNumber a.toNat b.toNat
  | double a, double b => Decimal.BinaryFormat.double.sameNumber a.toNat b.toNat
  | decimal a, decimal b => a == b
  | char a, char b => a == b
  | text a, text b => a == b
  | uuid a, uuid b => a == b
  | bytes a, bytes b => a == b
  | date a, date b => a == b
  | timestamp a, timestamp b => a == b
  | composite a, composite b => beqAll a b
  | entity a i as, entity b j bs => a == b && i.beq j && beqAttributes as bs
  | _, _ => false

def beqAll : List Value → List Value → Bool
  | [], [] => true
  | a :: as, b :: bs => a.beq b && beqAll as bs
  | _, _ => false

def beqAttributes : List (String × Value) → List (String × Value) → Bool
  | [], [] => true
  | (m, a) :: as, (n, b) :: bs => m == n && a.beq b && beqAttributes as bs
  | _, _ => false

end

instance : BEq Value := ⟨beq⟩

end Value

end SemanticQuery
