/-!
Value kinds: the class a value belongs to as the application sees it, before a column is chosen.
One kind is wider than another when it holds every value of it; families are the coarse classes
that function arguments are checked against.
-/
namespace SemanticQuery

inductive Family where
  | numeric
  | textual
  | temporal
  | boolean
  | other
  deriving DecidableEq

def Family.all : List Family := [.numeric, .textual, .temporal, .boolean, .other]

def Family.name : Family → String
  | .numeric => "Numeric"
  | .textual => "Textual"
  | .temporal => "Temporal"
  | .boolean => "Boolean"
  | .other => "Other"

inductive Kind where
  | boolean
  | byte
  | short
  | integer
  | long
  | bigInteger
  | float
  | double
  | bigDecimal
  | character
  | text
  | uuid
  | binary
  | date
  | timestamp
  | composite
  | entity
  | object
  deriving DecidableEq

namespace Kind

def all : List Kind :=
  [.boolean, .byte, .short, .integer, .long, .bigInteger, .float, .double, .bigDecimal, .character,
    .text, .uuid, .binary, .date, .timestamp, .composite, .entity, .object]

def name : Kind → String
  | .boolean => "Boolean"
  | .byte => "Byte"
  | .short => "Short"
  | .integer => "Integer"
  | .long => "Long"
  | .bigInteger => "BigInteger"
  | .float => "Float"
  | .double => "Double"
  | .bigDecimal => "BigDecimal"
  | .character => "Character"
  | .text => "Text"
  | .uuid => "Uuid"
  | .binary => "Binary"
  | .date => "Date"
  | .timestamp => "Timestamp"
  | .composite => "Composite"
  | .entity => "Entity"
  | .object => "Object"

/-- Place in the listing order, which is also the number a fingerprint stores. -/
def rank : Kind → Nat
  | .boolean => 0
  | .byte => 1
  | .short => 2
  | .integer => 3
  | .long => 4
  | .bigInteger => 5
  | .float => 6
  | .double => 7
  | .bigDecimal => 8
  | .character => 9
  | .text => 10
  | .uuid => 11
  | .binary => 12
  | .date => 13
  | .timestamp => 14
  | .composite => 15
  | .entity => 16
  | .object => 17

theorem rank_injective {a b : Kind} (h : a.rank = b.rank) : a = b := by
  cases a <;> cases b <;> first | rfl | exact absurd h (by decide)

instance : Ord Kind := ⟨fun a b => compare a.rank b.rank⟩

instance : Std.TransOrd Kind where
  eq_swap {a b} := @Std.OrientedCmp.eq_swap Nat compare _ a.rank b.rank
  isLE_trans {a b c} := @Std.TransCmp.isLE_trans Nat compare _ a.rank b.rank c.rank

instance : Std.LawfulEqOrd Kind where
  compare_self {a} := @Std.ReflCmp.compare_self Nat compare _ a.rank
  eq_of_compare {a b} h :=
    rank_injective (@Std.LawfulEqCmp.eq_of_compare Nat compare _ a.rank b.rank h)

def family : Kind → Family
  | .byte | .short | .integer | .long | .bigInteger | .float | .double | .bigDecimal => .numeric
  | .character | .text => .textual
  | .date | .timestamp => .temporal
  | .boolean => .boolean
  | .uuid | .binary | .composite | .entity | .object => .other

def isNumeric (k : Kind) : Bool := k.family == .numeric

/-- The kinds whose values all fit, other than the kind itself. -/
def narrower : Kind → List Kind
  | .short => [.byte]
  | .integer => [.byte, .short]
  | .long => [.byte, .short, .integer]
  | .bigInteger => [.byte, .short, .integer, .long]
  | .float => [.byte, .short, .integer]
  | .double => [.byte, .short, .integer, .long, .float]
  | .bigDecimal => [.byte, .short, .integer, .long, .bigInteger, .float, .double]
  | .text => [.character]
  | .timestamp => [.date]
  | _ => []

/-- Strict: no kind is wider than itself, so equal kinds tie. -/
def isWider (a b : Kind) : Bool := a.narrower.contains b

end Kind

end SemanticQuery
