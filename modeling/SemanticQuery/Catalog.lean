import SemanticQuery.ColumnType
import SemanticQuery.KeyedList
/-!
Basic types and the catalog that answers which one is standard for a value kind.
-/
namespace SemanticQuery

/-- A kind and the column it is stored in. -/
structure BasicType where
  name : String
  kind : Kind
  column : ColumnType
  deriving DecidableEq

structure Catalog where
  basics : KeyedList Kind BasicType

namespace Catalog

def empty : Catalog := ⟨.empty⟩

/-- The type becomes the standard one of its kind, in place of any other. -/
def register (c : Catalog) (t : BasicType) : Catalog := ⟨c.basics.insert t.kind t⟩

def standardType? (c : Catalog) (k : Kind) : Option BasicType := c.basics.find? k

def types (c : Catalog) : List BasicType := c.basics.values

def scalars : List (String × Kind) :=
  [("boolean", .boolean), ("byte", .byte), ("short", .short), ("integer", .integer),
    ("long", .long), ("big_integer", .bigInteger), ("float", .float), ("double", .double),
    ("big_decimal", .bigDecimal), ("character", .character), ("string", .text), ("uuid", .uuid),
    ("binary", .binary), ("date", .date), ("timestamp", .timestamp)]

/-- One basic type for each scalar kind, in its default column. -/
def standard : Catalog :=
  scalars.foldl
    (fun c s => match ColumnType.ofKind? s.2 with
      | some column => c.register ⟨s.1, s.2, column⟩
      | none => c)
    empty

@[simp] theorem standardType?_register (c : Catalog) (t : BasicType) :
    (c.register t).standardType? t.kind = some t :=
  KeyedList.find?_insert_self ..

end Catalog

end SemanticQuery
