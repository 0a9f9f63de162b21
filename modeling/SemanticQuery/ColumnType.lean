import SemanticQuery.Kind
/-! Column types: what a database column or bind position holds, with the code drivers know it by. -/
namespace SemanticQuery

inductive ColumnType where
  | boolean
  | tinyInt
  | smallInt
  | integer
  | bigInt
  | numeric
  | real
  | double
  | char
  | varchar
  | varbinary
  | date
  | timestamp
  | other
  deriving DecidableEq

namespace ColumnType

def all : List ColumnType :=
  [.boolean, .tinyInt, .smallInt, .integer, .bigInt, .numeric, .real, .double, .char, .varchar,
    .varbinary, .date, .timestamp, .other]

def name : ColumnType → String
  | .boolean => "BOOLEAN"
  | .tinyInt => "TINYINT"
  | .smallInt => "SMALLINT"
  | .integer => "INTEGER"
  | .bigInt => "BIGINT"
  | .numeric => "NUMERIC"
  | .real => "REAL"
  | .double => "DOUBLE"
  | .char => "CHAR"
  | .varchar => "VARCHAR"
  | .varbinary => "VARBINARY"
  | .date => "DATE"
  | .timestamp => "TIMESTAMP"
  | .other => "OTHER"

def code : ColumnType → Int
  | .boolean => 16
  | .tinyInt => -6
  | .smallInt => 5
  | .integer => 4
  | .bigInt => -5
  | .numeric => 2
  | .real => 7
  | .double => 8
  | .char => 1
  | .varchar => 12
  | .varbinary => -3
  | .date => 91
  | .timestamp => 93
  | .other => 1111

/-- The column a scalar kind is stored in; composites, entities and objects have no single column. -/
def ofKind? : Kind → Option ColumnType
  | .boolean => some .boolean
  | .byte => some .tinyInt
  | .short => some .smallInt
  | .integer => some .integer
  | .long => some .bigInt
  | .bigInteger | .bigDecimal => some .numeric
  | .float => some .real
  | .double => some .double
  | .character => some .char
  | .text => some .varchar
  | .uuid => some .other
  | .binary => some .varbinary
  | .date => some .date
  | .timestamp => some .timestamp
  | .composite | .entity | .object => none

/-- The kind read back from such a column. -/
def kind : ColumnType → Kind
  | .boolean => .boolean
  | .tinyInt => .byte
  | .smallInt => .short
  | .integer => .integer
  | .bigInt => .long
  | .numeric => .bigDecimal
  | .real => .float
  | .double => .double
  | .char => .character
  | .varchar => .text
  | .varbinary => .binary
  | .date => .date
  | .timestamp => .timestamp
  | .other => .object

end ColumnType

end SemanticQuery
