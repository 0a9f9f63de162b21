import SemanticQuery.KeyedList
import SemanticQuery.Sql.Expr
/-!
Table groups and the from clause. A group is registered for a navigation path: an entity's table, or
inline rows that may carry further groups as joins. Expressions reach its columns by its qualifier.
-/
namespace SemanticQuery.Sql

structure TableRef where
  table : String
  qualifier : String
  deriving DecidableEq

/-- Inline rows under declared column names. -/
structure ValuesTable where
  rows : List (List Expr)
  qualifier : String
  columns : List String

/-- A values group has, for each column, the mapping chosen across its rows, if any. -/
inductive TableGroup where
  | entity (path : Path) (entity : String) (table : TableRef)
  | values (path : Path) (table : ValuesTable) (mappings : List (Option Mapping))
      (nested joins : List TableGroup)

/-- What produces a table expression: a table or inline rows. -/
inductive Producer where
  | table (table : TableRef)
  | values (table : ValuesTable)

namespace TableGroup

def path : TableGroup → Path
  | entity path _ _ => path
  | values path _ _ _ _ => path

def qualifier : TableGroup → String
  | entity _ _ table => table.qualifier
  | values _ table _ _ _ => table.qualifier

mutual

/-- The group of a path: this one, else one of its joins, nested joins first. -/
def find? (sought : Path) : TableGroup → Option TableGroup
  | entity path name table => if path = sought then some (entity path name table) else none
  | values path table mappings nested joins =>
    if path = sought then some (values path table mappings nested joins)
    else (findIn? sought nested).or (findIn? sought joins)

def findIn? (sought : Path) : List TableGroup → Option TableGroup
  | [] => none
  | group :: rest => (group.find? sought).or (findIn? sought rest)

end

mutual

/-- What produces a table expression. A table answers to its name and to its qualifier, inline rows
to their qualifier only. -/
def producer? (expression : String) : TableGroup → Option Producer
  | entity _ _ table =>
    if table.table = expression ∨ table.qualifier = expression then some (.table table) else none
  | values _ table _ nested joins =>
    if table.qualifier = expression then some (.values table)
    else (producerIn? expression nested).or (producerIn? expression joins)

def producerIn? (expression : String) : List TableGroup → Option Producer
  | [] => none
  | group :: rest => (group.producer? expression).or (producerIn? expression rest)

end

/-- The tables a group reads; inline rows read none. -/
def tables : TableGroup → List String
  | entity _ _ table => [table.table]
  | values .. => []

end TableGroup

structure FromClause where
  roots : List TableGroup

namespace FromClause

def empty : FromClause := ⟨[]⟩

instance : Inhabited FromClause := ⟨empty⟩

def add (f : FromClause) (group : TableGroup) : FromClause := ⟨f.roots ++ [group]⟩

def find? (f : FromClause) (path : Path) : Option TableGroup := TableGroup.findIn? path f.roots

end FromClause

/-- The names without repetition, in ascending order. -/
def sortedNames (names : List String) : List String :=
  (KeyedList.ofList (names.map fun name => (name, ()))).keys

def FromClause.affectedTables (f : FromClause) : List String :=
  sortedNames (f.roots.flatMap TableGroup.tables)

end SemanticQuery.Sql
