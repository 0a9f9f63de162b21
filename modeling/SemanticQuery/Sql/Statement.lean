import SemanticQuery.Sql.FromClause
import SemanticQuery.Sql.Result
/-! Relational statements. -/
namespace SemanticQuery.Sql

structure Selection where
  position : Nat
  expr : Expr

/-- One selection for each selected column; the results group them into selection items. -/
structure Select where
  source : FromClause
  selections : List Selection
  results : List Result
  restriction : Option Predicate

structure Assignment where
  columns : List ColumnRef
  value : Expr

structure Update where
  target : TableRef
  assignments : List Assignment
  restriction : Option Predicate

structure Delete where
  target : TableRef
  restriction : Option Predicate

inductive Statement where
  | select (select : Select)
  | update (update : Update)
  | delete (delete : Delete)

/-- The tables a statement reads or writes. -/
def Statement.affectedTables : Statement → List String
  | select s => s.source.affectedTables
  | update u => [u.target.table]
  | delete d => [d.target.table]

end SemanticQuery.Sql
