import SemanticQuery.Query.Expr
/-! Domain statements, and the order their nodes are visited in. -/
namespace SemanticQuery.Query

/-- An entity under the name it is navigated from. -/
structure Root where
  entity : String
  path : Path

/-- Inline rows as a source. -/
structure ValuesRoot where
  path : Path
  columns : List String
  rows : List (List Expr)

structure Selection where
  expr : Expr
  label : Option String

structure Select where
  roots : List Root
  values : List ValuesRoot
  selections : List Selection
  restriction : Option Predicate

structure Assignment where
  target : PathRef
  value : Expr

structure Update where
  target : Root
  assignments : List Assignment
  restriction : Option Predicate

structure Delete where
  target : Root
  restriction : Option Predicate

inductive Statement where
  | select (select : Select)
  | update (update : Update)
  | delete (delete : Delete)

def restrictionNodes : Option Predicate → List Expr
  | none => []
  | some p => p.nodes

namespace Statement

def kind : Statement → String
  | select _ => "select"
  | update _ => "update"
  | delete _ => "delete"

/-- Every node in source order: inline rows, then selections or assignments, then the restriction. -/
def nodes : Statement → List Expr
  | select s =>
    s.values.flatMap (fun root => root.rows.flatMap Expr.nodesOf) ++
      s.selections.flatMap (fun item => item.expr.nodes) ++ restrictionNodes s.restriction
  | update u => u.assignments.flatMap (fun a => a.value.nodes) ++ restrictionNodes u.restriction
  | delete d => restrictionNodes d.restriction

/-- Every parameter occurrence in source order. -/
def parameters (s : Statement) : List Occurrence := s.nodes.filterMap Expr.occurrence?

end Statement

end SemanticQuery.Query
