import SemanticQuery.Proofs.Query.Nodes
import SemanticQuery.Proofs.Query.Typing

/-! Statements under other identities. Calls and tuples are given the identities that theirs are sent to,
and nothing else changes: every node stays at its place. -/
namespace SemanticQuery.Query

namespace Expr

mutual

def renamed (name : NodeId → NodeId) : Expr → Expr
  | literal node v type => literal node v type
  | parameter node o => parameter node o
  | path node source => path node source
  | call node function arguments implied notes =>
    call (name node) function (renamedAll name arguments) implied notes
  | tuple node elements notes => tuple (name node) (renamedAll name elements) notes

def renamedAll (name : NodeId → NodeId) : List Expr → List Expr
  | [] => []
  | e :: rest => e.renamed name :: renamedAll name rest

end

variable (name : NodeId → NodeId)

theorem isRebuilt_renamed (e : Expr) : (e.renamed name).isRebuilt = e.isRebuilt := by
  cases e with
  | literal | parameter | path | call | tuple => rfl

theorem node_renamed {e : Expr} (rebuilt : e.isRebuilt = true) :
    (e.renamed name).node = name e.node := by
  cases e with
  | call | tuple => rfl
  | literal | parameter | path => contradiction

theorem renamed_of_kept {e : Expr} (kept : e.isRebuilt = false) : e.renamed name = e := by
  cases e with
  | literal | parameter | path => rfl
  | call | tuple => contradiction

mutual

theorem nodes_renamed : (e : Expr) → (e.renamed name).nodes = e.nodes.map (renamed name)
  | literal .. | parameter .. | path .. => rfl
  | call _ _ arguments _ _ => by
    rw [nodes, List.map_cons, ← nodesOf_renamedAll arguments, renamed, nodes]
  | tuple _ elements _ => by
    rw [nodes, List.map_cons, ← nodesOf_renamedAll elements, renamed, nodes]

theorem nodesOf_renamedAll : (es : List Expr) →
    nodesOf (renamedAll name es) = (nodesOf es).map (renamed name)
  | [] => rfl
  | e :: rest => by
    rw [renamedAll, nodesOf, nodesOf, List.map_append, nodes_renamed e, nodesOf_renamedAll rest]

end

end Expr

namespace Predicate

mutual

def renamed (name : NodeId → NodeId) : Predicate → Predicate
  | comparison lhs operator rhs => comparison (lhs.renamed name) operator (rhs.renamed name)
  | inList test items negated => inList (test.renamed name) (Expr.renamedAll name items) negated
  | and children => and (renamedAll name children)
  | or children => or (renamedAll name children)
  | not inner => not (inner.renamed name)
  | isNull e negated => isNull (e.renamed name) negated

def renamedAll (name : NodeId → NodeId) : List Predicate → List Predicate
  | [] => []
  | p :: rest => p.renamed name :: renamedAll name rest

end

variable (name : NodeId → NodeId)

mutual

theorem nodes_renamed : (p : Predicate) → (p.renamed name).nodes = p.nodes.map (Expr.renamed name)
  | comparison lhs _ rhs => by
    rw [renamed, nodes, nodes, List.map_append, lhs.nodes_renamed, rhs.nodes_renamed]
  | inList test items _ => by
    rw [renamed, nodes, nodes, List.map_append, test.nodes_renamed, Expr.nodesOf_renamedAll]
  | and children | or children => nodesOf_renamedAll children
  | not inner => nodes_renamed inner
  | isNull e _ => e.nodes_renamed name

theorem nodesOf_renamedAll : (ps : List Predicate) →
    nodesOf (renamedAll name ps) = (nodesOf ps).map (Expr.renamed name)
  | [] => rfl
  | p :: rest => by
    rw [renamedAll, nodesOf, nodesOf, List.map_append, nodes_renamed p, nodesOf_renamedAll rest]

end

end Predicate

def ValuesRoot.renamed (name : NodeId → NodeId) (root : ValuesRoot) : ValuesRoot :=
  { root with rows := root.rows.map (Expr.renamedAll name) }

def Selection.renamed (name : NodeId → NodeId) (item : Selection) : Selection :=
  { item with expr := item.expr.renamed name }

def Assignment.renamed (name : NodeId → NodeId) (a : Assignment) : Assignment :=
  { a with value := a.value.renamed name }

def Statement.renamed (name : NodeId → NodeId) : Statement → Statement
  | select s => select {
      roots := s.roots
      values := s.values.map (ValuesRoot.renamed name)
      selections := s.selections.map (Selection.renamed name)
      restriction := s.restriction.map (Predicate.renamed name) }
  | update u => update {
      target := u.target
      assignments := u.assignments.map (Assignment.renamed name)
      restriction := u.restriction.map (Predicate.renamed name) }
  | delete d => delete { d with restriction := d.restriction.map (Predicate.renamed name) }

section
variable (name : NodeId → NodeId)

theorem restrictionNodes_renamed (restriction : Option Predicate) :
    restrictionNodes (restriction.map (Predicate.renamed name)) =
      (restrictionNodes restriction).map (Expr.renamed name) := by
  cases restriction with
  | none => rfl
  | some p => exact p.nodes_renamed name

/-- Parts `f` renames, with the nodes that `nodesOf` finds in each of them. -/
theorem nodes_of_renamed_parts {α : Type} (f : α → α) (nodesOf : α → List Expr)
    (each : ∀ a, nodesOf (f a) = (nodesOf a).map (Expr.renamed name)) (as : List α) :
    (as.map f).flatMap nodesOf = (as.flatMap nodesOf).map (Expr.renamed name) := by
  rw [List.flatMap_map, List.map_flatMap]
  exact congrArg (List.flatMap · as) (funext each)

/-- The node at each place is the renamed one of the node that was there. -/
theorem Statement.nodes_renamed (s : Statement) :
    (s.renamed name).nodes = s.nodes.map (Expr.renamed name) := by
  cases s with
  | select s =>
    have rows := nodes_of_renamed_parts name (Expr.renamedAll name) Expr.nodesOf
      (Expr.nodesOf_renamedAll name)
    have values := nodes_of_renamed_parts name (ValuesRoot.renamed name)
      (fun root => root.rows.flatMap Expr.nodesOf) (fun root => rows root.rows) s.values
    have selections := nodes_of_renamed_parts name (Selection.renamed name)
      (fun item => item.expr.nodes) (fun item => item.expr.nodes_renamed name) s.selections
    rw [renamed, nodes, nodes, List.map_append, List.map_append, values, selections,
      restrictionNodes_renamed]
  | update u =>
    have values := nodes_of_renamed_parts name (Assignment.renamed name)
      (fun a => a.value.nodes) (fun a => a.value.nodes_renamed name) u.assignments
    rw [renamed, nodes, nodes, List.map_append, values, restrictionNodes_renamed]
  | delete d => exact restrictionNodes_renamed name d.restriction

end

end SemanticQuery.Query
