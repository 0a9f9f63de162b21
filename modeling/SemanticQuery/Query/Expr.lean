import SemanticQuery.Query.Function
import SemanticQuery.Query.Parameter
/-!
Domain expressions and predicates. Each node has an identity, and a node may stand at several places
of a statement: the places then hold one identity, and what is resolved for one is resolved for all.
-/
namespace SemanticQuery.Query

abbrev NodeId := Nat

/-- Where a node came from in the query text, and the name it was given. -/
structure Notes where
  span : Option (Nat × Nat)
  label : Option String
  deriving DecidableEq

def Notes.none : Notes := ⟨.none, .none⟩

inductive Expr where
  | literal (node : NodeId) (value : Value) (type : ExprType)
  | parameter (node : NodeId) (occurrence : Occurrence)
  | path (node : NodeId) (source : PathRef)
  | call (node : NodeId) (function : Callee) (arguments : List Expr) (implied : Option ExprType)
      (notes : Notes)
  | tuple (node : NodeId) (elements : List Expr) (notes : Notes)

namespace Expr

instance : Inhabited Expr := ⟨tuple 0 [] .none⟩

def node : Expr → NodeId
  | literal node _ _ | parameter node _ | path node _ | call node _ _ _ _ | tuple node _ _ => node

def isSame (a b : Expr) : Bool := a.node == b.node

mutual

/-- This node and every node below it, parents first. -/
def nodes : Expr → List Expr
  | literal node value type => [literal node value type]
  | parameter node occurrence => [parameter node occurrence]
  | path node source => [path node source]
  | call node function arguments implied notes =>
    call node function arguments implied notes :: nodesOf arguments
  | tuple node elements notes => tuple node elements notes :: nodesOf elements

def nodesOf : List Expr → List Expr
  | [] => []
  | e :: rest => e.nodes ++ nodesOf rest

end

def occurrence? : Expr → Option Occurrence
  | parameter _ occurrence => some occurrence
  | _ => none

end Expr

inductive Predicate where
  | comparison (lhs : Expr) (operator : Comparison) (rhs : Expr)
  | inList (test : Expr) (items : List Expr) (negated : Bool)
  | and (children : List Predicate)
  | or (children : List Predicate)
  | not (inner : Predicate)
  | isNull (expr : Expr) (negated : Bool)

namespace Predicate

instance : Inhabited Predicate := ⟨and []⟩

mutual

/-- The nodes of the expressions in the predicate, in source order. -/
def nodes : Predicate → List Expr
  | comparison lhs _ rhs => lhs.nodes ++ rhs.nodes
  | inList test items _ => test.nodes ++ Expr.nodesOf items
  | and children | or children => nodesOf children
  | not inner => inner.nodes
  | isNull expr _ => expr.nodes

def nodesOf : List Predicate → List Expr
  | [] => []
  | p :: rest => p.nodes ++ nodesOf rest

end

end Predicate

end SemanticQuery.Query
