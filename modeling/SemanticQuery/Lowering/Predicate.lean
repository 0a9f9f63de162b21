import SemanticQuery.Lowering.Expr
/-!
Lowering of predicates. The two sides of a comparison take their types from each other, and the items
of a list from its test. Behind a parameter in a list come the expansions of its occurrence.
-/
namespace SemanticQuery.Lowering
open Query

/-- The hint for the test of a list: the type of the first item. -/
def firstItemHint (c : Scope) : List Expr → Hint
  | [] => noHint
  | e :: _ => typeHint c e

def lowerExpansions (c : Scope) (h : Hint) : List Occurrence → LowerM (List Sql.Expr)
  | [] => pure []
  | o :: rest => do
    let first ← lowerParameter c h o
    let later ← lowerExpansions c h rest
    return first :: later

/-- The occurrences to write behind a list item. -/
def expansionsOf (c : Scope) : Expr → List Occurrence
  | .parameter _ o => c.expansions o.id
  | _ => []

def lowerItems (c : Scope) (h : Hint) : List Expr → LowerM (List Sql.Expr)
  | [] => pure []
  | e :: rest => do
    let first ← lowerExpr c h e
    let expanded ← lowerExpansions c h (expansionsOf c e)
    let later ← lowerItems c h rest
    return first :: (expanded ++ later)

mutual

def lowerPredicate (c : Scope) : Predicate → LowerM Sql.Predicate
  | .comparison lhs operator rhs => do
    let l ← lowerExpr c (typeHint c rhs) lhs
    let r ← lowerExpr c (typeHint c lhs) rhs
    return .comparison l operator r
  | .inList test items negated => do
    let t ← lowerExpr c (firstItemHint c items) test
    let lowered ← lowerItems c (typeHint c test) items
    return .inList t lowered negated
  | .and children => do
    let lowered ← lowerPredicates c children
    return .and lowered
  | .or children => do
    let lowered ← lowerPredicates c children
    return .or lowered
  | .not inner => do
    let lowered ← lowerPredicate c inner
    return .not lowered
  | .isNull e negated => do
    let lowered ← lowerExpr c noHint e
    return .isNull lowered negated

def lowerPredicates (c : Scope) : List Predicate → LowerM (List Sql.Predicate)
  | [] => pure []
  | p :: rest => do
    let first ← lowerPredicate c p
    let later ← lowerPredicates c rest
    return first :: later

end

def lowerRestriction (c : Scope) : Option Predicate → LowerM (Option Sql.Predicate)
  | none => pure none
  | some p => do
    let lowered ← lowerPredicate c p
    return some lowered

end SemanticQuery.Lowering
