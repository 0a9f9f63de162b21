import SemanticQuery.ExprType
/-!
Precedence among operand types: a path before anything else, then the widest kind, and the first of
equals. The rule is stated over anything that has a type, so that the winner is one of the operands.
-/
namespace SemanticQuery

/-- The left operand, unless the right one alone is a path or is strictly wider. -/
def widen {α : Type} (typeOf : α → ExprType) : Option α → Option α → Option α
  | none, right => right
  | left, none => left
  | some l, some r =>
    if (typeOf l).isPath then some l
    else if (typeOf r).isPath || (typeOf r).kind.isWider (typeOf l).kind then some r
    else some l

def highestPrecedence {α : Type} (typeOf : α → ExprType) : List (Option α) → Option α
  | [] => none
  | first :: rest => rest.foldl (widen typeOf) first

/-- The type that represents operands of the given types; untyped operands are passed over. -/
def highestType (types : List (Option ExprType)) : Option ExprType := highestPrecedence id types

end SemanticQuery
