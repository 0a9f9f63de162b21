import SemanticQuery.Query.Statement
import SemanticQuery.Query.Typing
/-!
Private copies. Literals, parameters and paths hold nothing that changes and stay themselves; calls
and tuples are rebuilt under new identities, once in a context, so that sharing is kept.
-/
namespace SemanticQuery.Query

/-- The copies made so far, by the node they are copies of. -/
structure CopyContext where
  copies : KeyedList NodeId Expr

namespace CopyContext

def empty : CopyContext := ⟨.empty⟩

def find? (c : CopyContext) (e : Expr) : Option Expr := c.copies.find? e.node

def size (c : CopyContext) : Nat := c.copies.size

def isEmpty (c : CopyContext) : Bool := c.copies.isEmpty

end CopyContext

structure Copying where
  context : CopyContext
  nextNode : NodeId

abbrev CopyM := StateM Copying

/-- Gives a rebuilt node an identity of its own and remembers it as the copy of its node. -/
def keepCopy (copied : NodeId) (rebuild : NodeId → Expr) : CopyM Expr := do
  let s ← get
  let copy := rebuild s.nextNode
  set { s with context := ⟨s.context.copies.insert copied copy⟩, nextNode := s.nextNode + 1 }
  return copy

namespace Expr

mutual

def copy : Expr → CopyM Expr
  | literal node value type => pure (literal node value type)
  | parameter node occurrence => pure (parameter node occurrence)
  | path node source => pure (path node source)
  | call node function arguments implied notes => do
    match (← get).context.copies.find? node with
    | some known => return known
    | none =>
      let copied ← copyAll arguments
      keepCopy node fun fresh => call fresh function copied implied notes
  | tuple node elements notes => do
    match (← get).context.copies.find? node with
    | some known => return known
    | none =>
      let copied ← copyAll elements
      keepCopy node fun fresh => tuple fresh copied notes

def copyAll : List Expr → CopyM (List Expr)
  | [] => pure []
  | e :: rest => do
    let first ← e.copy
    let later ← copyAll rest
    return first :: later

end

end Expr

namespace Predicate

mutual

def copy : Predicate → CopyM Predicate
  | comparison lhs operator rhs => do
    let l ← lhs.copy
    let r ← rhs.copy
    return comparison l operator r
  | inList test items negated => do
    let t ← test.copy
    let copied ← Expr.copyAll items
    return inList t copied negated
  | and children => do
    let copied ← copyAll children
    return and copied
  | or children => do
    let copied ← copyAll children
    return or copied
  | not inner => do
    let copied ← inner.copy
    return not copied
  | isNull expr negated => do
    let copied ← expr.copy
    return isNull copied negated

def copyAll : List Predicate → CopyM (List Predicate)
  | [] => pure []
  | p :: rest => do
    let first ← p.copy
    let later ← copyAll rest
    return first :: later

end

end Predicate

def copyRestriction : Option Predicate → CopyM (Option Predicate)
  | none => pure none
  | some p => do
    let copied ← p.copy
    return some copied

def ValuesRoot.copy (root : ValuesRoot) : CopyM ValuesRoot := do
  let rows ← root.rows.mapM Expr.copyAll
  return { root with rows }

def Selection.copy (item : Selection) : CopyM Selection := do
  let expr ← item.expr.copy
  return { item with expr }

def Assignment.copy (a : Assignment) : CopyM Assignment := do
  let value ← a.value.copy
  return { a with value }

def Statement.copy : Statement → CopyM Statement
  | .select s => do
    let values ← s.values.mapM ValuesRoot.copy
    let selections ← s.selections.mapM Selection.copy
    let restriction ← copyRestriction s.restriction
    return .select { s with values, selections, restriction }
  | .update u => do
    let assignments ← u.assignments.mapM Assignment.copy
    let restriction ← copyRestriction u.restriction
    return .update { u with assignments, restriction }
  | .delete d => do
    let restriction ← copyRestriction d.restriction
    return .delete { d with restriction }

/-- Copies into a context, with identities that the workspace hands out. -/
def copyInto {α : Type} (x : CopyM α) (c : CopyContext) (w : Workspace) :
    α × CopyContext × Workspace :=
  let (a, s) := x ⟨c, w.nextNode⟩
  (a, s.context, { w with nextNode := s.nextNode })

end SemanticQuery.Query
