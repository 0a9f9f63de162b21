import SemanticQuery.Query.Typing
/-!
Building domain expressions. A builder numbers the occurrences it makes, so no two of them have one
identity until its numbers start over; nodes are numbered by the workspace.
-/
namespace SemanticQuery.Query

def newNode {ε : Type} : EStateM ε Workspace NodeId := do
  let w ← get
  set { w with nextNode := w.nextNode + 1 }
  return w.nextNode

/-- A builder counts the occurrences it has made. -/
structure Builder where
  catalog : Catalog
  functions : Registry
  made : Nat

namespace Builder

def new (catalog : Catalog) (functions : Registry) : Builder := ⟨catalog, functions, 0⟩

/-- The next identity: the count in 32 bits, which starts over at zero behind the last. -/
def nextOccurrence (b : Builder) : OccurrenceId := UInt32.ofNat b.made

/-- A literal has the standard type of its kind, or the bare kind where the catalog has none. -/
def literalType (b : Builder) (v : Value) : ExprType :=
  match b.catalog.standardType? v.kind with
  | some type => .basic type
  | none => .domain v.kind

def occurrence (b : Builder) (parameter : Parameter) (anticipated : Option ExprType)
    (expands : Option OccurrenceId) : Occurrence × Builder :=
  (⟨b.nextOccurrence, parameter, anticipated, expands⟩, { b with made := b.made + 1 })

/-- An occurrence that stands in for one more value bound to the parameter of another. -/
def expansionOf (b : Builder) (o : Occurrence) : Occurrence × Builder :=
  b.occurrence o.parameter o.anticipated (some o.id)

/-- A call of the named function, once its arguments pass. -/
def call (b : Builder) (name : String) (arguments : List Expr) (implied : Option ExprType)
    (notes : Notes) : TypingM Expr := do
  let function ← MonadExcept.ofExcept (b.functions.find name)
  if let some v := function.validator then checkArguments v function.name arguments
  let node ← newNode
  return .call node ⟨function, b.catalog⟩ arguments implied notes

end Builder

end SemanticQuery.Query
