import SemanticQuery.Event
import SemanticQuery.Precedence
import SemanticQuery.Query.Expr
/-!
Types of domain expressions. The result type of a call is resolved from its arguments on first
demand and kept for its node, so that a node is resolved once however often it is asked for.
-/
namespace SemanticQuery.Query

/-- What work on statements leaves behind: the next node to hand out, the result types resolved so
far, and the events reported, oldest first. -/
structure Workspace where
  nextNode : NodeId
  types : KeyedList NodeId (Option ExprType)
  events : List Event

namespace Workspace

def empty : Workspace := ⟨0, .empty, []⟩

def report (w : Workspace) (e : Event) : Workspace := { w with events := w.events ++ [e] }

def keepType (w : Workspace) (node : NodeId) (type : Option ExprType) : Workspace :=
  { w with types := w.types.insert node type }

end Workspace

abbrev TypingM := EStateM FunctionError Workspace

/-- Runs typing where a failure is an answer like another. -/
def answered {α : Type} (x : TypingM α) : StateM Workspace (Except FunctionError α) := fun w =>
  match x w with
  | .ok a w => (.ok a, w)
  | .error e w => (.error e, w)

/-- Runs typing where an error only means that there is no answer. -/
def quietly {α : Type} (x : TypingM (Option α)) : StateM Workspace (Option α) := fun w =>
  match x w with
  | .ok a w => (a, w)
  | .error _ w => (none, w)

/-- Answers the questions of a resolution by typing what stands at the places. -/
def resolveWith {α : Type} (typeAt : Place → TypingM (Option ExprType)) (x : Resolution α) : TypingM α :=
  fun w =>
    match Inquiry.run (fun place => answered (typeAt place)) x.run w with
    | (.ok a, w) => .ok a w
    | (.error e, w) => .error e w

/-- Reports and keeps a result type that was just resolved. -/
def keepResolved (node : NodeId) (function : String) (type : Option ExprType) :
    TypingM (Option ExprType) := do
  modify fun w => (w.report (.functionResolved function)).keepType node type
  return type

namespace Expr

mutual

/-- The expression as a function sees it. -/
def seen : Expr → Argument
  | literal _ v type => .literal v type
  | parameter _ occurrence => .parameter occurrence
  | path _ source => .path source
  | call _ function arguments implied _ => .call function.name (seenAll arguments) implied
  | tuple _ elements _ => .tuple (seenAll elements)

def seenAll : List Expr → List Argument
  | [] => []
  | e :: rest => e.seen :: seenAll rest

end

mutual

/-- The type of the expression, or of what stands at a place in it. -/
def typeWithin : Expr → Place → TypingM (Option ExprType)
  | literal _ _ type, [] => pure (some type)
  | parameter _ occurrence, [] => pure occurrence.type?
  | path _ source, [] => pure (some (.path source))
  | tuple .., [] => pure (some (.domain .composite))
  | call node function arguments implied _, [] => do
    match (← get).types.find? node with
    | some resolved => return resolved
    | none =>
      let type ← resolveWith (fun place => typeAmong arguments place)
        (function.returns.resolve implied (seenAll arguments) function.catalog)
      keepResolved node function.name type
  | call _ _ arguments _ _, index :: below => typeAmong arguments (index :: below)
  | tuple _ elements _, index :: below => typeAmong elements (index :: below)
  | literal .., _ :: _ | parameter .., _ :: _ | path .., _ :: _ => pure none

/-- The type of what stands at a place among expressions. -/
def typeAmong : List Expr → Place → TypingM (Option ExprType)
  | [], _ | _, [] => pure none
  | e :: _, 0 :: below => e.typeWithin below
  | _ :: rest, (index + 1) :: below => typeAmong rest (index :: below)

end

def type (e : Expr) : TypingM (Option ExprType) := e.typeWithin []

end Expr

/-- The check of arguments by a validator, made when a call is built. -/
def checkArguments (v : Validator) (function : String) (arguments : List Expr) : TypingM Unit :=
  resolveWith (Expr.typeAmong arguments) (v.check function (Expr.seenAll arguments))

end SemanticQuery.Query
