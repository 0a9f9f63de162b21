import SemanticQuery.Lowering.Error
import SemanticQuery.Lowering.Ledger
import SemanticQuery.Mapping.Decompose
import SemanticQuery.Model.Resolve
import SemanticQuery.Query.Typing
/-!
Lowering of expressions. An expression that has no type of its own takes one from its context: a
hint, which is worked out only when it is needed. A parameter is given slots for the columns of its
type; everything else is written in terms of columns, literals and calls.
-/
namespace SemanticQuery.Lowering
open Query

/-- What an expression is lowered against: the model, the from clause so far, the expansions of
parameter occurrences, and whether a parameter without a type is refused. -/
structure Scope where
  model : Model
  source : Sql.FromClause
  expansions : OccurrenceId → List Occurrence
  strict : Bool

structure Progress where
  work : Workspace
  ledger : Ledger

abbrev LowerM := EStateM LoweringError Progress

abbrev Hint := StateM Workspace (Option Mapping)

def noHint : Hint := pure none

def runTyping {α : Type} (x : TypingM α) : LowerM α := fun s =>
  match x s.work with
  | .ok a w => .ok a { s with work := w }
  | .error e w => .error (.function e) { s with work := w }

def runHint (h : Hint) : LowerM (Option Mapping) := fun s =>
  let (m, w) := h s.work
  .ok m { s with work := w }

def liftMapping {α : Type} : Except MappingError α → LowerM α
  | .ok a => pure a
  | .error e => throw (.mapping e)

def liftFunction {α : Type} : Except FunctionError α → LowerM α
  | .ok a => pure a
  | .error e => throw (.function e)

def allocate (occurrence : OccurrenceId) (types : List (Option ColumnType)) : LowerM (List Slot) :=
  fun s =>
    let (group, ledger) := s.ledger.allocate occurrence types
    .ok group { s with ledger := ledger }

def report (e : Event) : LowerM Unit := modify fun s => { s with work := s.work.report e }

namespace Scope

def mapping (c : Scope) (type : ExprType) : Except MappingError (Option Mapping) :=
  c.model.resolveMapping c.source type

/-- What functions may know of it. -/
def surroundings (c : Scope) : Surroundings := ⟨c.model.catalog, c.mapping⟩

def mapping? (c : Scope) (type : ExprType) : Option Mapping := c.surroundings.mapping? type

theorem mapping?_of_ok {c : Scope} {type : ExprType} {m : Option Mapping} (found : c.mapping type = .ok m) :
    c.mapping? type = m := by
  simp only [mapping?, Surroundings.mapping?, surroundings, found]

theorem mapping?_of_error {c : Scope} {type : ExprType} {e : MappingError}
    (missing : c.mapping type = .error e) : c.mapping? type = none := by
  simp only [mapping?, Surroundings.mapping?, surroundings, missing]

end Scope

/-- The hint that one expression takes the type of another. -/
def typeHint (c : Scope) (e : Expr) : Hint := do
  match ← quietly e.type with
  | some type => return c.mapping? type
  | none => return none

/-- The hint for the argument of a call at a position. -/
def argumentHint (c : Scope) (function : Callee) (implied : Option ExprType) (arguments : List Expr)
    (index : Nat) : Hint :=
  match function.arguments with
  | none => noHint
  | some rule =>
    Inquiry.run (fun place => answered (Expr.typeAmong arguments place))
      (rule.mapping function.name implied (Expr.seenAll arguments) index c.surroundings)

/-- The hint for one element of a tuple: the component at its place. -/
def elementHint (h : Hint) (index : Nat) : Hint := do
  match ← h with
  | some m => return m.componentAt? index
  | none => return none

def columnRefs (qualifier : String) (columns : List String) (m : Mapping) : List Sql.ColumnRef :=
  (columns.zip m.columnTypes).map fun (column, type) => ⟨qualifier, column, type⟩

/-- A literal that has no mapping of its own needs one from its context. -/
def lowerLiteral (c : Scope) (h : Hint) (v : Value) (type : ExprType) : LowerM Sql.Expr := do
  let known ← liftMapping (c.mapping type)
  let hinted ← match known with
    | some m => pure (some m)
    | none => runHint h
  match hinted with
  | none => throw (.mapping (.noStandardType type.kind))
  | some m =>
    let values ← liftMapping (m.decompose v)
    return .ofList (values.map fun cv => .literal cv.value cv.type)

def lowerPath (c : Scope) (source : PathRef) : LowerM Sql.Expr :=
  match c.source.find? (.root source.path.rootName) with
  | none => throw (.missingTableGroup source.path.text)
  | some _ => do
    let resolved ← liftMapping (c.model.resolvePath c.source source.path)
    return .ofColumns (columnRefs resolved.qualifier resolved.columns resolved.mapping)

/-- The type of an occurrence is its own, else its parameter's, else that of the context; without any
it gets one untyped slot, unless that is refused. -/
def lowerParameter (c : Scope) (h : Hint) (o : Occurrence) : LowerM Sql.Expr := do
  let own ← match o.type? with
    | some type => liftMapping (c.mapping type)
    | none => pure none
  let mapping ← match own with
    | some m => pure (some m)
    | none => runHint h
  match mapping with
  | some m =>
    let group ← allocate o.id (m.columnTypes.map some)
    return .ofSlots group
  | none =>
    if c.strict then throw (.untypedParameter o.key.text)
    else
      let group ← allocate o.id [none]
      return .ofSlots group

/-- The relational mapping of a call's result. One that cannot be looked up is reported and left out. -/
def resultMapping (c : Scope) (function : String) : Option ExprType → LowerM (Option Mapping)
  | none => pure none
  | some type =>
    match c.mapping type with
    | .ok m => pure m
    | .error _ => do
      report (.mappingUnavailable function)
      return none

/-- The mapping of a call's result: the one its type holds, or else the one that its function comes by. -/
def callMapping (c : Scope) (function : Callee) (type : Option ExprType)
    (arguments : List Sql.Expr) : LowerM (Option Mapping) :=
  match type.bind ExprType.ownMapping? with
  | some m => pure (some m)
  | none =>
    (function.returns.mapping arguments).run fun _ => resultMapping c function.name type

def checkLowered (function : Callee) (arguments : List Sql.Expr) : LowerM Unit :=
  match function.validator with
  | some v => liftFunction (v.checkLowered function.name arguments)
  | none => pure ()

mutual

/-- A call is typed first, then its arguments are lowered and checked. -/
def lowerExpr (c : Scope) (h : Hint) : Expr → LowerM Sql.Expr
  | .literal _ v type => lowerLiteral c h v type
  | .parameter _ o => lowerParameter c h o
  | .path _ source => lowerPath c source
  | .call node function arguments implied notes => do
    let type ← runTyping (Expr.call node function arguments implied notes).type
    let lowered ← lowerArguments c function implied arguments 0 arguments
    checkLowered function lowered
    let mapping ← callMapping c function type lowered
    return .call function.name function.style lowered type mapping
  | .tuple _ elements _ => do
    let lowered ← lowerElements c h 0 elements
    return .tuple lowered

/-- Lowers the arguments from a position on; hints are taken from the whole list. -/
def lowerArguments (c : Scope) (function : Callee) (implied : Option ExprType) (all : List Expr)
    (index : Nat) : List Expr → LowerM (List Sql.Expr)
  | [] => pure []
  | e :: rest => do
    let first ← lowerExpr c (argumentHint c function implied all index) e
    let later ← lowerArguments c function implied all (index + 1) rest
    return first :: later

def lowerElements (c : Scope) (h : Hint) (index : Nat) : List Expr → LowerM (List Sql.Expr)
  | [] => pure []
  | e :: rest => do
    let first ← lowerExpr c (elementHint h index) e
    let later ← lowerElements c h (index + 1) rest
    return first :: later

end

end SemanticQuery.Lowering
