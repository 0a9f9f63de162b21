import SemanticQuery.Lowering.Predicate
import SemanticQuery.Query.Statement
import SemanticQuery.Sql.Statement
/-!
Lowering of statements. The from clause is built root by root, so each root sees those before it;
then the selections or assignments are lowered, and the restriction last.
-/
namespace SemanticQuery.Lowering
open Query

/-- A lowered statement with its slots and the from clause that paths are resolved against later. -/
structure Lowered where
  statement : Sql.Statement
  ledger : Ledger
  source : Sql.FromClause

def requireSelect : Statement → Except LoweringError Select
  | .select s => .ok s
  | .update u => .error (.statementKind "select" (Statement.update u).kind)
  | .delete d => .error (.statementKind "select" (Statement.delete d).kind)

def requireMutation : Statement → Except LoweringError Unit
  | .select s => .error (.statementKind "update or delete" (Statement.select s).kind)
  | .update _ | .delete _ => .ok ()

def Scope.add (c : Scope) (group : Sql.TableGroup) : Scope := { c with source := c.source.add group }

/-- The table an entity is reached by under a root's name. -/
def rootTable (c : Scope) (root : Root) : LowerM (Sql.TableRef × Scope) := do
  let entity ← liftMapping (c.model.entity root.entity)
  let table : Sql.TableRef := ⟨entity.table, root.path.rootName⟩
  return (table, c.add (.entity root.path entity.name table))

def addRoots (c : Scope) : List Root → LowerM Scope
  | [] => pure c
  | root :: rest => do
    let (_, c) ← rootTable c root
    addRoots c rest

/-- The types of a column's cells; a row that is too short has none. -/
def cellTypes (index : Nat) : List (List Expr) → LowerM (List (Option ExprType))
  | [] => pure []
  | row :: rest => do
    let first ← match row[index]? with
      | some cell => runTyping cell.type
      | none => pure none
    let later ← cellTypes index rest
    return first :: later

/-- The mapping of a column of inline rows: that of the type that takes precedence among its cells. It
may span one column only. -/
def columnMapping (c : Scope) (rows : List (List Expr)) (index : Nat) (column : String) :
    LowerM (Option Mapping) := do
  let types ← cellTypes index rows
  let mapping ← match highestType types with
    | some type => liftMapping (c.mapping type)
    | none => pure none
  match mapping with
  | some m =>
    if m.columnCount = 1 then return some m
    else throw (.mapping (.multiColumnValues column m.text))
  | none => return none

def columnMappings (c : Scope) (rows : List (List Expr)) (index : Nat) :
    List String → LowerM (List (Option Mapping))
  | [] => pure []
  | column :: rest => do
    let first ← columnMapping c rows index column
    let later ← columnMappings c rows (index + 1) rest
    return first :: later

/-- The cells of a row, each under its column's mapping. -/
def lowerRow (c : Scope) (mappings : List (Option Mapping)) (index : Nat) :
    List Expr → LowerM (List Sql.Expr)
  | [] => pure []
  | cell :: rest => do
    let first ← lowerExpr c (pure (mappings[index]?).join) cell
    let later ← lowerRow c mappings (index + 1) rest
    return first :: later

def lowerRows (c : Scope) (mappings : List (Option Mapping)) :
    List (List Expr) → LowerM (List (List Sql.Expr))
  | [] => pure []
  | row :: rest => do
    let first ← lowerRow c mappings 0 row
    let later ← lowerRows c mappings rest
    return first :: later

def addValues (c : Scope) : List ValuesRoot → LowerM Scope
  | [] => pure c
  | root :: rest => do
    let mappings ← columnMappings c root.rows 0 root.columns
    let rows ← lowerRows c mappings root.rows
    addValues (c.add (.values root.path ⟨rows, root.path.rootName, root.columns⟩ mappings [] [])) rest

def pathOf? : Expr → Option Path
  | .path _ source => some source.path
  | _ => none

/-- How a selection item is read back when its columns start at a position. -/
def itemResult (position : Nat) (item : Selection) (lowered : Sql.Expr) : LowerM Sql.Result :=
  if lowered.isTuple then do
    let type ← runTyping item.expr.type
    let kind := match type with
      | some type => type.kind
      | none => .composite
    return .tuple (List.range' position lowered.columnCount) item.label kind (pathOf? item.expr)
  else return .basic position item.label lowered.kind?

def numberSelections : Nat → List Sql.Expr → List Sql.Selection
  | _, [] => []
  | position, e :: rest => ⟨position, e⟩ :: numberSelections (position + 1) rest

/-- The selected columns and the results of the items from a position on. -/
def lowerSelections (c : Scope) (position : Nat) :
    List Selection → LowerM (List Sql.Selection × List Sql.Result)
  | [] => pure ([], [])
  | item :: rest => do
    let lowered ← lowerExpr c noHint item.expr
    let result ← itemResult position item lowered
    let (selections, results) ← lowerSelections c (position + lowered.leaves.length) rest
    return (numberSelections position lowered.leaves ++ selections, result :: results)

/-- The value of an assignment is lowered under the mapping of its target. -/
def lowerAssignments (c : Scope) : List Assignment → LowerM (List Sql.Assignment)
  | [] => pure []
  | a :: rest => do
    let target ← liftMapping (c.model.resolvePath c.source a.target.path)
    let value ← lowerExpr c (pure (some target.mapping)) a.value
    let later ← lowerAssignments c rest
    return ⟨columnRefs target.qualifier target.columns target.mapping, value⟩ :: later

def lowerSelect (c : Scope) (s : Select) : LowerM (Sql.Statement × Sql.FromClause) := do
  let c ← addRoots c s.roots
  let c ← addValues c s.values
  let (selections, results) ← lowerSelections c 0 s.selections
  let restriction ← lowerRestriction c s.restriction
  return (.select ⟨c.source, selections, results, restriction⟩, c.source)

def lowerUpdate (c : Scope) (u : Update) : LowerM (Sql.Statement × Sql.FromClause) := do
  let (table, c) ← rootTable c u.target
  let assignments ← lowerAssignments c u.assignments
  let restriction ← lowerRestriction c u.restriction
  return (.update ⟨table, assignments, restriction⟩, c.source)

def lowerDelete (c : Scope) (d : Delete) : LowerM (Sql.Statement × Sql.FromClause) := do
  let (table, c) ← rootTable c d.target
  let restriction ← lowerRestriction c d.restriction
  return (.delete ⟨table, restriction⟩, c.source)

def lowerParts (c : Scope) : Statement → LowerM (Sql.Statement × Sql.FromClause)
  | .select s => lowerSelect c s
  | .update u => lowerUpdate c u
  | .delete d => lowerDelete c d

/-- Lowers a statement from an empty from clause and an empty ledger. -/
def lowerStatement (model : Model) (strict : Bool) (expansions : OccurrenceId → List Occurrence)
    (s : Statement) : EStateM LoweringError Workspace Lowered := fun w =>
  match lowerParts ⟨model, .empty, expansions, strict⟩ s ⟨w, .empty⟩ with
  | .ok (statement, source) p =>
    let slots := p.ledger.slotCount
    .ok ⟨statement, p.ledger, source⟩
      ((p.work.report .statementLowered).report (.slotsAllocated slots))
  | .error e p => .error e p.work

end SemanticQuery.Lowering
