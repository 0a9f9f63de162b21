import SemanticQuery.Sql.Statement
import SemanticQuery.Value.Text
/-!
The text of relational statements. A statement is first written as pieces, each a text or the
placeholder of a slot; the text and the order of the slots are two views of the pieces.
-/
namespace SemanticQuery.Sql

inductive Piece where
  | text (text : String)
  | placeholder (slot : Nat)
  deriving DecidableEq

def Piece.chars : Piece → List Char
  | text t => t.toList
  | placeholder _ => ['?']

def Piece.slot? : Piece → Option Nat
  | text _ => none
  | placeholder slot => some slot

structure Rendered where
  sql : String
  slots : List Nat
  deriving DecidableEq

def Rendered.ofPieces (pieces : List Piece) : Rendered where
  sql := String.ofList (pieces.flatMap Piece.chars)
  slots := pieces.filterMap Piece.slot?

def separated (separator : String) : List (List Piece) → List Piece
  | [] => []
  | [item] => item
  | item :: rest => item ++ .text separator :: separated separator rest

def parenthesized (pieces : List Piece) : List Piece := .text "(" :: (pieces ++ [.text ")"])

def ColumnRef.pieces (c : ColumnRef) : List Piece :=
  if c.qualifier.isEmpty then [.text c.column] else [.text c.qualifier, .text ".", .text c.column]

mutual

def Expr.pieces : Expr → List Piece
  | .column c => c.pieces
  | .literal v _ => [.text v.toText]
  | .parameter slot => [.placeholder slot.number]
  | .call name style arguments _ _ => style.write (fun t => [.text t]) name (itemPieces arguments)
  | .tuple elements => parenthesized (separated ", " (itemPieces elements))

def itemPieces : List Expr → List (List Piece)
  | [] => []
  | e :: rest => e.pieces :: itemPieces rest

end

def listPieces (es : List Expr) : List Piece := separated ", " (itemPieces es)

mutual

def Predicate.pieces : Predicate → List Piece
  | .comparison lhs operator rhs => lhs.pieces ++ .text (" " ++ operator.token ++ " ") :: rhs.pieces
  | .inList test items negated =>
    test.pieces ++ .text (if negated then " not in (" else " in (") :: (listPieces items ++ [.text ")"])
  | .and children => parenthesized (separated " and " (childPieces children))
  | .or children => parenthesized (separated " or " (childPieces children))
  | .not inner => .text "not (" :: (inner.pieces ++ [.text ")"])
  | .isNull e negated => e.pieces ++ [.text (if negated then " is not null" else " is null")]

def childPieces : List Predicate → List (List Piece)
  | [] => []
  | p :: rest => p.pieces :: childPieces rest

end

def restrictionPieces : Option Predicate → List Piece
  | none => []
  | some p => .text " where " :: p.pieces

def TableRef.pieces (t : TableRef) : List Piece := [.text t.table, .text " ", .text t.qualifier]

def ValuesTable.pieces (t : ValuesTable) : List Piece :=
  .text "(values " :: separated ", " (t.rows.map fun row => parenthesized (listPieces row)) ++
    [.text ") ", .text t.qualifier, .text (" (" ++ String.intercalate ", " t.columns ++ ")")]

/-- A group is written without its joins. -/
def TableGroup.pieces : TableGroup → List Piece
  | .entity _ _ table => table.pieces
  | .values _ table _ _ _ => table.pieces

def FromClause.pieces (f : FromClause) : List Piece :=
  match f.roots with
  | [] => []
  | roots => .text " from " :: separated ", " (roots.map TableGroup.pieces)

def Assignment.pieces (a : Assignment) : List Piece :=
  let target := match a.columns with
    | [c] => c.column
    | columns => "(" ++ String.intercalate ", " (columns.map ColumnRef.column) ++ ")"
  .text target :: .text " = " :: a.value.pieces

def Statement.pieces : Statement → List Piece
  | .select s =>
    .text "select " :: listPieces (s.selections.map Selection.expr) ++ s.source.pieces ++
      restrictionPieces s.restriction
  | .update u =>
    .text "update " :: u.target.pieces ++
      .text " set " :: separated ", " (u.assignments.map Assignment.pieces) ++
      restrictionPieces u.restriction
  | .delete d => .text "delete from " :: d.target.pieces ++ restrictionPieces d.restriction

/-- The statement's text with the slots of its placeholders from left to right. -/
def Statement.render (s : Statement) : Rendered := .ofPieces s.pieces

end SemanticQuery.Sql
