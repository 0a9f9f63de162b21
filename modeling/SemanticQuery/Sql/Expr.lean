import SemanticQuery.Comparison
import SemanticQuery.ExprType
/-!
Relational expressions and predicates. A parameter stands at a slot; slots are numbered in the order
they are allocated, which need not be the order their placeholders are written in.
-/
namespace SemanticQuery

/-- One bind position. Its type is missing when typing is left to the bound value. -/
structure Slot where
  number : Nat
  type : Option ColumnType
  deriving DecidableEq

/-- A part of a call as it is written: a text, or the argument at some place. -/
inductive CallPart where
  | text (text : String)
  | argument (index : Nat)
  deriving DecidableEq

/-- What a part comes to, from what texts and the arguments come to. -/
def CallPart.fill {α : Type} (text : String → List α) (arguments : List (List α)) : CallPart → List α
  | .text t => text t
  | .argument index => arguments[index]?.getD []

/-- How a call is written, from its name and the number of its arguments. -/
structure CallStyle where
  parts : (name : String) → (count : Nat) → List CallPart

namespace CallStyle

/-- The name and all arguments in parentheses. -/
def standard : CallStyle where
  parts name count :=
    let arguments := ((List.range count).map .argument).intersperse (.text ", ")
    .text name :: .text "(" :: (arguments ++ [.text ")"])

/-- The name alone, as a bare keyword. -/
def keyword : CallStyle where
  parts name _ := [.text name]

/-- A call put together from its parts. -/
def write {α : Type} (style : CallStyle) (text : String → List α) (name : String)
    (arguments : List (List α)) : List α :=
  (style.parts name arguments.length).flatMap (CallPart.fill text arguments)

end CallStyle

namespace Sql

structure ColumnRef where
  qualifier : String
  column : String
  type : ColumnType
  deriving DecidableEq

inductive Expr where
  | column (column : ColumnRef)
  | literal (value : Value) (type : ColumnType)
  | parameter (slot : Slot)
  | call (name : String) (style : CallStyle) (arguments : List Expr) (result : Option ExprType)
      (mapping : Option Mapping)
  | tuple (elements : List Expr)

namespace Expr

instance : Inhabited Expr := ⟨tuple []⟩

/-- The kind seen in the database; an untyped parameter has none. -/
def kind? : Expr → Option Kind
  | column c => some c.type.kind
  | literal _ type => some type.kind
  | parameter slot => slot.type.map ColumnType.kind
  | call _ _ _ result _ => result.map ExprType.kind
  | tuple _ => some .composite

def isTuple : Expr → Bool
  | tuple _ => true
  | _ => false

mutual

/-- The number of selection columns an expression takes. -/
def columnCount : Expr → Nat
  | tuple elements => columnCounts elements
  | column _ | literal .. | parameter _ | call .. => 1

def columnCounts : List Expr → Nat
  | [] => 0
  | e :: rest => e.columnCount + columnCounts rest

end

mutual

/-- The expressions at the leaves of nested tuples, in order. -/
def leaves : Expr → List Expr
  | tuple elements => leavesOf elements
  | column c => [column c]
  | literal v type => [literal v type]
  | parameter slot => [parameter slot]
  | call name style arguments result mapping => [call name style arguments result mapping]

def leavesOf : List Expr → List Expr
  | [] => []
  | e :: rest => e.leaves ++ leavesOf rest

end

/-- The expressions side by side; a single one stands alone. -/
def ofList : List Expr → Expr
  | [e] => e
  | es => tuple es

def ofColumns (columns : List ColumnRef) : Expr := ofList (columns.map column)

def ofSlots (slots : List Slot) : Expr := ofList (slots.map parameter)

end Expr

inductive Predicate where
  | comparison (lhs : Expr) (operator : Comparison) (rhs : Expr)
  | inList (test : Expr) (items : List Expr) (negated : Bool)
  | and (children : List Predicate)
  | or (children : List Predicate)
  | not (inner : Predicate)
  | isNull (expr : Expr) (negated : Bool)

instance : Inhabited Predicate := ⟨.and []⟩

end Sql

end SemanticQuery
