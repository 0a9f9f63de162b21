import SemanticQuery.Catalog
import SemanticQuery.Mapping.Converter
/-!
Mappings: the relational shape of a domain type. A mapping spans a fixed list of columns, and every
walk over it visits them in the same order.
-/
namespace SemanticQuery

/-- Embedded components are named in column order. Identifiers and foreign keys stand for an entity
through the columns of its key. -/
inductive Mapping where
  | basic (type : BasicType)
  | embedded (name : String) (components : List (String × Mapping))
  | converted (converter : Converter) (relational : BasicType)
  | identifier (entity idName : String) (key : Mapping)
  | foreignKey (association target : String) (key : Mapping)

namespace Mapping

def kind : Mapping → Kind
  | basic type => type.kind
  | embedded .. => .composite
  | converted converter _ => converter.domainKind
  | identifier .. | foreignKey .. => .entity

def text : Mapping → String
  | basic type => type.name
  | embedded name _ => "embedded(" ++ name ++ ")"
  | converted converter relational => "converted(" ++ converter.name ++ ":" ++ relational.name ++ ")"
  | identifier entity _ _ => "entity(" ++ entity ++ ")"
  | foreignKey association target _ => "fk(" ++ association ++ "->" ++ target ++ ")"

mutual

def columnCount : Mapping → Nat
  | basic _ | converted .. => 1
  | embedded _ components => columnCounts components
  | identifier _ _ key | foreignKey _ _ key => key.columnCount

def columnCounts : List (String × Mapping) → Nat
  | [] => 0
  | (_, m) :: rest => m.columnCount + columnCounts rest

end

mutual

/-- Visits each column with its position, counted from `start`, and returns the number visited. -/
def visitColumns {σ : Type} (visit : σ → Nat → ColumnType → σ) (start : Nat) (s : σ) :
    Mapping → Nat × σ
  | basic type => (1, visit s start type.column)
  | converted _ relational => (1, visit s start relational.column)
  | embedded _ components => visitComponents visit start s components
  | identifier _ _ key | foreignKey _ _ key => key.visitColumns visit start s

def visitComponents {σ : Type} (visit : σ → Nat → ColumnType → σ) (start : Nat) (s : σ) :
    List (String × Mapping) → Nat × σ
  | [] => (0, s)
  | (_, m) :: rest =>
    let (span, s) := m.visitColumns visit start s
    let (spans, s) := visitComponents visit (start + span) s rest
    (span + spans, s)

end

/-- Column types in order. -/
def columnTypes (m : Mapping) : List ColumnType :=
  (m.visitColumns (fun types _ type => types ++ [type]) 0 []).2

/-- The component of a name and the column it starts at. -/
def findComponent? (name : String) : List (String × Mapping) → Nat → Option (Nat × Mapping)
  | [], _ => none
  | (n, m) :: rest, start =>
    if n = name then some (start, m) else findComponent? name rest (start + m.columnCount)

/-- The component of an embedded mapping that stands at a place of a tuple, also through keys. -/
def componentAt? : Mapping → Nat → Option Mapping
  | embedded _ components, i => (components[i]?).map (·.2)
  | identifier _ _ key, i | foreignKey _ _ key, i => key.componentAt? i
  | basic _, _ | converted .., _ => none

mutual

/-- Equality of shape; converters are compared by kind and name. -/
def beq : Mapping → Mapping → Bool
  | basic a, basic b => a == b
  | embedded m as, embedded n bs => m == n && beqComponents as bs
  | converted c a, converted d b => c.domainKind == d.domainKind && a == b && c.name == d.name
  | identifier e a m, identifier f b n => e == f && a == b && m.beq n
  | foreignKey a t m, foreignKey b u n => a == b && t == u && m.beq n
  | _, _ => false

def beqComponents : List (String × Mapping) → List (String × Mapping) → Bool
  | [], [] => true
  | (m, a) :: as, (n, b) :: bs => m == n && a.beq b && beqComponents as bs
  | _, _ => false

end

instance : BEq Mapping := ⟨beq⟩

end Mapping

end SemanticQuery
