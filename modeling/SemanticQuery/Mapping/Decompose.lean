import SemanticQuery.Mapping.Basic
/-! Decomposition: one value for each column of a mapping, in column order. -/
namespace SemanticQuery

structure ColumnValue where
  type : ColumnType
  value : Value

namespace Mapping

def shapeError (m : Mapping) (v : Value) : MappingError := .valueShape m.text v.kind

def nulls (m : Mapping) : List ColumnValue := m.columnTypes.map fun type => ⟨type, .null⟩

/-- A basic type takes null, values of its kind and values of a narrower one. -/
def accepts (type : BasicType) (v : Value) : Bool :=
  v.isNull || v.kind == type.kind || type.kind.isWider v.kind

mutual

/-- A null decomposes into a null for each column; a composite needs one part for each component. -/
def decompose : Mapping → Value → Except MappingError (List ColumnValue)
  | basic type, v =>
    if accepts type v then .ok [⟨type.column, v⟩] else .error ((basic type).shapeError v)
  | converted converter relational, v => do
    let stored ← converter.toRelational v
    return [⟨relational.column, stored⟩]
  | embedded name components, v =>
    match v with
    | .null => .ok (embedded name components).nulls
    | .composite parts =>
      if parts.length = components.length then decomposeParts components parts
      else .error ((embedded name components).shapeError v)
    | _ => .error ((embedded name components).shapeError v)
  | identifier _ _ key, v | foreignKey _ _ key, v => key.decompose v.identifier

def decomposeParts : List (String × Mapping) → List Value → Except MappingError (List ColumnValue)
  | (_, m) :: components, part :: parts => do
    let first ← m.decompose part
    let later ← decomposeParts components parts
    return first ++ later
  | _, _ => .ok []

end

end Mapping

end SemanticQuery
