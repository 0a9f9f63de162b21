import SemanticQuery.Model.Basic
import SemanticQuery.Sql.FromClause
/-!
Resolution of navigation paths against a from clause. The longest part of a path that has a table
group decides the group; the next segment names an attribute of it and the others embedded components.
-/
namespace SemanticQuery

/-- The columns a path reads, under the qualifier of its table group. -/
structure ResolvedPath where
  qualifier : String
  columns : List String
  mapping : Mapping

namespace Sql.TableGroup

/-- The mapping and columns of a reference to the group itself. -/
def self (m : Model) : TableGroup → Except MappingError (Mapping × List String)
  | .entity _ name _ => do
    let e ← m.entity name
    return (e.selfMapping, e.identifier.columns)
  | .values path .. => .error (.unresolvedPath path.text)

/-- The mapping and columns of an attribute. A column of inline rows needs a mapping of one column. -/
def member (m : Model) (name : String) : TableGroup → Except MappingError (Mapping × List String)
  | .entity _ owner _ => do
    let e ← m.entity owner
    match e.attribute? name with
    | some a => return (a.mapping, a.columns)
    | none => throw (.unknownAttribute e.name name)
  | .values path table mappings _ _ =>
    match table.columns.findIdx? (· == name) with
    | none => .error (.unresolvedPath (path.append name).text)
    | some i =>
      match mappings[i]? with
      | some (some mapping) =>
        if mapping.columnCount = 1 then .ok (mapping, [name])
        else .error (.multiColumnValues name mapping.text)
      | _ => .error (.unresolvedPath (path.append name).text)

end Sql.TableGroup

/-- Follows segments through embedded components, narrowing the columns to those of the component. -/
def descend : List String → Mapping → List String → Option (Mapping × List String)
  | [], mapping, columns => some (mapping, columns)
  | segment :: rest, mapping, columns =>
    match mapping with
    | .embedded _ components =>
      match Mapping.findComponent? segment components 0 with
      | some (start, component) =>
        if start + component.columnCount ≤ columns.length then
          descend rest component ((columns.drop start).take component.columnCount)
        else none
      | none => none
    | _ => none

namespace Model

/-- The group of the longest part of the path that has one, with the segments that remain. -/
def nearestGroup? (f : Sql.FromClause) (path : Path) : Option (Sql.TableGroup × List String) :=
  path.splits.findSome? fun (part, rest) => (f.find? part).map fun group => (group, rest)

/-- What a path comes to in the group it is resolved through, by the segments that remain: the group itself,
or an attribute and, from there, one component after the other. -/
def resolveWithin (m : Model) (path : Path) (group : Sql.TableGroup) :
    List String → Except MappingError ResolvedPath
  | [] => do
    let (mapping, columns) ← group.self m
    return ⟨group.qualifier, columns, mapping⟩
  | first :: rest => do
    let (mapping, columns) ← group.member m first
    match descend rest mapping columns with
    | some (mapping, columns) => return ⟨group.qualifier, columns, mapping⟩
    | none => throw (.unresolvedPath path.text)

def resolvePath (m : Model) (f : Sql.FromClause) (path : Path) : Except MappingError ResolvedPath :=
  match nearestGroup? f path with
  | some (group, rest) => m.resolveWithin path group rest
  | none => .error (.unresolvedPath path.text)

/-- The mapping of a type. A bare kind has its standard type's mapping, or none. -/
def resolveMapping (m : Model) (f : Sql.FromClause) : ExprType → Except MappingError (Option Mapping)
  | .basic type => .ok (some (.basic type))
  | .mapped mapping => .ok (some mapping)
  | .domain kind => .ok ((m.catalog.standardType? kind).map .basic)
  | .path source => do
    let resolved ← m.resolvePath f source.path
    return some resolved.mapping

end Model

end SemanticQuery
