import SemanticQuery.ExprType
/-! The domain model: entities, their attributes with mappings and columns, and the type catalog. -/
namespace SemanticQuery

structure Attribute where
  name : String
  mapping : Mapping
  columns : List String

structure Entity where
  name : String
  table : String
  identifier : Attribute
  attributes : List Attribute

/-- An association to one entity, stored in columns that hold the entity's identifier. -/
def Attribute.toOne (name : String) (target : Entity) (columns : List String) : Attribute :=
  ⟨name, .foreignKey name target.name target.identifier.mapping, columns⟩

namespace Entity

/-- The identifier goes before an attribute of the same name. -/
def attribute? (e : Entity) (name : String) : Option Attribute :=
  (e.identifier :: e.attributes).find? fun a => a.name == name

/-- The mapping of a reference to the entity itself. -/
def selfMapping (e : Entity) : Mapping :=
  .identifier e.name e.identifier.name e.identifier.mapping

end Entity

structure Model where
  catalog : Catalog
  entities : KeyedList String Entity

namespace Model

/-- An entity replaces an earlier one of its name. -/
def add (m : Model) (e : Entity) : Model := { m with entities := m.entities.insert e.name e }

def entity (m : Model) (name : String) : Except MappingError Entity :=
  match m.entities.find? name with
  | some e => .ok e
  | none => .error (.unknownEntity name)

end Model

end SemanticQuery
