import SemanticQuery.Model.Basic
/-! A sample model of people and their orders, with an attribute of each kind of mapping, and paths from
people. -/
namespace SemanticQuery.Model.Sample

def type (k : Kind) : BasicType := (Catalog.standard.standardType? k).getD ⟨k.name, k, .other⟩

def basic (k : Kind) : Mapping := .basic (type k)

def identifier : Attribute := ⟨"id", basic .long, ["id"]⟩

def address : Mapping := .embedded "Address" [("street", basic .text), ("city", basic .text)]

def status : Converter := .ordinal "status" ["ACTIVE", "SUSPENDED", "CLOSED"]

def person : Entity where
  name := "Person"
  table := "person"
  identifier := identifier
  attributes :=
    [⟨"name", basic .text, ["name"]⟩,
      ⟨"age", basic .integer, ["age"]⟩,
      ⟨"active", .converted .yesNo (type .character), ["active"]⟩,
      ⟨"status", .converted status (type .integer), ["status"]⟩,
      ⟨"address", address, ["street", "city"]⟩]

def order : Entity where
  name := "Order"
  table := "orders"
  identifier := identifier
  attributes := [.toOne "customer" person ["customer_id"], ⟨"total", basic .bigDecimal, ["total"]⟩]

def model : Model := (Model.mk .standard .empty).add person |>.add order

def people : Path := ⟨["p"], by simp, by decide⟩

def activePath : PathRef := ⟨⟨["p", "active"], by simp, by decide⟩, .boolean⟩

def addressPath : PathRef := ⟨⟨["p", "address"], by simp, by decide⟩, .composite⟩

def cityPath : PathRef := ⟨⟨["p", "address", "city"], by simp, by decide⟩, .text⟩

end SemanticQuery.Model.Sample
