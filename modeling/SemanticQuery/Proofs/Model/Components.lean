import SemanticQuery.Proofs.Mapping.Components
import SemanticQuery.Proofs.Model.Spans

/-! Paths into embedded components. Columns are narrowed to a component by a search through names, values are
taken apart by place; where an attribute has the columns its mapping spans, the two come to the same places. -/
namespace SemanticQuery
variable {m : Model} {f : Sql.FromClause} {path root : Path} {owner first : String} {table : Sql.TableRef}
  {names : List String} {e : Entity} {a : Attribute}

/-- A path behind an attribute is resolved where its names lead to a component, and nowhere else. -/
theorem Model.resolvePath_attribute
    (nearest : nearestGroup? f path = some (.entity root owner table, first :: names))
    (entity : m.entity owner = .ok e) (listed : e.attribute? first = some a) (spanned : a.Spanned) :
    m.resolvePath f path = match Mapping.within? names a.mapping with
      | some (start, component) =>
        .ok ⟨table.qualifier, (a.columns.drop start).take component.columnCount, component⟩
      | none => .error (.unresolvedPath path.text) := by
  have member : (Sql.TableGroup.entity root owner table).member m first = .ok (a.mapping, a.columns) := by
    simp only [Sql.TableGroup.member, entity, bind, Except.bind, listed]
    rfl
  rw [resolvePath, nearest]
  simp only [resolveWithin, member, bind, Except.bind]
  rw [Mapping.descend_eq names spanned]
  cases Mapping.within? names a.mapping with
  | none => rfl
  | some found => rfl

/-- Component columns line up with component values. A path from an attribute of an entity through embedded
components is resolved to as many columns as the component spans, and these are a segment of the columns of
the attribute. Whatever value the attribute's mapping accepts has a part there; as long as a null comes to
nulls in the component, the part is accepted by it, and its column values paired with the columns of the path
are the same segment of all column values paired with all columns. -/
theorem components_line_up {component : Mapping} {start : Nat}
    (nearest : Model.nearestGroup? f path = some (.entity root owner table, first :: names))
    (entity : m.entity owner = .ok e) (listed : e.attribute? first = some a) (spanned : a.Spanned)
    (leads : a.mapping.within? names = some (start, component)) :
    ∃ columns, m.resolvePath f path = .ok ⟨table.qualifier, columns, component⟩ ∧
      columns.length = component.columnCount ∧
      columns = (a.columns.drop start).take component.columnCount ∧
      (component.KeepsNull → ∀ v values, a.mapping.decompose v = .ok values →
        ∃ w inner, a.mapping.partAlong? names v = some w ∧ component.decompose w = .ok inner ∧
          columns.zip inner = ((a.columns.zip values).drop start).take component.columnCount) := by
  have resolved := Model.resolvePath_attribute nearest entity listed spanned
  rw [leads] at resolved
  refine ⟨_, resolved, ?_, rfl, fun keeps v values made => ?_⟩
  · have inside := Mapping.within?_le leads
    rw [Attribute.Spanned] at spanned
    rw [List.length_take, List.length_drop]
    omega
  · obtain ⟨w, along, decomposed⟩ := Mapping.decompose_along keeps leads made
    refine ⟨w, _, along, decomposed, ?_⟩
    simp only [List.zip, List.drop_zipWith, List.take_zipWith]

/-! Tenants with a home that they own or not, at a place with a code and a point. -/
namespace Lodging
open Model.Sample (basic type)

def point : Mapping := .embedded "Point" [("x", basic .integer), ("y", basic .integer)]

def place : Mapping := .embedded "Place" [("code", basic .text), ("at", point)]

def home : Attribute where
  name := "home"
  mapping := .embedded "Home" [("owned", .converted .yesNo (type .character)), ("place", place)]
  columns := ["owned", "code", "x", "y"]

def tenant : Entity := ⟨"Tenant", "tenant", Model.Sample.identifier, [home]⟩

def model : Model := (Model.mk .standard .empty).add tenant

def tenants : Path := ⟨["t"], by simp, by decide⟩

def spot : Path := ⟨["t", "home", "place", "at"], by simp, by decide⟩

def source : Sql.FromClause := ⟨[.entity tenants "Tenant" ⟨"tenant", "t"⟩]⟩

def spots : Value := .composite [.int 3, .null]

def owned : Value := .composite [.bool true, .composite [.text "N1", spots]]

/-- The point lies in the last two of four columns, for a tenant with a home and for one without. -/
theorem point_takes_last_columns :
    model.resolvePath source spot = .ok ⟨"t", ["x", "y"], point⟩ ∧
      (∃ w inner, home.mapping.partAlong? ["place", "at"] owned = some w ∧ point.decompose w = .ok inner ∧
        ["x", "y"].zip inner = [("x", ⟨.integer, .int 3⟩), ("y", ⟨.integer, .null⟩)]) ∧
      ∃ inner, home.mapping.partAlong? ["place", "at"] .null = some .null ∧
        point.decompose .null = .ok inner ∧
        ["x", "y"].zip inner = [("x", ⟨.integer, .null⟩), ("y", ⟨.integer, .null⟩)] := by
  have nearest : Model.nearestGroup? source spot =
    some (.entity tenants "Tenant" ⟨"tenant", "t"⟩, "home" :: ["place", "at"]) := rfl
  have entity : model.entity "Tenant" = .ok tenant := rfl
  have listed : tenant.attribute? "home" = some home := rfl
  obtain ⟨columns, resolved, -, rfl, lined⟩ :=
    components_line_up nearest entity listed (by decide) (show _ = some (2, point) from rfl)
  obtain ⟨w, inner, part, decomposed, paired⟩ := lined trivial owned _ rfl
  obtain ⟨_, nulls, nothing, decomposedNull, pairedNull⟩ := lined trivial .null _ rfl
  cases nothing
  exact ⟨resolved, ⟨w, inner, part, decomposed, paired⟩, nulls, rfl, decomposedNull, pairedNull⟩

end Lodging

end SemanticQuery
