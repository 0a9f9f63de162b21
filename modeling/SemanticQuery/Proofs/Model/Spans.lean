import SemanticQuery.Model.Sample
import SemanticQuery.Proofs.KeyedList
import SemanticQuery.Proofs.Model.Provision

/-! Models whose attributes have as many columns as their mappings span. What a path is resolved to then
spans its columns too, at whatever depth of embedded components. -/
namespace SemanticQuery

def Attribute.Spanned (a : Attribute) : Prop := a.columns.length = a.mapping.columnCount

instance (a : Attribute) : Decidable a.Spanned := inferInstanceAs (Decidable (_ = _))

/-- Every attribute, the identifier included, lists a column for each that its mapping spans. -/
def Entity.Spanned (e : Entity) : Prop := ∀ a ∈ e.identifier :: e.attributes, a.Spanned

instance (e : Entity) : Decidable e.Spanned := inferInstanceAs (Decidable (∀ a ∈ _, _))

namespace Model

def Spanned (m : Model) : Prop := ∀ name e, m.entity name = .ok e → e.Spanned

theorem entity_ok {m : Model} {name : String} {e : Entity} :
    m.entity name = .ok e ↔ m.entities.find? name = some e := by
  rw [entity]
  cases m.entities.find? name <;> simp

theorem spanned_empty (catalog : Catalog) : Spanned ⟨catalog, .empty⟩ := by
  intro name e found
  contradiction

theorem Spanned.add {m : Model} {e : Entity} (spanned : m.Spanned) (added : e.Spanned) :
    (m.add e).Spanned := by
  intro name other found
  obtain ⟨-, rfl⟩ | before := KeyedList.of_find?_insert (entity_ok.mp found)
  · exact added
  · exact spanned name other (entity_ok.mpr before)

end Model

namespace Sql.TableGroup
variable {m : Model} {g : TableGroup} {mapping : Mapping} {columns : List String}

theorem spanned_of_self (spanned : m.Spanned) (found : g.self m = .ok (mapping, columns)) :
    columns.length = mapping.columnCount := by
  cases g with
  | values path table mappings nested joins => contradiction
  | entity path name table =>
    obtain ⟨e, entity, made⟩ := bind_ok.mp found
    cases made
    rw [Entity.selfMapping, Mapping.columnCount]
    exact spanned name e entity _ List.mem_cons_self

theorem spanned_of_member (spanned : m.Spanned) {name : String}
    (found : g.member m name = .ok (mapping, columns)) : columns.length = mapping.columnCount := by
  cases g with
  | entity path owner table =>
    obtain ⟨e, entity, found⟩ := bind_ok.mp found
    split at found
    next a owned =>
      cases found
      exact spanned owner e entity a (List.mem_of_find?_eq_some owned)
    · contradiction
  | values path table mappings nested joins =>
    simp only [TableGroup.member] at found
    split at found
    · contradiction
    · split at found
      · split at found
        next one =>
          cases found
          exact one.symm
        · contradiction
      · contradiction

end Sql.TableGroup

/-- A component takes the columns it spans out of those of the whole. -/
theorem spanned_of_descend {segments : List String} {mapping component : Mapping}
    {columns narrowed : List String} (whole : columns.length = mapping.columnCount)
    (descended : descend segments mapping columns = some (component, narrowed)) :
    narrowed.length = component.columnCount := by
  fun_induction descend segments mapping columns with
  | case1 mapping columns =>
    cases descended
    exact whole
  | case2 columns segment rest name components start part found within ih =>
    apply ih _ descended
    rw [List.length_take, List.length_drop]
    omega
  | case3 => contradiction
  | case4 => contradiction
  | case5 => contradiction

theorem Model.spanned_of_resolvePath {m : Model} {f : Sql.FromClause} {path : Path} {r : ResolvedPath}
    (spanned : m.Spanned) (resolved : m.resolvePath f path = .ok r) :
    r.columns.length = r.mapping.columnCount := by
  obtain ⟨group, -, -, self | ⟨_, _, _, _, member, descended⟩⟩ := resolvePath_ok resolved
  · exact group.spanned_of_self spanned self
  · exact spanned_of_descend (group.spanned_of_member spanned member) descended

theorem Model.Sample.spanned : Sample.model.Spanned :=
  ((spanned_empty .standard).add (by decide)).add (by decide)

end SemanticQuery
