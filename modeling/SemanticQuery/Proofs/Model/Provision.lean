import SemanticQuery.Proofs.Model.Growth
import SemanticQuery.Proofs.Outcome

/-! The columns that can be read from table groups, and that paths are resolved to no others: whatever a path
comes to is read from one group of the from clause, under the name of that group. -/
namespace SemanticQuery

theorem Entity.mem_of_attribute? {e : Entity} {name : String} {a : Attribute}
    (found : e.attribute? name = some a) : a = e.identifier ∨ a ∈ e.attributes :=
  List.mem_cons.mp (List.mem_of_find?_eq_some found)

namespace Sql

/-- The columns that can be read from a group: those mapped for the identifier or an attribute of an
entity, and those declared for inline rows. -/
inductive TableGroup.Provides (m : Model) : TableGroup → String → Prop
  | identifier {path : Path} {name column : String} {table : TableRef} {e : Entity}
      (entity : m.entity name = .ok e) (mapped : column ∈ e.identifier.columns) :
      Provides m (.entity path name table) column
  | attribute {path : Path} {name column : String} {table : TableRef} {e : Entity} {a : Attribute}
      (entity : m.entity name = .ok e) (listed : a ∈ e.attributes) (mapped : column ∈ a.columns) :
      Provides m (.entity path name table) column
  | declared {path : Path} {table : ValuesTable} {mappings : List (Option Mapping)}
      {nested joins : List TableGroup} {column : String} (named : column ∈ table.columns) :
      Provides m (.values path table mappings nested joins) column

/-- A reference by the name of a group to a column that can be read from it. -/
def FromClause.Provides (m : Model) (f : FromClause) (ref : ColumnRef) : Prop :=
  ∃ group ∈ f.members, ref.qualifier = group.qualifier ∧ group.Provides m ref.column

theorem FromClause.Provides.of_grown {m : Model} {f g : FromClause} {ref : ColumnRef}
    (provides : f.Provides m ref) (grown : f.roots <+: g.roots) : g.Provides m ref := by
  obtain ⟨group, mem, named, column⟩ := provides
  exact ⟨group, (members_grown grown).subset mem, named, column⟩

theorem TableGroup.provides_of_self {m : Model} {g : TableGroup} {mapping : Mapping}
    {columns : List String} (found : g.self m = .ok (mapping, columns)) :
    ∀ column ∈ columns, g.Provides m column := by
  intro column mem
  cases g with
  | values path table mappings nested joins => contradiction
  | entity path name table =>
    obtain ⟨e, entity, made⟩ := bind_ok.mp found
    cases made
    exact .identifier entity mem

theorem TableGroup.provides_of_member {m : Model} {g : TableGroup} {name : String} {mapping : Mapping}
    {columns : List String} (found : g.member m name = .ok (mapping, columns)) :
    ∀ column ∈ columns, g.Provides m column := by
  intro column mem
  cases g with
  | entity path owner table =>
    obtain ⟨e, entity, found⟩ := bind_ok.mp found
    split at found
    next a owned =>
      cases found
      rcases Entity.mem_of_attribute? owned with rfl | listed
      · exact .identifier entity mem
      · exact .attribute entity listed mem
    · contradiction
  | values path table mappings nested joins =>
    simp only [TableGroup.member] at found
    split at found
    · contradiction
    next i position =>
      split at found
      next single =>
        split at found
        · cases found
          obtain ⟨within, same, -⟩ := List.findIdx?_eq_some_iff_getElem.mp position
          rw [List.mem_singleton.mp mem, ← beq_iff_eq.mp same]
          exact .declared (List.getElem_mem within)
        · contradiction
      · contradiction

/-- A component of an embedded mapping has columns of the whole. -/
theorem columns_of_descend {segments : List String} {mapping component : Mapping}
    {columns narrowed : List String}
    (descended : descend segments mapping columns = some (component, narrowed)) :
    narrowed ⊆ columns := by
  fun_induction descend segments mapping columns with
  | case1 mapping columns =>
    cases descended
    exact List.Subset.refl _
  | case2 columns segment rest name components start part found within ih =>
    apply List.Subset.trans (ih descended)
    exact List.Subset.trans (List.take_subset _ _) (List.drop_subset _ _)
  | case3 => contradiction
  | case4 => contradiction
  | case5 => contradiction

theorem FromClause.member_of_nearestGroup? {f : FromClause} {path : Path} {group : TableGroup}
    {rest : List String} (nearest : Model.nearestGroup? f path = some (group, rest)) :
    group ∈ f.members := by
  obtain ⟨⟨part, segments⟩, -, found⟩ := List.exists_of_findSome?_eq_some nearest
  obtain ⟨g, first, same⟩ := Option.map_eq_some_iff.mp found
  cases same
  rw [find?_eq] at first
  exact List.mem_of_find?_eq_some first

end Sql

/-- In a group a path comes to the group itself, or to a member of it or a component of one, under the name of
the group. -/
theorem Model.resolveWithin_ok {m : Model} {path : Path} {group : Sql.TableGroup} {walked : List String}
    {r : ResolvedPath} (resolved : m.resolveWithin path group walked = .ok r) :
    r.qualifier = group.qualifier ∧
      (group.self m = .ok (r.mapping, r.columns) ∨
        ∃ first rest mapping columns, group.member m first = .ok (mapping, columns) ∧
          descend rest mapping columns = some (r.mapping, r.columns)) := by
  cases walked with
  | nil =>
    obtain ⟨⟨mapping, columns⟩, self, made⟩ := bind_ok.mp resolved
    cases made
    exact ⟨rfl, .inl self⟩
  | cons first rest =>
    obtain ⟨⟨mapping, columns⟩, member, resolved⟩ := bind_ok.mp resolved
    simp only at resolved
    split at resolved
    next component narrowed descended =>
      cases resolved
      exact ⟨rfl, .inr ⟨first, rest, mapping, columns, member, descended⟩⟩
    · contradiction

/-- A path is resolved in one group of the from clause. -/
theorem Model.resolvePath_ok {m : Model} {f : Sql.FromClause} {path : Path} {r : ResolvedPath}
    (resolved : m.resolvePath f path = .ok r) :
    ∃ group ∈ f.members, r.qualifier = group.qualifier ∧
      (group.self m = .ok (r.mapping, r.columns) ∨
        ∃ first rest mapping columns, group.member m first = .ok (mapping, columns) ∧
          descend rest mapping columns = some (r.mapping, r.columns)) := by
  rw [resolvePath] at resolved
  split at resolved
  next group rest nearest =>
    exact ⟨group, Sql.FromClause.member_of_nearestGroup? nearest, resolveWithin_ok resolved⟩
  · contradiction

/-- The columns of a resolved path can be read from its group. -/
theorem Model.provides_of_resolvePath {m : Model} {f : Sql.FromClause} {path : Path} {r : ResolvedPath}
    (resolved : m.resolvePath f path = .ok r) :
    ∃ group ∈ f.members, r.qualifier = group.qualifier ∧ ∀ column ∈ r.columns, group.Provides m column := by
  obtain ⟨group, listed, named, self | ⟨_, _, _, _, member, descended⟩⟩ := resolvePath_ok resolved
  · exact ⟨group, listed, named, group.provides_of_self self⟩
  · refine ⟨group, listed, named, fun column mem => ?_⟩
    exact group.provides_of_member member column (Sql.columns_of_descend descended mem)

end SemanticQuery
