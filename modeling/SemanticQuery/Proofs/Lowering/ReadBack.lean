import SemanticQuery.Proofs.Lowering.Opposite
import SemanticQuery.Proofs.Lowering.Selections
import SemanticQuery.Proofs.Mapping.Verbatim
import SemanticQuery.Proofs.Model.Components
import SemanticQuery.Proofs.Names

/-! Selected attributes read back from their columns. A result knows the positions of its columns and not the
mapping they come from, so what is read is the row: its one value, or its values side by side. -/
namespace SemanticQuery

namespace Sql.Result

/-- Positions without a gap read a segment of the row. -/
theorem valuesAt?_range' (before row : List Value) :
    valuesAt? (before ++ row) (List.range' before.length row.length) = some row := by
  induction row generalizing before with
  | nil => rfl
  | cons v rest ih =>
    have later := ih (before ++ [v])
    rw [List.append_assoc, List.singleton_append, List.length_append, List.length_singleton] at later
    rw [List.length_cons, List.range'_succ, valuesAt?, later]
    simp

end Sql.Result

namespace Lowering
open Query

/-- The result of a selected path over columns from a position on. -/
def pathResult (position : Nat) (source : PathRef) (label : Option String) (e : Sql.Expr) : Sql.Result :=
  if e.isTuple then .tuple (List.range' position e.columnCount) label source.kind (some source.path)
  else .basic position label e.kind?

theorem itemResult_path (position : Nat) (node : NodeId) (source : PathRef) (label : Option String)
    (e : Sql.Expr) (p : Progress) :
    itemResult position ⟨.path node source, label⟩ e p = .ok (pathResult position source label e) p := by
  rw [itemResult, pathResult]
  cases e.isTuple <;> rfl

theorem assemble_pathResult (source : PathRef) (label : Option String) {refs : List Sql.ColumnRef}
    {row : List Value} (whole : row.length = refs.length) :
    (pathResult 0 source label (.ofColumns refs)).assemble row = some (.ofList row) := by
  by_cases single : row.length = 1
  · obtain ⟨ref, rfl⟩ := List.length_eq_one_iff.mp (whole.symm.trans single)
    obtain ⟨v, rfl⟩ := List.length_eq_one_iff.mp single
    rfl
  · have side : Sql.Expr.ofColumns refs = .tuple (refs.map Sql.Expr.column) := by
      match refs, whole with
      | [], _ => rfl
      | [ref], whole => exact absurd whole single
      | first :: second :: rest, _ => rfl
    have read : pathResult 0 source label (.ofColumns refs) =
        .tuple (List.range' 0 row.length) label source.kind (some source.path) := by
      have count : (Sql.Expr.tuple (refs.map .column)).columnCount = row.length := by
        rw [Sql.Expr.columnCount, Sql.Expr.columnCounts_of_single (by simp [Sql.Expr.isTuple]),
          List.length_map, whole]
      rw [side, ← count]
      rfl
    rw [read, Value.ofList_of_several single]
    exact congrArg (Option.map Value.composite) (Sql.Result.valuesAt?_range' [] row)

/-- The statement that selects what a path from one entity leads to. -/
def selectPath (entity : String) (root : Path) (node : NodeId) (source : PathRef)
    (label : Option String) : Statement :=
  .select ⟨[⟨entity, root⟩], [], [⟨.path node source, label⟩], none⟩

/-- The from clause of one entity. -/
def entitySource (e : Entity) (root : Path) : Sql.FromClause :=
  ⟨[.entity root e.name ⟨e.table, root.rootName⟩]⟩

theorem members_entitySource (e : Entity) (root : Path) :
    (entitySource e root).members = [.entity root e.name ⟨e.table, root.rootName⟩] := rfl

variable {m : Model} {e : Entity} {root : Path} {name first : String} {source : PathRef}

theorem lowerStatement_selectPath (strict : Bool) (expansions : OccurrenceId → List Occurrence)
    (node : NodeId) (label : Option String) (w : Workspace) {r : ResolvedPath}
    (entity : m.entity e.name = .ok e) (rooted : Path.root source.path.rootName = root)
    (resolved : m.resolvePath (entitySource e root) source.path = .ok r) :
    ∃ l w' q, lowerStatement m strict expansions (selectPath e.name root node source label) w = .ok l w' ∧
      l.statement = .select q ∧
      q.results =
        [pathResult 0 source label (.ofColumns (columnRefs r.qualifier r.columns r.mapping))] := by
  have entered (p : Progress) : addRoots ⟨m, .empty, expansions, strict⟩ [⟨e.name, root⟩] p =
      .ok ⟨m, entitySource e root, expansions, strict⟩ p := by
    simp only [addRoots, rootTable, entity]
    rfl
  generalize columns : columnRefs r.qualifier r.columns r.mapping = refs
  have path (p : Progress) : lowerExpr ⟨m, entitySource e root, expansions, strict⟩ noHint
      (.path node source) p = .ok (.ofColumns refs) p := by
    have found : (entitySource e root).find? (.root source.path.rootName) =
        some (.entity root e.name ⟨e.table, root.rootName⟩) := by
      rw [Sql.FromClause.find?_eq, members_entitySource, rooted]
      simp [Sql.TableGroup.path]
    rw [lowerExpr, ← columns]
    exact lowerPath_of_resolved found resolved p
  have items (p : Progress) : lowerSelections ⟨m, entitySource e root, expansions, strict⟩ 0
      [⟨.path node source, label⟩] p = .ok (numberSelections 0 (Sql.Expr.ofColumns refs).leaves ++ [],
        [pathResult 0 source label (.ofColumns refs)]) p :=
    run_bind_ok.mpr ⟨_, p, path p, run_bind_ok.mpr ⟨_, p, itemResult_path .., rfl⟩⟩
  have lowered : lowerParts ⟨m, .empty, expansions, strict⟩ (selectPath e.name root node source label)
      ⟨w, .empty⟩ = .ok (.select ⟨entitySource e root, _, [pathResult 0 source label (.ofColumns refs)],
        none⟩, entitySource e root) ⟨w, .empty⟩ :=
    run_bind_ok.mpr ⟨_, _, entered _, run_bind_ok.mpr ⟨_, _, rfl, run_bind_ok.mpr ⟨_, _, items _, rfl⟩⟩⟩
  rw [lowerStatement, lowered]
  exact ⟨_, _, _, rfl, rfl, rfl⟩

theorem nearestGroup?_entitySource {path : Path} (rooted : root.segments = [name])
    (leads : path.segments = [name, first]) : Model.nearestGroup? (entitySource e root) path =
      some (.entity root e.name ⟨e.table, root.rootName⟩, [first]) := by
  have alone : (entitySource e root).Rooted := by
    intro group mem
    rw [members_entitySource, List.mem_singleton] at mem
    subst mem
    simp [Sql.TableGroup.path, Path.isRoot, Path.depth, rooted]
  have whole : path.upTo 0 = root := by
    rw [← Path.root_of_single rooted]
    exact (Path.root_of_single (by simp [Path.upTo, leads])).symm
  rw [Model.nearestGroup?_of_rooted alone, whole, Sql.FromClause.find?_eq, members_entitySource, leads]
  simp [Sql.TableGroup.path]

/-- An attribute of an embedded mapping can be selected from its entity, and what is read back from the
column values of a value is these values side by side, or the one value alone. That is the composite they
were made from, for all composites the mapping accepts, where the mapping spans other than one column and each
component keeps its part as it is; and, as long as the components take null to nulls, exactly there. -/
theorem selected_composite_reads_back (strict : Bool) (expansions : OccurrenceId → List Occurrence)
    (node : NodeId) (label : Option String) (w : Workspace) {a : Attribute} {type : String}
    {components : List (String × Mapping)} (entity : m.entity e.name = .ok e)
    (listed : e.attribute? first = some a) (mapped : a.mapping = .embedded type components)
    (spanned : a.Spanned) (rooted : root.segments = [name])
    (leads : source.path.segments = [name, first]) :
    ∃ l w' q r, lowerStatement m strict expansions (selectPath e.name root node source label) w = .ok l w' ∧
      l.statement = .select q ∧ q.results = [r] ∧
      (∀ v values, a.mapping.decompose v = .ok values →
        r.assemble (values.map ColumnValue.value) = some (.ofList (values.map ColumnValue.value))) ∧
      (a.mapping.columnCount ≠ 1 → (∀ c ∈ components, c.2.IsVerbatim) →
        ∀ parts values, a.mapping.decompose (.composite parts) = .ok values →
          r.assemble (values.map ColumnValue.value) = some (.composite parts)) ∧
      ((∀ c ∈ components, c.2.KeepsNull) →
        ((∀ parts values, a.mapping.decompose (.composite parts) = .ok values →
            r.assemble (values.map ColumnValue.value) = some (.composite parts)) ↔
          a.mapping.columnCount ≠ 1 ∧ ∀ c ∈ components, c.2.IsVerbatim)) := by
  have resolved := Model.resolvePath_attribute (m := m)
    (nearestGroup?_entitySource rooted leads) entity listed spanned
  simp only [Mapping.within?] at resolved
  have start : Path.root source.path.rootName = root := by
    have name : source.path.rootName = name := by simp [Path.rootName, leads]
    rw [name, Path.root_of_single rooted]
  obtain ⟨l, w', q, lowered, select, results⟩ :=
    lowerStatement_selectPath strict expansions node label w entity start resolved
  have count (qualifier : String) : (columnRefs qualifier
      ((a.columns.drop 0).take a.mapping.columnCount) a.mapping).length = a.mapping.columnCount := by
    rw [Attribute.Spanned] at spanned
    simp [columnRefs, Mapping.columnTypes_length, spanned]
  have reads {v : Value} {values : List ColumnValue} (made : a.mapping.decompose v = .ok values) :
      (pathResult 0 source label (.ofColumns (columnRefs root.rootName
        ((a.columns.drop 0).take a.mapping.columnCount) a.mapping))).assemble
          (values.map ColumnValue.value) = some (.ofList (values.map ColumnValue.value)) := by
    apply assemble_pathResult
    rw [List.length_map, Mapping.decompose_length made, Mapping.columnTypes_length, count]
  refine ⟨l, w', q, _, lowered, select, results, fun v values made => reads made, ?_, fun keep => ?_⟩
  · intro several verbatim parts values made
    rw [reads made]
    rw [mapped] at several made
    rw [Mapping.ofList_of_verbatim several verbatim made]
  rw [mapped, ← Mapping.ofList_eq_iff type keep, ← mapped]
  constructor
  · intro whole parts values made
    exact Option.some.inj ((reads made).symm.trans (whole parts values made))
  · intro whole parts values made
    exact (reads made).trans (congrArg some (whole parts values made))

namespace Addressed
open Model.Sample (type address people addressPath)

def profile : PathRef := ⟨⟨["p", "profile"], by simp, by decide⟩, .composite⟩

def profiled : Entity where
  name := "Person"
  table := "person"
  identifier := Model.Sample.identifier
  attributes := [{
    name := "profile"
    mapping := .embedded "Profile" [("active", .converted .yesNo (type .character)), ("address", address)]
    columns := ["active", "street", "city"] }]

def place : Value := .composite [.text "Main", .text "Oslo"]

/-- The columns of an address spell it; for the address that is not there they spell one of nulls. -/
theorem address_is_its_columns :
    ∃ l w q r, lowerStatement Model.Sample.model true (fun _ => [])
        (selectPath "Person" people 0 addressPath none) .empty = .ok l w ∧
      l.statement = .select q ∧ q.results = [r] ∧
      r.assemble [.text "Main", .text "Oslo"] = some place ∧
      r.assemble [.null, .null] = some (.composite [.null, .null]) := by
  have entity : Model.Sample.model.entity Model.Sample.person.name = .ok Model.Sample.person := rfl
  have listed : Model.Sample.person.attribute? "address" =
    some ⟨"address", address, ["street", "city"]⟩ := rfl
  have rooted : people.segments = ["p"] := rfl
  have leads : addressPath.path.segments = ["p", "address"] := rfl
  obtain ⟨l, w, q, r, lowered, select, results, -, whole, -⟩ :=
    selected_composite_reads_back true (fun _ => []) 0 none .empty entity listed rfl rfl rooted leads
  have verbatim : ∀ c ∈ [("street", Model.Sample.basic .text), ("city", Model.Sample.basic .text)],
      c.2.IsVerbatim := by
    simp [Model.Sample.basic, Mapping.basic_verbatim]
  have spelled := whole (by decide) verbatim
  have there := spelled [.text "Main", .text "Oslo"] _ rfl
  have missing := spelled [.null, .null] _ rfl
  exact ⟨l, w, q, r, lowered, select, results, there, missing⟩

/-- Of a profile with a flag and an address, the flag is read as it is stored, and the address as two more
values beside it. -/
theorem profile_is_flattened :
    ∃ l w q r values, lowerStatement ((Model.mk .standard .empty).add profiled) true (fun _ => [])
        (selectPath "Person" people 0 profile none) .empty = .ok l w ∧
      l.statement = .select q ∧ q.results = [r] ∧
      (∃ a, profiled.attribute? "profile" = some a ∧ a.Spanned ∧
        a.mapping.decompose (.composite [.bool true, place]) = .ok values) ∧
      r.assemble (values.map ColumnValue.value) =
        some (.composite [.char 'Y', .text "Main", .text "Oslo"]) ∧
      r.assemble (values.map ColumnValue.value) ≠ some (.composite [.bool true, place]) := by
  refine ⟨_, _, _, _, _, rfl, rfl, rfl, ⟨_, rfl, rfl, rfl⟩, rfl, ?_⟩
  intro same
  have flag := (List.cons.inj (Value.composite.inj (Option.some.inj same))).1
  contradiction

end Addressed

end Lowering

end SemanticQuery
