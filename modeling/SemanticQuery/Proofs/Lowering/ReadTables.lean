import SemanticQuery.Proofs.KeyedList
import SemanticQuery.Proofs.Lowering.References

/-! The tables that a from clause reads. Paths find groups among the roots and, under inline rows, among their
joins; but only roots are written, and only roots list their tables. Lowering makes no joins, so the groups that
are found in a lowered statement are all read. -/
namespace SemanticQuery

namespace Sql

theorem mem_sortedNames {name : String} {names : List String} : name ∈ sortedNames names ↔ name ∈ names := by
  rw [sortedNames, KeyedList.mem_keys_ofList]
  simp

namespace FromClause

/-- What is written for a from clause, with separators between. -/
def written (f : FromClause) : List (List Piece) := f.roots.map TableGroup.pieces

/-- A from clause lists a table as affected and writes it with its qualifier. -/
def Reads (f : FromClause) (table : TableRef) : Prop :=
  table.table ∈ f.affectedTables ∧ table.pieces ∈ f.written

variable {f : FromClause} {table : TableRef}

theorem mem_affectedTables_iff {name : String} : name ∈ f.affectedTables ↔
    ∃ path entity table, .entity path entity table ∈ f.roots ∧ table.table = name := by
  rw [affectedTables, mem_sortedNames, List.mem_flatMap]
  constructor
  · rintro ⟨group, root, listed⟩
    cases group with
    | entity path entity table =>
      exact ⟨path, entity, table, root, (List.mem_singleton.mp listed).symm⟩
    | values => contradiction
  · rintro ⟨path, entity, table, root, rfl⟩
    exact ⟨_, root, List.mem_singleton_self _⟩

/-- Inline rows are written in more pieces than a table. -/
theorem pieces_ne_values (table : TableRef) (rows : ValuesTable) : table.pieces ≠ rows.pieces := by
  intro same
  have lengths := congrArg List.length same
  simp only [TableRef.pieces, ValuesTable.pieces, List.length_append, List.length_cons,
    List.length_nil] at lengths
  omega

theorem mem_written_iff : table.pieces ∈ f.written ↔ ∃ path entity, .entity path entity table ∈ f.roots := by
  rw [written, List.mem_map]
  constructor
  · rintro ⟨group, root, same⟩
    cases group with
    | entity path entity other =>
      cases other
      cases table
      simp only [TableGroup.pieces, TableRef.pieces] at same
      cases same
      exact ⟨path, entity, root⟩
    | values path rows => exact absurd same.symm (pieces_ne_values table rows)
  · rintro ⟨path, entity, root⟩
    exact ⟨_, root, rfl⟩

theorem reads_iff : f.Reads table ↔ ∃ path entity, .entity path entity table ∈ f.roots := by
  rw [Reads, mem_written_iff, mem_affectedTables_iff]
  refine and_iff_right_of_imp ?_
  rintro ⟨path, entity, root⟩
  exact ⟨path, entity, table, root, rfl⟩

theorem find?_some {sought : Path} {group : TableGroup} (found : f.find? sought = some group) :
    group.path = sought ∧ group ∈ f.members := by
  rw [find?_eq] at found
  exact ⟨by simpa using List.find?_some found, List.mem_of_find?_eq_some found⟩

end FromClause

/-- What a statement is written over, it lists the tables of. -/
theorem Statement.Over.tables_affected {s : Statement} {group : TableGroup} (written : s.Over group) :
    ∀ name ∈ group.tables, name ∈ s.affectedTables := by
  intro name listed
  cases s with
  | select s => exact mem_sortedNames.mpr (List.mem_flatMap.mpr ⟨group, written, listed⟩)
  | update u =>
    obtain ⟨path, entity, rfl⟩ := written
    exact listed
  | delete d =>
    obtain ⟨path, entity, rfl⟩ := written
    exact listed

end Sql

namespace Lowering
open Query

/-- A group that a path finds stands at the path, as a root or as a join under one. Its table is listed as
affected where a root has the table, and is read where a root has it under the same qualifier: so where the
group is a root itself. In a lowered statement every group found is a root, listed as affected and written; and
every path is resolved to columns of such a group. -/
theorem found_table_read_iff :
    (∀ {f : Sql.FromClause} {sought path : Path} {entity : String} {table : Sql.TableRef},
      f.find? sought = some (.entity path entity table) →
        path = sought ∧ .entity path entity table ∈ f.members ∧
        (table.table ∈ f.affectedTables ↔
          ∃ path entity other, .entity path entity other ∈ f.roots ∧ other.table = table.table) ∧
        (f.Reads table ↔ ∃ path entity, .entity path entity table ∈ f.roots)) ∧
    ∀ {model : Model} {strict : Bool} {expansions : OccurrenceId → List Occurrence} {s : Statement}
      {w w' : Workspace} {l : Lowered}, lowerStatement model strict expansions s w = .ok l w' →
        (∀ {sought path : Path} {entity : String} {table : Sql.TableRef},
          l.source.find? sought = some (.entity path entity table) →
            .entity path entity table ∈ l.source.roots ∧ l.source.Reads table ∧
            table.table ∈ l.statement.affectedTables ∧ table.pieces <:+: l.statement.pieces) ∧
        ∀ {path : Path} {r : ResolvedPath}, model.resolvePath l.source path = .ok r →
          ∃ group ∈ l.source.roots, r.qualifier = group.qualifier ∧
            (∀ column ∈ r.columns, group.Provides model column) ∧
            (∀ name ∈ group.tables, name ∈ l.statement.affectedTables) ∧
            group.pieces <:+: l.statement.pieces := by
  constructor
  · intro f sought path entity table found
    obtain ⟨stands, member⟩ := Sql.FromClause.find?_some found
    exact ⟨stands, member, Sql.FromClause.mem_affectedTables_iff, Sql.FromClause.reads_iff⟩
  · intro model strict expansions s w w' l lowered
    have rests := lowerStatement_rests lowered
    have root {group : Sql.TableGroup} (member : group ∈ l.source.members) : group ∈ l.source.roots :=
      rests.flat ▸ member
    constructor
    · intro sought path entity table found
      have mem := root (Sql.FromClause.find?_some found).2
      have written := rests.written _ mem
      exact ⟨mem, Sql.FromClause.reads_iff.mpr ⟨path, entity, mem⟩,
        written.tables_affected _ (List.mem_singleton_self _), written.infix_pieces⟩
    · intro path r resolved
      obtain ⟨group, member, named, provides⟩ := Model.provides_of_resolvePath resolved
      have written := rests.written _ (root member)
      exact ⟨group, root member, named, provides, written.tables_affected, written.infix_pieces⟩

namespace Joined

/-- People joined under inline rows. -/
def underRows : Sql.FromClause :=
  ⟨[.values limits ⟨[[.literal (.int 18) .integer]], "limits", ["limit"]⟩ [none] []
    [.entity person "Person" ⟨"person", "p"⟩]]⟩

/-- A name of people joined under inline rows is resolved, but nothing is read of them. -/
theorem joined_people_are_not_read :
    underRows.find? person = some (.entity person "Person" ⟨"person", "p"⟩) ∧
      (Model.Sample.model.resolvePath underRows age.path).toOption.map
        (fun r => (r.qualifier, r.columns)) = some ("p", ["age"]) ∧
      underRows.affectedTables = [] ∧ .text "person" ∉ underRows.pieces ∧
      ¬∀ (f : Sql.FromClause) (sought path : Path) (entity : String) (table : Sql.TableRef),
        f.find? sought = some (.entity path entity table) →
          table.table ∈ f.affectedTables ∧ table.pieces ∈ f.written := by
  have found : underRows.find? person = some (.entity person "Person" ⟨"person", "p"⟩) := rfl
  refine ⟨found, rfl, rfl, by decide, fun all => ?_⟩
  obtain ⟨listed, -⟩ := all _ _ _ _ _ found
  exact absurd listed (by decide)

theorem people_are_read :
    ∃ (l : Lowered) (w : Workspace),
      lowerStatement Model.Sample.model true (fun _ => []) statement .empty = .ok l w ∧
        l.source.find? person = some (.entity person "Person" ⟨"person", "p"⟩) ∧
        l.source.Reads ⟨"person", "p"⟩ ∧ l.statement.affectedTables = ["orders", "person"] ∧
        ∃ path entity, .entity path entity ⟨"person", "p"⟩ ∈ l.source.roots := by
  obtain ⟨l, w, lowered, found, tables⟩ : ∃ (l : Lowered) (w : Workspace),
      lowerStatement Model.Sample.model true (fun _ => []) statement .empty = .ok l w ∧
        l.source.find? person = some (.entity person "Person" ⟨"person", "p"⟩) ∧
        l.statement.affectedTables = ["orders", "person"] := ⟨_, _, rfl, rfl, rfl⟩
  have reads := ((found_table_read_iff.2 lowered).1 found).2.1
  exact ⟨l, w, lowered, found, reads, tables, (found_table_read_iff.1 found).2.2.2.mp reads⟩

end Joined

end Lowering

end SemanticQuery
