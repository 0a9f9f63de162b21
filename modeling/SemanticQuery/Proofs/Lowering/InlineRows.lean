import SemanticQuery.Proofs.Lowering.Opposite
import SemanticQuery.Proofs.Lowering.Selections

/-! The width of inline rows. A column of inline rows is checked to span one column by the mapping of the type
that takes precedence among its cells. Each cell is then lowered by its own type first, so what it spans is
its own width, and rows are as long as they were given. -/
namespace SemanticQuery

/-- A cell of one column for each declared column, in every row. -/
def Sql.ValuesTable.Rectangular (table : Sql.ValuesTable) : Prop :=
  ∀ row ∈ table.rows, row.length = table.columns.length ∧ ∀ cell ∈ row, cell.columnCount = 1

namespace Lowering
open Query

/-- Columns of an expression with a mapping; without one there is a single column. -/
def spanOf : Option Mapping → Nat
  | some m => m.columnCount
  | none => 1

mutual

/-- The columns an expression spans in a scope, where its context gives it a mapping or none. -/
def Scope.width (c : Scope) (context : Option Mapping) : Expr → Nat
  | .literal _ _ type => spanOf ((c.mapping? type).or context)
  | .parameter _ o => spanOf ((o.type?.bind c.mapping?).or context)
  | .path _ source =>
    match c.model.resolvePath c.source source.path with
    | .ok r => min r.columns.length r.mapping.columnCount
    | .error _ => 0
  | .call .. => 1
  | .tuple _ elements _ => c.widths context 0 elements

/-- The columns of tuple elements from a position on; each has the component at its place. -/
def Scope.widths (c : Scope) (context : Option Mapping) (index : Nat) : List Expr → Nat
  | [] => 0
  | e :: rest =>
    c.width (context.bind (Mapping.componentAt? · index)) e + c.widths context (index + 1) rest

end

/-- The widths of the cells of a row under the mappings of its columns. -/
def Scope.cellWidths (c : Scope) (mappings : List (Option Mapping)) (row : List Expr) : List Nat :=
  row.mapIdx fun i cell => c.width (mappings[i]?).join cell

/-- A scope with these sources and no others. -/
def Scope.seeing (c : Scope) (groups : List Sql.TableGroup) : Scope := { c with source := ⟨groups⟩ }

variable {c scope : Scope} {context : Option Mapping} {e : Sql.Expr} {p p' : Progress}

/-- A value spans the columns of the mapping that it is taken apart by. -/
theorem decomposed_width {m : Mapping} {v : Value}
    (ran : (do
      let values ← liftMapping (m.decompose v)
      return .ofList (values.map fun cv => .literal cv.value cv.type) : LowerM Sql.Expr) p = .ok e p') :
    e.columnCount = m.columnCount := by
  obtain ⟨values, q, looked, made⟩ := run_bind_ok.mp ran
  obtain ⟨decomposed, rfl⟩ := liftMapping_ok looked
  cases made
  rw [Sql.Expr.columnCount_ofList (by simp [Sql.Expr.isTuple]), List.length_map,
    Mapping.decompose_length decomposed, Mapping.columnTypes_length]

theorem lowerLiteral_width {v : Value} {type : ExprType}
    (ran : lowerLiteral c (pure context) v type p = .ok e p') :
    e.columnCount = spanOf ((c.mapping? type).or context) := by
  obtain ⟨known, q, looked, ran⟩ := run_bind_ok.mp ran
  obtain ⟨found, rfl⟩ := liftMapping_ok looked
  rw [Scope.mapping?_of_ok found]
  cases known with
  | some m => exact decomposed_width ran
  | none =>
    -- without a mapping of its own the literal is refused where the context has none either
    obtain ⟨hinted, q', chosen, ran⟩ := run_bind_ok.mp ran
    cases chosen
    cases context with
    | none => contradiction
    | some m => exact decomposed_width ran

theorem lowerParameter_width {o : Occurrence}
    (ran : lowerParameter c (pure context) o p = .ok e p') :
    e.columnCount = spanOf ((o.type?.bind c.mapping?).or context) := by
  obtain ⟨mapping, chosen, group, rfl, -, types⟩ := lowerParameter_ok ran
  have same : mapping = (o.type?.bind c.mapping?).or context := by
    rw [Scope.chosenMapping, Scope.ownMapping] at chosen
    cases typed : o.type? with
    | none =>
      rw [typed] at chosen
      cases chosen
      rfl
    | some type =>
      rw [typed] at chosen
      dsimp only at chosen
      cases found : c.mapping type with
      | error e =>
        rw [found] at chosen
        contradiction
      | ok own =>
        rw [found] at chosen
        cases chosen
        rw [Option.bind_some, Scope.mapping?_of_ok found]
        rfl
  rw [← same, Sql.Expr.ofSlots, Sql.Expr.columnCount_ofList (by simp [Sql.Expr.isTuple]),
    List.length_map, ← List.length_map Slot.type, types]
  cases mapping with
  | none => rfl
  | some m => rw [slotTypes, List.length_map, Mapping.columnTypes_length, spanOf]

theorem lowerPath_width {source : PathRef} (ran : lowerPath c source p = .ok e p') (node : NodeId) :
    e.columnCount = c.width context (.path node source) := by
  obtain ⟨r, resolved, rfl, rfl⟩ := lowerPath_ok ran
  rw [Scope.width, resolved, Sql.Expr.ofColumns,
    Sql.Expr.columnCount_ofList (by simp [Sql.Expr.isTuple]), List.length_map]
  simp [columnRefs, Mapping.columnTypes_length]

theorem elementHint_pure (context : Option Mapping) (index : Nat) :
    elementHint (pure context) index = pure (context.bind (Mapping.componentAt? · index)) := by
  cases context <;> rfl

mutual

/-- What an expression is lowered to spans the width it has. -/
theorem lowerExpr_width (context : Option Mapping) : (expr : Expr) → {e : Sql.Expr} → {p p' : Progress} →
    lowerExpr c (pure context) expr p = .ok e p' → e.columnCount = c.width context expr
  | .literal _ v type, e, p, p', ran => by
    rw [lowerExpr] at ran
    exact lowerLiteral_width ran
  | .parameter _ o, e, p, p', ran => by
    rw [lowerExpr] at ran
    exact lowerParameter_width ran
  | .path node source, e, p, p', ran => by
    rw [lowerExpr] at ran
    exact lowerPath_width ran node
  | .call node function arguments implied notes, e, p, p', ran => by
    rw [lowerExpr] at ran
    obtain ⟨type, p₁, -, ran⟩ := run_bind_ok.mp ran
    obtain ⟨lowered, p₂, -, ran⟩ := run_bind_ok.mp ran
    obtain ⟨_, p₃, -, ran⟩ := run_bind_ok.mp ran
    obtain ⟨mapping, p₄, -, made⟩ := run_bind_ok.mp ran
    cases made
    rfl
  | .tuple _ elements _, e, p, p', ran => by
    rw [lowerExpr] at ran
    obtain ⟨lowered, p₁, ran, made⟩ := run_bind_ok.mp ran
    cases made
    exact lowerElements_widths context 0 elements ran

theorem lowerElements_widths (context : Option Mapping) (index : Nat) : (elements : List Expr) →
    {es : List Sql.Expr} → {p p' : Progress} →
    lowerElements c (pure context) index elements p = .ok es p' →
    Sql.Expr.columnCounts es = c.widths context index elements
  | [], es, p, p', ran => by
    cases ran
    rfl
  | expr :: rest, es, p, p', ran => by
    rw [lowerElements, elementHint_pure] at ran
    obtain ⟨first, p₁, ranFirst, ran⟩ := run_bind_ok.mp ran
    obtain ⟨later, p₂, ranLater, made⟩ := run_bind_ok.mp ran
    cases made
    rw [Sql.Expr.columnCounts, Scope.widths, lowerExpr_width _ expr ranFirst,
      lowerElements_widths context (index + 1) rest ranLater]

end

theorem lowerRow_widths {mappings : List (Option Mapping)} {index : Nat} {row : List Expr}
    {cells : List Sql.Expr} (ran : lowerRow c mappings index row p = .ok cells p') :
    cells.map Sql.Expr.columnCount =
      row.mapIdx fun i cell => c.width (mappings[index + i]?).join cell := by
  induction row generalizing index cells p with
  | nil =>
    cases ran
    rfl
  | cons cell rest ih =>
    obtain ⟨first, q, ranFirst, ran⟩ := run_bind_ok.mp ran
    obtain ⟨later, q', ranLater, made⟩ := run_bind_ok.mp ran
    cases made
    rw [List.map_cons, ih ranLater, List.mapIdx_cons, lowerExpr_width _ cell ranFirst]
    simp only [Nat.add_zero, Nat.add_assoc, Nat.add_comm 1]

theorem lowerRows_widths {mappings : List (Option Mapping)} {rows : List (List Expr)}
    {lowered : List (List Sql.Expr)} (ran : lowerRows c mappings rows p = .ok lowered p') :
    lowered.map (fun row => row.map Sql.Expr.columnCount) = rows.map (c.cellWidths mappings) := by
  induction rows generalizing lowered p with
  | nil =>
    cases ran
    rfl
  | cons row rest ih =>
    obtain ⟨first, q, ranFirst, ran⟩ := run_bind_ok.mp ran
    obtain ⟨later, q', ranLater, made⟩ := run_bind_ok.mp ran
    cases made
    rw [List.map_cons, List.map_cons, ih ranLater, lowerRow_widths ranFirst]
    simp only [Scope.cellWidths, Nat.zero_add]

theorem singleColumn_ok {column : String} {found chosen : Option Mapping}
    (ran : singleColumn column found p = .ok chosen p') : ∀ m, chosen = some m → m.columnCount = 1 := by
  cases found with
  | none =>
    cases ran
    intro m same
    contradiction
  | some found =>
    rw [singleColumn] at ran
    split at ran
    next single =>
      cases ran
      intro m same
      cases same
      exact single
    · contradiction

theorem columnMapping_ok {rows : List (List Expr)} {index : Nat} {column : String}
    {chosen : Option Mapping} (ran : columnMapping c rows index column p = .ok chosen p') :
    ∀ m, chosen = some m → m.columnCount = 1 := by
  obtain ⟨types, q, -, ran⟩ := run_bind_ok.mp ran
  cases highest : highestType types with
  | none =>
    rw [highest] at ran
    cases ran
    intro m same
    contradiction
  | some type =>
    rw [highest] at ran
    obtain ⟨found, q', -, ran⟩ := run_bind_ok.mp ran
    exact singleColumn_ok ran

theorem columnMappings_ok {rows : List (List Expr)} {index : Nat} {columns : List String}
    {mappings : List (Option Mapping)} (ran : columnMappings c rows index columns p = .ok mappings p') :
    mappings.length = columns.length ∧ ∀ m, some m ∈ mappings → m.columnCount = 1 := by
  induction columns generalizing index mappings p with
  | nil =>
    cases ran
    exact ⟨rfl, fun m mem => absurd mem List.not_mem_nil⟩
  | cons column rest ih =>
    obtain ⟨first, q, ranFirst, ran⟩ := run_bind_ok.mp ran
    obtain ⟨later, q', ranLater, made⟩ := run_bind_ok.mp ran
    cases made
    obtain ⟨count, checked⟩ := ih ranLater
    refine ⟨congrArg Nat.succ count, fun m mem => ?_⟩
    obtain same | mem := List.mem_cons.mp mem
    · exact columnMapping_ok ranFirst m same.symm
    · exact checked m mem

/-- A table made of inline rows in a scope, with the mappings of its columns. -/
structure Tabulates (c : Scope) (root : ValuesRoot) (table : Sql.ValuesTable)
    (mappings : List (Option Mapping)) : Prop where
  columns : table.columns = root.columns
  each : mappings.length = root.columns.length
  single : ∀ m, some m ∈ mappings → m.columnCount = 1
  widths : table.rows.map (fun row => row.map Sql.Expr.columnCount) =
    root.rows.map (c.cellWidths mappings)

theorem Tabulates.rectangular_iff {root : ValuesRoot} {table : Sql.ValuesTable}
    {mappings : List (Option Mapping)} (tabulates : Tabulates c root table mappings) :
    table.Rectangular ↔ ∀ row ∈ root.rows, row.length = root.columns.length ∧
      ∀ n ∈ c.cellWidths mappings row, n = 1 := by
  have lowered : table.Rectangular ↔
      ∀ counts ∈ table.rows.map (fun row => row.map Sql.Expr.columnCount),
        counts.length = table.columns.length ∧ ∀ n ∈ counts, n = 1 := by
    simp [Sql.ValuesTable.Rectangular]
  have source (row : List Expr) : (c.cellWidths mappings row).length = row.length :=
    List.length_mapIdx
  rw [lowered, tabulates.widths, tabulates.columns]
  simp only [List.forall_mem_map, source]

/-- Sources are entered one after the other, each in the scope of those before it. -/
theorem addValues_tabulates {roots : List ValuesRoot} (ran : addValues c roots p = .ok scope p') :
    (∃ added, scope.source.roots = c.source.roots ++ added) ∧
      ∀ j root, roots[j]? = some root → ∃ table mappings,
        scope.source.roots[c.source.roots.length + j]? = some (.values root.path table mappings [] []) ∧
        Tabulates (c.seeing (scope.source.roots.take (c.source.roots.length + j))) root table mappings := by
  induction roots generalizing c p with
  | nil =>
    cases ran
    refine ⟨⟨[], (List.append_nil _).symm⟩, fun j root listed => ?_⟩
    contradiction
  | cons root rest ih =>
    obtain ⟨mappings, q, chosen, ran⟩ := run_bind_ok.mp ran
    obtain ⟨rows, q', ranRows, ran⟩ := run_bind_ok.mp ran
    obtain ⟨⟨added, grown⟩, later⟩ := ih ran
    obtain ⟨each, single⟩ := columnMappings_ok chosen
    have count (group : Sql.TableGroup) :
        (c.add group).source.roots.length = c.source.roots.length + 1 := by
      simp [Scope.add, Sql.FromClause.add]
    -- sources only grow, so a prefix of the last ones is what a root was lowered with
    rw [Scope.add, Sql.FromClause.add, List.append_assoc, List.singleton_append] at grown
    refine ⟨⟨_, grown⟩, fun j other listed => ?_⟩
    cases j with
    | zero =>
      cases listed
      refine ⟨⟨rows, root.path.rootName, root.columns⟩, mappings, ?_, rfl, each, single, ?_⟩
      · rw [grown, Nat.add_zero, List.getElem?_append_right (Nat.le_refl _), Nat.sub_self]
        rfl
      · rw [grown, Nat.add_zero, List.take_left]
        exact lowerRows_widths ranRows
    | succ j =>
      obtain ⟨table, chosen, found, tabulates⟩ := later j other listed
      rw [count, Nat.add_assoc, Nat.add_comm 1] at found tabulates
      exact ⟨table, chosen, found, tabulates⟩

theorem addRoots_enters {roots : List Root} (ran : addRoots c roots p = .ok scope p') :
    ∃ added, added.length = roots.length ∧ scope = c.seeing (c.source.roots ++ added) := by
  induction roots generalizing c p with
  | nil =>
    cases ran
    exact ⟨[], rfl, by rw [List.append_nil]; rfl⟩
  | cons root rest ih =>
    obtain ⟨⟨table, next⟩, q, entered, ran⟩ := run_bind_ok.mp ran
    obtain ⟨entity, q', -, made⟩ := run_bind_ok.mp entered
    cases made
    obtain ⟨added, count, same⟩ := ih ran
    refine ⟨.entity root.path entity.name ⟨entity.table, root.path.rootName⟩ :: added,
      congrArg Nat.succ count, ?_⟩
    rw [same, Scope.add, Sql.FromClause.add, List.append_assoc, List.singleton_append]
    rfl

/-- The tables of inline rows in a lowered select. Each source of inline rows comes to a table with its
columns, and the mapping recorded for a column spans one column. Row by row and cell by cell the table is as
wide as what was given: a cell has the width of its own mapping, and of the column's only where it has none.
So the table is rectangular exactly where each given row has as many cells as there are columns and each cell
is one column wide by itself. -/
theorem inline_rows_rectangular_iff {model : Model} {strict : Bool}
    {expansions : OccurrenceId → List Occurrence} {s : Select} {w w' : Workspace} {l : Lowered}
    (lowered : lowerStatement model strict expansions (.select s) w = .ok l w') {j : Nat}
    {root : ValuesRoot} (listed : s.values[j]? = some root) :
    ∃ q table mappings, l.statement = .select q ∧
      q.source.roots[s.roots.length + j]? = some (.values root.path table mappings [] []) ∧
      Tabulates ⟨model, ⟨q.source.roots.take (s.roots.length + j)⟩, expansions, strict⟩ root table
        mappings ∧
      (table.Rectangular ↔ ∀ row ∈ root.rows, row.length = root.columns.length ∧
        ∀ n ∈ Scope.cellWidths ⟨model, ⟨q.source.roots.take (s.roots.length + j)⟩, expansions, strict⟩
          mappings row, n = 1) := by
  simp only [lowerStatement] at lowered
  split at lowered
  next statement source p run =>
    cases lowered
    obtain ⟨rooted, p₁, roots, run⟩ := run_bind_ok.mp run
    obtain ⟨full, p₂, values, run⟩ := run_bind_ok.mp run
    obtain ⟨⟨selections, results⟩, p₃, -, run⟩ := run_bind_ok.mp run
    obtain ⟨restriction, p₄, -, made⟩ := run_bind_ok.mp run
    cases made
    obtain ⟨added, count, rfl⟩ := addRoots_enters roots
    obtain ⟨table, mappings, found, tabulates⟩ := (addValues_tabulates values).2 j root listed
    have start : (Scope.seeing ⟨model, .empty, expansions, strict⟩
        (Sql.FromClause.empty.roots ++ added)).source.roots.length = s.roots.length := by
      rw [← count]
      rfl
    rw [start] at found tabulates
    exact ⟨_, table, mappings, rfl, found, tabulates, tabulates.rectangular_iff⟩
  · contradiction

/-! Places as rows of one column: a zip code of one column and an address of two. -/
namespace Placed
open Model.Sample (basic address)

def zip : Expr :=
  .literal 0 (.composite [.text "0150"]) (.mapped (.embedded "Zip" [("code", basic .text)]))

def house : Expr := .literal 1 (.composite [.text "Main", .text "Oslo"]) (.mapped address)

def rows (cells : List Expr) : ValuesRoot := ⟨Sectioned.rows, ["place"], cells.map fun cell => [cell]⟩

def select (cells : List Expr) : Select := ⟨[], [rows cells], [], none⟩

/-- The column is checked by its first row. The address behind it goes through and takes two columns, while
it is refused in front. -/
theorem second_row_is_wider :
    (∃ l w q table mappings,
      lowerStatement Model.Sample.model true (fun _ => []) (.select (select [zip, house])) .empty = .ok l w ∧
        l.statement = .select q ∧
        q.source.roots[0]? = some (.values (rows []).path table mappings [] []) ∧
        table.rows.map (fun row => row.map Sql.Expr.columnCount) = [[1], [2]] ∧ ¬table.Rectangular) ∧
      ∃ w, lowerStatement Model.Sample.model true (fun _ => []) (.select (select [house, zip])) .empty =
        .error (.mapping (.multiColumnValues "place" "embedded(Address)")) w := by
  have lowered : lowerStatement Model.Sample.model true (fun _ => []) (.select (select [zip, house]))
      .empty = .ok _ _ := rfl
  obtain ⟨q, table, mappings, same, found, tabulates, rectangular⟩ :=
    inline_rows_rectangular_iff (j := 0) lowered rfl
  cases same
  cases found
  refine ⟨⟨_, _, _, _, _, lowered, rfl, rfl, tabulates.widths, fun whole => ?_⟩, _, rfl⟩
  obtain ⟨-, each⟩ := rectangular.mp whole [house] (List.mem_cons_of_mem _ List.mem_cons_self)
  exact absurd (each 2 List.mem_cons_self) (by decide)

end Placed

end Lowering

end SemanticQuery
