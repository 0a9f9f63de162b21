import SemanticQuery.Model.Sample
import SemanticQuery.Proofs.Lowering.Slots
import SemanticQuery.Proofs.Model.Provision
import SemanticQuery.Proofs.Sql.References

/-! The columns a lowered statement refers to. A path is resolved to columns of a group that the from
clause has by then, and groups stay, so that every reference is to a column of a table or of inline rows
that the statement is written over, under its name there. -/
namespace SemanticQuery.Lowering
open Query

/-- A step whose result refers to columns that the from clause provides. -/
abbrev Refers {α : Type} (c : Scope) (refs : α → List Sql.ColumnRef) (m : LowerM α) : Prop :=
  Allocates (fun a _ => ∀ ref ∈ refs a, c.source.Provides c.model ref) m

section
variable (c : Scope) (h : Hint)

theorem references_ofList {P : Sql.ColumnRef → Prop} {es : List Sql.Expr}
    (each : ∀ e ∈ es, ∀ ref ∈ e.references, P ref) : ∀ ref ∈ (Sql.Expr.ofList es).references, P ref := by
  match es with
  | [] => simp [Sql.Expr.ofList, Sql.Expr.references, Sql.Expr.referencesOf]
  | [e] => exact each e List.mem_cons_self
  | first :: second :: rest => exact Sql.Expr.forall_referencesOf.mpr each

theorem references_ofSlots (group : List Slot) : (Sql.Expr.ofSlots group).references = [] := by
  apply List.eq_nil_iff_forall_not_mem.mpr
  apply references_ofList
  simp [Sql.Expr.references]

theorem mem_columnRefs {qualifier : String} {columns : List String} {mapping : Mapping}
    {ref : Sql.ColumnRef} (mem : ref ∈ columnRefs qualifier columns mapping) :
    ref.qualifier = qualifier ∧ ref.column ∈ columns := by
  obtain ⟨⟨column, type⟩, zipped, rfl⟩ := List.mem_map.mp mem
  exact ⟨rfl, (List.of_mem_zip zipped).1⟩

theorem provides_columnRefs {m : Model} {f : Sql.FromClause} {path : Path} {r : ResolvedPath}
    (resolved : m.resolvePath f path = .ok r) :
    ∀ ref ∈ columnRefs r.qualifier r.columns r.mapping, f.Provides m ref := by
  intro ref mem
  obtain ⟨group, listed, named, provides⟩ := Model.provides_of_resolvePath resolved
  obtain ⟨qualified, column⟩ := mem_columnRefs mem
  exact ⟨group, listed, qualified.trans named, provides _ column⟩

theorem lowerLiteral_refers (v : Value) (type : ExprType) :
    Refers c Sql.Expr.references (lowerLiteral c h v type) := by
  apply lowerLiteral_allocates
  intro values
  apply references_ofList
  simp [Sql.Expr.references]

theorem lowerPath_refers (source : PathRef) : Refers c Sql.Expr.references (lowerPath c source) := by
  apply lowerPath_allocates
  intro r resolved
  apply references_ofList
  simpa [Sql.Expr.references] using provides_columnRefs resolved

theorem lowerParameter_refers (o : Occurrence) :
    Refers c Sql.Expr.references (lowerParameter c h o) := by
  have slots (types : List (Option ColumnType)) : Refers c Sql.Expr.references (do
      let group ← allocate o.id types
      return .ofSlots group) := by
    apply Allocates.bind (allocate_allocates o.id types)
    intro group gs _
    apply Allocates.pure
    simp [references_ofSlots]
  have hinted : Refers c Sql.Expr.references (lowerHinted c h o) := by
    apply Silent.bind (.runHint h)
    intro mapping
    cases mapping with
    | some m => exact slots _
    | none =>
      cases c.strict with
      | true => exact .throw _
      | false => exact slots [none]
  unfold lowerParameter
  cases o.type? with
  | none => exact hinted
  | some type =>
    apply Silent.bind (.liftMapping _)
    intro own
    cases own with
    | none => exact hinted
    | some m => exact slots _

/-- What a sequence refers to, it refers to in its first part or behind it. -/
theorem refers_behind {α β : Type} {first : List Sql.ColumnRef} {refs : α → List Sql.ColumnRef}
    {all : β → List Sql.ColumnRef} {m : LowerM α} {make : α → β}
    (provided : ∀ ref ∈ first, c.source.Provides c.model ref) (later : Refers c refs m)
    (split : ∀ a, all (make a) = first ++ refs a) :
    Refers c all (do let a ← m; return make a) := by
  apply Allocates.bind later
  intro a gs rest
  apply Allocates.pure
  rw [split]
  exact List.forall_mem_append.mpr ⟨provided, rest⟩

mutual

theorem lowerExpr_refers (h : Hint) : (e : Expr) → Refers c Sql.Expr.references (lowerExpr c h e)
  | .literal _ v type => lowerLiteral_refers c h v type
  | .parameter _ o => lowerParameter_refers c h o
  | .path _ source => lowerPath_refers c source
  | .call node function arguments implied notes => by
    simp only [lowerExpr]
    apply Silent.bind (.runTyping _)
    intro type
    apply Allocates.bind (lowerArguments_refers function implied arguments 0 arguments)
    intro lowered gs provided
    apply Silent.bind (checkLowered_silent function lowered)
    intro _
    apply Silent.bind (callMapping_silent c function type lowered)
    intro mapping
    exact .pure provided
  | .tuple _ elements _ => by
    simp only [lowerExpr]
    apply Allocates.bind (lowerElements_refers h 0 elements)
    intro lowered gs provided
    exact .pure provided

theorem lowerArguments_refers (function : Callee) (implied : Option ExprType) (all : List Expr)
    (index : Nat) : (es : List Expr) →
    Refers c Sql.Expr.referencesOf (lowerArguments c function implied all index es)
  | [] => .pure (by simp [Sql.Expr.referencesOf])
  | e :: rest => by
    simp only [lowerArguments]
    apply Allocates.bind (lowerExpr_refers (argumentHint c function implied all index) e)
    intro first gs provided
    exact refers_behind c provided (lowerArguments_refers function implied all (index + 1) rest) fun _ => rfl

theorem lowerElements_refers (h : Hint) (index : Nat) :
    (es : List Expr) → Refers c Sql.Expr.referencesOf (lowerElements c h index es)
  | [] => .pure (by simp [Sql.Expr.referencesOf])
  | e :: rest => by
    simp only [lowerElements]
    apply Allocates.bind (lowerExpr_refers (elementHint h index) e)
    intro first gs provided
    exact refers_behind c provided (lowerElements_refers h (index + 1) rest) fun _ => rfl

end

theorem lowerExpansions_refers (os : List Occurrence) :
    Refers c Sql.Expr.referencesOf (lowerExpansions c h os) := by
  induction os with
  | nil => exact .pure (by simp [Sql.Expr.referencesOf])
  | cons o rest ih =>
    apply Allocates.bind (lowerParameter_refers c h o)
    intro first gs provided
    exact refers_behind c provided ih fun _ => rfl

theorem lowerItems_refers (items : List Expr) :
    Refers c Sql.Expr.referencesOf (lowerItems c h items) := by
  induction items with
  | nil => exact .pure (by simp [Sql.Expr.referencesOf])
  | cons e rest ih =>
    rw [lowerItems]
    apply Allocates.bind (lowerExpr_refers c h e)
    intro first gs provided
    apply Allocates.bind (lowerExpansions_refers c h (expansionsOf c e))
    intro expanded more providedBehind
    have both := List.forall_mem_append.mpr ⟨provided, providedBehind⟩
    refine refers_behind c both ih fun later => ?_
    simp [Sql.Expr.referencesOf_eq_flatMap]

/-- The references of the operands of a predicate. -/
abbrev operandReferences (es : List Sql.Expr) : List Sql.ColumnRef := es.flatMap Sql.Expr.references

mutual

theorem lowerPredicate_refers : (p : Predicate) →
    Refers c (fun lowered => operandReferences lowered.operands) (lowerPredicate c p)
  | .comparison lhs _ rhs => by
    simp only [lowerPredicate]
    apply Allocates.bind (lowerExpr_refers c (typeHint c rhs) lhs)
    intro l gs provided
    refine refers_behind c provided (lowerExpr_refers c (typeHint c lhs) rhs) fun r => ?_
    simp [Sql.Predicate.operands]
  | .inList test items _ => by
    simp only [lowerPredicate]
    apply Allocates.bind (lowerExpr_refers c (firstItemHint c items) test)
    intro t gs provided
    refine refers_behind c provided (lowerItems_refers c (typeHint c test) items) fun lowered => ?_
    simp [Sql.Predicate.operands, Sql.Expr.referencesOf_eq_flatMap]
  | .and children | .or children => by
    simp only [lowerPredicate]
    apply Allocates.bind (lowerPredicates_refers children)
    intro lowered gs provided
    exact .pure provided
  | .not inner => by
    simp only [lowerPredicate]
    apply Allocates.bind (lowerPredicate_refers inner)
    intro lowered gs provided
    exact .pure provided
  | .isNull e _ => by
    simp only [lowerPredicate]
    apply Allocates.bind (lowerExpr_refers c noHint e)
    intro lowered gs provided
    apply Allocates.pure
    simpa [Sql.Predicate.operands] using provided

theorem lowerPredicates_refers : (ps : List Predicate) →
    Refers c (fun lowered => operandReferences (Sql.Predicate.operandsOf lowered)) (lowerPredicates c ps)
  | [] => .pure (by simp [Sql.Predicate.operandsOf])
  | p :: rest => by
    simp only [lowerPredicates]
    apply Allocates.bind (lowerPredicate_refers p)
    intro first gs provided
    refine refers_behind c provided (lowerPredicates_refers rest) fun later => ?_
    simp [Sql.Predicate.operandsOf]

end

theorem lowerRestriction_refers (restriction : Option Predicate) :
    Refers c (fun lowered => operandReferences (Sql.restrictionOperands lowered))
      (lowerRestriction c restriction) := by
  cases restriction with
  | none => exact .pure (by simp [Sql.restrictionOperands])
  | some p =>
    apply Allocates.bind (lowerPredicate_refers c p)
    intro lowered gs provided
    exact .pure provided

theorem lowerRow_refers (mappings : List (Option Mapping)) (index : Nat) (row : List Expr) :
    Refers c operandReferences (lowerRow c mappings index row) := by
  induction row generalizing index with
  | nil => exact .pure (by simp)
  | cons cell rest ih =>
    rw [lowerRow]
    apply Allocates.bind (lowerExpr_refers c (pure (mappings[index]?).join) cell)
    intro first gs provided
    exact refers_behind c provided (ih (index + 1)) fun _ => rfl

theorem lowerRows_refers (mappings : List (Option Mapping)) (rows : List (List Expr)) :
    Refers c (fun lowered => operandReferences lowered.flatten) (lowerRows c mappings rows) := by
  induction rows with
  | nil => exact .pure (by simp)
  | cons row rest ih =>
    apply Allocates.bind (lowerRow_refers c mappings 0 row)
    intro first gs provided
    refine refers_behind c provided ih fun later => ?_
    simp

mutual

theorem references_leaves : (e : Sql.Expr) → Sql.Expr.referencesOf e.leaves = e.references
  | .tuple elements => references_leavesOf elements
  | .column _ | .literal .. | .parameter _ | .call .. => List.append_nil _

theorem references_leavesOf : (es : List Sql.Expr) →
    Sql.Expr.referencesOf (Sql.Expr.leavesOf es) = Sql.Expr.referencesOf es
  | [] => rfl
  | e :: rest => by
    have first := references_leaves e
    have later := references_leavesOf rest
    rw [Sql.Expr.referencesOf_eq_flatMap] at first later
    rw [Sql.Expr.leavesOf, Sql.Expr.referencesOf_eq_flatMap, List.flatMap_append, first, later,
      Sql.Expr.referencesOf]

end

theorem lowerSelections_refers (position : Nat) (items : List Selection) :
    Refers c (fun lowered => operandReferences (lowered.1.map Sql.Selection.expr))
      (lowerSelections c position items) := by
  induction items generalizing position with
  | nil => exact .pure (by simp)
  | cons item rest ih =>
    apply Allocates.bind (lowerExpr_refers c noHint item.expr)
    intro lowered gs provided
    apply Silent.bind (itemResult_silent position item lowered)
    intro result
    apply Allocates.bind (ih (position + lowered.leaves.length))
    rintro ⟨selections, results⟩ more providedLater
    apply Allocates.pure
    simp only [List.map_append, exprs_numberSelections, operandReferences, List.flatMap_append,
      ← Sql.Expr.referencesOf_eq_flatMap lowered.leaves, references_leaves]
    exact List.forall_mem_append.mpr ⟨provided, providedLater⟩

theorem lowerAssignments_refers (assignments : List Assignment) :
    Refers c (fun lowered => lowered.flatMap Sql.Assignment.columns ++
      operandReferences (lowered.map Sql.Assignment.value)) (lowerAssignments c assignments) := by
  induction assignments with
  | nil => exact .pure (by simp)
  | cons a rest ih =>
    apply Silent.lookup_bind
    intro target resolved
    apply Allocates.bind (lowerExpr_refers c (pure (some target.mapping)) a.value)
    intro value gs provided
    apply Allocates.bind ih
    intro later more providedLater
    have columns := provides_columnRefs resolved
    apply Allocates.pure
    intro ref mem
    simp only [List.flatMap_cons, List.map_cons, List.mem_append] at mem
    rcases mem with (target | targets) | (read | reads)
    · exact columns ref target
    · exact providedLater ref (List.mem_append_left _ targets)
    · exact provided ref read
    · exact providedLater ref (List.mem_append_right _ reads)

end

/-! The from clause is built of groups without joins, whose rows refer to the groups before them. -/

/-- A scope whose groups have no joins and refer to columns that its from clause provides. -/
structure Scope.Founded (c : Scope) : Prop where
  flat : c.source.members = c.source.roots
  provided : ∀ ref ∈ operandReferences (c.source.roots.flatMap Sql.TableGroup.operands),
    c.source.Provides c.model ref

theorem Scope.Founded.add {c : Scope} {group : Sql.TableGroup} (founded : c.Founded)
    (joinless : group.members = [group])
    (provided : ∀ ref ∈ operandReferences group.operands, c.source.Provides c.model ref) :
    (c.add group).Founded where
  flat := by
    rw [Scope.add, Sql.FromClause.members_add, founded.flat, joinless]
    rfl
  provided := by
    have grown : c.source.roots <+: (c.add group).source.roots := List.prefix_append ..
    intro ref mem
    simp only [Scope.add, Sql.FromClause.add, List.flatMap_append, List.mem_append] at mem
    rcases mem with earlier | own
    · exact (founded.provided ref earlier).of_grown grown
    · rw [List.flatMap_singleton] at own
      exact (provided ref own).of_grown grown

section
variable {c : Scope}

theorem rootTable_founds (founded : c.Founded) (root : Root) :
    Allocates (fun entered _ => entered.2.model = c.model ∧ entered.2.Founded ∧
      ∃ name, entered.2.source = c.source.add (.entity root.path name entered.1)) (rootTable c root) := by
  apply Silent.bind (.liftMapping _)
  intro entity
  apply Allocates.pure
  exact ⟨rfl, founded.add rfl (by simp [Sql.TableGroup.operands]), entity.name, rfl⟩

/-- A step into a scope for the same model whose groups are founded too. -/
abbrev Founds (c : Scope) (m : LowerM Scope) : Prop :=
  Allocates (fun entered _ => entered.model = c.model ∧ entered.Founded) m

theorem addRoots_founds (founded : c.Founded) (roots : List Root) : Founds c (addRoots c roots) := by
  induction roots generalizing c with
  | nil => exact .pure ⟨rfl, founded⟩
  | cons root rest ih =>
    apply Allocates.bind (rootTable_founds founded root)
    rintro ⟨table, entered⟩ gs ⟨model, founded, -⟩
    rw [← show entered.model = c.model from model]
    exact ih founded

theorem addValues_founds (founded : c.Founded) (roots : List ValuesRoot) :
    Founds c (addValues c roots) := by
  induction roots generalizing c with
  | nil => exact .pure ⟨rfl, founded⟩
  | cons root rest ih =>
    apply Silent.bind (columnMappings_silent c root.rows 0 root.columns)
    intro mappings
    apply Allocates.bind (lowerRows_refers c mappings root.rows)
    intro rows gs provided
    exact ih (founded.add rfl provided)

/-- A lowered statement and its from clause: the groups have no joins, the statement is over each of them,
and they provide what it refers to. -/
structure Rests (m : Model) (s : Sql.Statement) (f : Sql.FromClause) : Prop where
  flat : f.members = f.roots
  written : ∀ group ∈ f.roots, s.Over group
  provided : ∀ ref ∈ s.references, f.Provides m ref

theorem lowerSelect_rests (founded : c.Founded) (s : Select) :
    Allocates (fun lowered _ => Rests c.model lowered.1 lowered.2) (lowerSelect c s) := by
  apply Allocates.bind (addRoots_founds founded s.roots)
  rintro rooted gs ⟨model, founded⟩
  apply Allocates.bind (addValues_founds founded s.values)
  rintro full more ⟨modelFull, founded⟩
  apply Allocates.bind (lowerSelections_refers full 0 s.selections)
  rintro ⟨selections, results⟩ selected provided
  apply Allocates.bind (lowerRestriction_refers full s.restriction)
  intro restriction restricted providedLast
  rw [show c.model = full.model from (modelFull.trans model).symm]
  refine .pure ⟨founded.flat, fun group mem => mem, fun ref mem => ?_⟩
  simp only [Sql.Statement.references, Sql.Statement.targets, Sql.Statement.operands,
    List.flatMap_append, List.nil_append, List.mem_append] at mem
  rcases mem with (selection | row) | condition
  · exact provided ref selection
  · exact founded.provided ref row
  · exact providedLast ref condition

/-- A table entered on its own is all there is to write a statement over. -/
theorem roots_of_entered {entered : Scope} {path : Path} {name : String} {table : Sql.TableRef}
    (empty : c.source = .empty) (added : entered.source = c.source.add (.entity path name table)) :
    ∀ group ∈ entered.source.roots, ∃ path entity, group = .entity path entity table := by
  intro group mem
  rw [added, empty] at mem
  exact ⟨path, name, List.mem_singleton.mp mem⟩

theorem lowerUpdate_rests (empty : c.source = .empty) (founded : c.Founded) (u : Update) :
    Allocates (fun lowered _ => Rests c.model lowered.1 lowered.2) (lowerUpdate c u) := by
  apply Allocates.bind (rootTable_founds founded u.target)
  rintro ⟨table, entered⟩ gs ⟨model, founded, name, added⟩
  apply Allocates.bind (lowerAssignments_refers entered u.assignments)
  intro assignments assigned provided
  apply Allocates.bind (lowerRestriction_refers entered u.restriction)
  intro restriction restricted providedLast
  rw [← show entered.model = c.model from model]
  refine .pure ⟨founded.flat, roots_of_entered empty added, fun ref mem => ?_⟩
  simp only [Sql.Statement.references, Sql.Statement.targets, Sql.Statement.operands,
    List.flatMap_append, ← List.append_assoc] at mem
  rcases List.mem_append.mp mem with assignment | condition
  · exact provided ref assignment
  · exact providedLast ref condition

theorem lowerDelete_rests (empty : c.source = .empty) (founded : c.Founded) (d : Delete) :
    Allocates (fun lowered _ => Rests c.model lowered.1 lowered.2) (lowerDelete c d) := by
  apply Allocates.bind (rootTable_founds founded d.target)
  rintro ⟨table, entered⟩ gs ⟨model, founded, name, added⟩
  apply Allocates.bind (lowerRestriction_refers entered d.restriction)
  intro restriction restricted provided
  rw [← show entered.model = c.model from model]
  exact .pure ⟨founded.flat, roots_of_entered empty added, provided⟩

theorem lowerParts_rests (empty : c.source = .empty) (s : Statement) :
    Allocates (fun lowered _ => Rests c.model lowered.1 lowered.2) (lowerParts c s) := by
  have founded : c.Founded := by
    constructor
    · rw [empty]
      rfl
    · simp [empty, Sql.FromClause.empty]
  cases s with
  | select s => exact lowerSelect_rests founded s
  | update u => exact lowerUpdate_rests empty founded u
  | delete d => exact lowerDelete_rests empty founded d

end

theorem lowerStatement_rests {model : Model} {strict : Bool}
    {expansions : OccurrenceId → List Occurrence} {s : Statement} {w w' : Workspace} {l : Lowered}
    (lowered : lowerStatement model strict expansions s w = .ok l w') :
    Rests model l.statement l.source := by
  obtain ⟨p, run, -⟩ := lowerStatement_ok lowered
  obtain ⟨added, -, rests⟩ := lowerParts_rests rfl s run
  exact rests

/-- Every column that a lowered statement refers to, wherever it does, is a column of an entity or of inline
rows that the statement is written over, and is referred to by the name given there. -/
theorem references_provided {model : Model} {strict : Bool}
    {expansions : OccurrenceId → List Occurrence} {s : Statement} {w w' : Workspace} {l : Lowered}
    (lowered : lowerStatement model strict expansions s w = .ok l w') :
    ∀ ref ∈ l.statement.references, ∃ group ∈ l.source.roots,
      l.statement.Over group ∧ group.pieces <:+: l.statement.pieces ∧
        ref.qualifier = group.qualifier ∧ group.Provides model ref.column := by
  have rests := lowerStatement_rests lowered
  intro ref mem
  obtain ⟨group, member, named, column⟩ := rests.provided ref mem
  rw [rests.flat] at member
  have written := rests.written group member
  exact ⟨group, member, written, written.infix_pieces, named, column⟩

/-! A select over people, orders and inline rows, whose cells read ages: a component of an address beside
a declared column in a call, and orders compared with the people they are of. -/
namespace Joined

def person : Path := Model.Sample.people

def order : Path := ⟨["o"], by simp, by decide⟩

def limits : Path := ⟨["limits"], by simp, by decide⟩

def city : PathRef := Model.Sample.cityPath

def age : PathRef := ⟨⟨["p", "age"], by simp, by decide⟩, .integer⟩

def limit : PathRef := ⟨⟨["limits", "limit"], by simp, by decide⟩, .integer⟩

def customer : PathRef := ⟨⟨["o", "customer"], by simp, by decide⟩, .entity⟩

def latest : Callee := ⟨⟨"greatest", .highest, none, none, .standard⟩, .empty⟩

def statement : Statement := .select {
  roots := [⟨"Person", person⟩, ⟨"Order", order⟩]
  values := [⟨limits, ["limit"], [[.path 0 age]]⟩]
  selections := [⟨.tuple 3 [.path 1 city, .call 2 latest [.path 4 limit, .path 0 age] none .none] .none, none⟩]
  restriction := some (.comparison (.path 5 customer) .equal (.path 6 ⟨person, .entity⟩)) }

theorem columns_are_read_by_name :
    ∃ (l : Lowered) (w : Workspace),
      lowerStatement Model.Sample.model true (fun _ => []) statement .empty = .ok l w ∧
        l.statement.references.map (fun ref => (ref.qualifier, ref.column)) =
          [("p", "city"), ("limits", "limit"), ("p", "age"), ("p", "age"), ("o", "customer_id"), ("p", "id")] ∧
        ∀ ref ∈ l.statement.references, ∃ group ∈ l.source.roots,
          l.statement.Over group ∧ group.pieces <:+: l.statement.pieces ∧
            ref.qualifier = group.qualifier ∧ group.Provides Model.Sample.model ref.column := by
  have lowered : lowerStatement Model.Sample.model true (fun _ => []) statement .empty = .ok _ _ := rfl
  exact ⟨_, _, lowered, rfl, references_provided lowered⟩

end Joined

end SemanticQuery.Lowering
