import SemanticQuery.Proofs.Lowering.Allocation
import SemanticQuery.Proofs.Query.Resolution
import SemanticQuery.Lowering.Statement

/-! What lowering asks for. It resolves calls among the nodes of what it lowers and no others, whether it
fails or not, and where it succeeds it has resolved all of them. -/
namespace SemanticQuery.Lowering
open Query

/-- A lowering step that asks only for types of some nodes, and for those of the calls among others. -/
abbrev Queries (N nodes : List Expr) {α : Type} (m : LowerM α) : Prop := Asks N nodes Progress.work m

/-- A hint that asks only for types of some nodes. -/
abbrev HintQueries (N : List Expr) (h : Hint) : Prop := Inquires N h

variable {N nodes more : List Expr} {α β : Type}

namespace Queries

/-- What follows a step that asks for nothing in particular. -/
theorem seq {m : LowerM α} {f : α → LowerM β} (first : Queries N [] m)
    (later : ∀ a, Queries N nodes (f a)) : Queries N nodes (m >>= f) := Asks.bind first later

/-- All has been asked for before the last steps. -/
theorem last {m : LowerM α} {f : α → LowerM β} (first : Queries N nodes m)
    (later : ∀ a, Queries N [] (f a)) : Queries N nodes (m >>= f) :=
  (Asks.bind first later).mono (List.Subset.refl N) (List.subset_append_left _ _)

/-- The last step only puts together what was made. -/
theorem map {m : LowerM α} {f : α → β} (first : Queries N nodes m) :
    Queries N nodes (do let a ← m; return f a) := first.last fun a => .pure (f a)

theorem runTyping {m : TypingM α} (asks : Asks N nodes id m) : Queries N nodes (runTyping m) := by
  intro p
  have asking := asks p.work
  simp only [Lowering.runTyping]
  cases ran : m p.work with
  | ok a w =>
    rw [ran] at asking
    cases asking with
    | ok asked known => exact .ok asked known
  | error e w =>
    rw [ran] at asking
    cases asking with
    | error asked => exact .error asked

theorem runHint {h : Hint} (hint : HintQueries N h) : Queries N [] (runHint h) := fun p =>
  .ok (hint p.work) (by simp [Workspace.Knows])

theorem liftMapping (x : Except MappingError α) : Queries N [] (liftMapping x) := by
  cases x with
  | ok a => exact .pure a
  | error e => exact Asks.throw _

theorem liftFunction (x : Except FunctionError α) : Queries N [] (liftFunction x) := by
  cases x with
  | ok a => exact .pure a
  | error e => exact Asks.throw _

theorem allocate (id : OccurrenceId) (types : List (Option ColumnType)) :
    Queries N [] (allocate id types) := fun p =>
  .ok (.refl N p.work) (by simp [Workspace.Knows])

theorem report {event : Event} (other : event.resolved? = none) : Queries N [] (report event) := fun p =>
  .ok (.report N p.work other) (by simp [Workspace.Knows])

end Queries

/-! Hints. -/

namespace HintQueries

theorem pure (m : Option Mapping) : HintQueries N (pure m) := fun w => .refl N w

theorem elementHint {h : Hint} (hint : HintQueries N h) (index : Nat) :
    HintQueries N (elementHint h index) := by
  intro w
  have asked := hint w
  simp only [Lowering.elementHint, Bind.bind, StateT.bind]
  cases ran : h w with
  | mk m w' =>
    rw [ran] at asked
    cases m with
    | none | some m => exact asked

end HintQueries

section
variable (apart : Apart N) (c : Scope)

include apart

/-- Whoever asks for a type quietly asks for it all the same. -/
theorem quietly_asked {e : Expr} (members : ∀ d ∈ e.nodes, d ∈ N) (w : Workspace) :
    Asked N w (quietly e.type w).2 := by
  have asked := e.type_asked apart members w
  unfold quietly
  cases ran : e.type w with
  | ok | error =>
    rw [ran] at asked
    exact asked

theorem typeHint_queries {e : Expr} (members : ∀ d ∈ e.nodes, d ∈ N) :
    HintQueries N (typeHint c e) := by
  intro w
  have asked := quietly_asked apart members w
  simp only [typeHint, Bind.bind, StateT.bind]
  cases ran : quietly e.type w with
  | mk type w' =>
    rw [ran] at asked
    cases type with
    | none | some type => exact asked

theorem argumentHint_queries (function : Callee) (implied : Option ExprType) {arguments : List Expr}
    (members : ∀ d ∈ Expr.nodesOf arguments, d ∈ N) (index : Nat) :
    HintQueries N (argumentHint c function implied arguments index) := by
  unfold argumentHint
  split
  · exact .pure none
  · exact .run (fun place => .answered (Expr.typeAmong_asks apart arguments members place |>.mono members
      (List.Subset.refl _))) _

theorem firstItemHint_queries {items : List Expr} (members : ∀ d ∈ Expr.nodesOf items, d ∈ N) :
    HintQueries N (firstItemHint c items) := by
  cases items with
  | nil => exact .pure none
  | cons e rest =>
    rw [Expr.nodesOf, List.forall_mem_append] at members
    exact typeHint_queries apart c members.1

end

/-! Expressions. -/

section
variable (c : Scope) {h : Hint} (hint : HintQueries N h)

include hint

theorem lowerLiteral_queries (v : Value) (type : ExprType) : Queries N [] (lowerLiteral c h v type) := by
  have written (m : Mapping) : Queries N [] (do
      let values ← liftMapping (m.decompose v)
      return Sql.Expr.ofList (values.map fun cv => .literal cv.value cv.type)) :=
    Queries.map (.liftMapping _)
  refine Queries.seq (.liftMapping (c.mapping type)) fun known => ?_
  cases known with
  | some m => exact written m
  | none =>
    refine Queries.seq (.runHint hint) fun hinted => ?_
    cases hinted with
    | none => exact Asks.throw _
    | some m => exact written m

theorem lowerHinted_queries (o : Occurrence) : Queries N [] (lowerHinted c h o) := by
  refine Queries.seq (.runHint hint) fun mapping => ?_
  cases mapping with
  | some m => exact Queries.map (.allocate _ _)
  | none =>
    cases c.strict with
    | true => exact Asks.throw _
    | false => exact Queries.map (.allocate _ _)

theorem lowerParameter_queries (o : Occurrence) : Queries N [] (lowerParameter c h o) := by
  unfold lowerParameter
  cases o.type? with
  | none => exact lowerHinted_queries c hint o
  | some type =>
    refine Queries.seq (.liftMapping (c.mapping type)) fun own => ?_
    cases own with
    | none => exact lowerHinted_queries c hint o
    | some m => exact Queries.map (.allocate _ _)

end

section
variable (c : Scope)

theorem lowerPath_queries (source : PathRef) : Queries N [] (lowerPath c source) := by
  unfold lowerPath
  split
  · exact Asks.throw _
  · exact Queries.map (.liftMapping _)

theorem resultMapping_queries (function : String) (type : Option ExprType) :
    Queries N [] (resultMapping c function type) := by
  unfold resultMapping
  split
  · exact .pure _
  · split
    · exact .pure _
    · exact Queries.map (.report rfl)

theorem callMapping_queries (function : Callee) (type : Option ExprType)
    (arguments : List Sql.Expr) : Queries N [] (callMapping c function type arguments) := by
  unfold callMapping
  split
  · exact .pure _
  · exact Inquiry.run_holds .pure (fun _ _ => (resultMapping_queries c _ _).seq) _

theorem checkLowered_queries (function : Callee) (arguments : List Sql.Expr) :
    Queries N [] (checkLowered function arguments) := by
  unfold checkLowered
  split
  · exact .liftFunction _
  · exact .pure _

end

mutual

theorem lowerExpr_queries (apart : Apart N) (c : Scope) {h : Hint} (hint : HintQueries N h) :
    (e : Expr) → (∀ d ∈ e.nodes, d ∈ N) → Queries N e.nodes (lowerExpr c h e)
  | .literal _ v type, _ => (lowerLiteral_queries c hint v type).cons rfl
  | .parameter _ o, _ => (lowerParameter_queries c hint o).cons rfl
  | .path _ source, _ => (lowerPath_queries c source).cons rfl
  | .call node function arguments implied notes, members => by
    have below : ∀ d ∈ Expr.nodesOf arguments, d ∈ N := fun d mem => members d (List.mem_cons_of_mem _ mem)
    have typed := (Expr.type_asks apart _ members).mono members (List.Subset.refl _)
    simp only [lowerExpr]
    refine Asks.bind (Queries.runTyping typed) fun type => ?_
    refine (lowerArguments_queries apart c function implied below 0 arguments below).last fun lowered => ?_
    refine Queries.seq (checkLowered_queries function lowered) fun _ => ?_
    exact Queries.map (callMapping_queries c function type lowered)
  | .tuple _ elements _, members => by
    have below : ∀ d ∈ Expr.nodesOf elements, d ∈ N := fun d mem => members d (List.mem_cons_of_mem _ mem)
    simp only [lowerExpr]
    exact (lowerElements_queries apart c hint 0 elements below).map.cons rfl

theorem lowerArguments_queries (apart : Apart N) (c : Scope) (function : Callee)
    (implied : Option ExprType) {all : List Expr} (whole : ∀ d ∈ Expr.nodesOf all, d ∈ N) (index : Nat) :
    (es : List Expr) → (∀ d ∈ Expr.nodesOf es, d ∈ N) →
    Queries N (Expr.nodesOf es) (lowerArguments c function implied all index es)
  | [], _ => .pure _
  | e :: rest, members => by
    rw [Expr.nodesOf, List.forall_mem_append] at members
    simp only [lowerArguments, Expr.nodesOf]
    have hint := argumentHint_queries apart c function implied whole index
    refine (lowerExpr_queries apart c hint e members.1).bind fun _ => ?_
    exact (lowerArguments_queries apart c function implied whole (index + 1) rest members.2).map

theorem lowerElements_queries (apart : Apart N) (c : Scope) {h : Hint} (hint : HintQueries N h)
    (index : Nat) : (es : List Expr) → (∀ d ∈ Expr.nodesOf es, d ∈ N) →
    Queries N (Expr.nodesOf es) (lowerElements c h index es)
  | [], _ => .pure _
  | e :: rest, members => by
    rw [Expr.nodesOf, List.forall_mem_append] at members
    simp only [lowerElements, Expr.nodesOf]
    refine (lowerExpr_queries apart c (hint.elementHint index) e members.1).bind fun _ => ?_
    exact (lowerElements_queries apart c hint (index + 1) rest members.2).map

end

/-! Predicates. -/

theorem lowerExpansions_queries (c : Scope) {h : Hint} (hint : HintQueries N h) (os : List Occurrence) :
    Queries N [] (lowerExpansions c h os) := by
  induction os with
  | nil => exact .pure _
  | cons o rest ih => exact Queries.seq (lowerParameter_queries c hint o) fun _ => Queries.map ih

theorem lowerItems_queries (apart : Apart N) (c : Scope) {h : Hint} (hint : HintQueries N h)
    (items : List Expr) (members : ∀ d ∈ Expr.nodesOf items, d ∈ N) :
    Queries N (Expr.nodesOf items) (lowerItems c h items) := by
  induction items with
  | nil => exact .pure _
  | cons e rest ih =>
    rw [Expr.nodesOf, List.forall_mem_append] at members
    rw [lowerItems, Expr.nodesOf]
    refine (lowerExpr_queries apart c hint e members.1).bind fun _ => ?_
    exact Queries.seq (lowerExpansions_queries c hint _) fun _ => (ih members.2).map

mutual

theorem lowerPredicate_queries (apart : Apart N) (c : Scope) : (p : Predicate) →
    (∀ d ∈ p.nodes, d ∈ N) → Queries N p.nodes (lowerPredicate c p)
  | .comparison lhs operator rhs, members => by
    rw [Predicate.nodes, List.forall_mem_append] at members
    simp only [lowerPredicate, Predicate.nodes]
    refine (lowerExpr_queries apart c (typeHint_queries apart c members.2) lhs members.1).bind fun _ => ?_
    exact (lowerExpr_queries apart c (typeHint_queries apart c members.1) rhs members.2).map
  | .inList test items negated, members => by
    rw [Predicate.nodes, List.forall_mem_append] at members
    simp only [lowerPredicate, Predicate.nodes]
    have hint := firstItemHint_queries apart c members.2
    refine (lowerExpr_queries apart c hint test members.1).bind fun _ => ?_
    exact (lowerItems_queries apart c (typeHint_queries apart c members.1) items members.2).map
  | .and children, members | .or children, members => by
    simp only [lowerPredicate]
    exact (lowerPredicates_queries apart c children members).map
  | .not inner, members => by
    simp only [lowerPredicate, Predicate.nodes]
    exact (lowerPredicate_queries apart c inner members).map
  | .isNull e negated, members => by
    simp only [lowerPredicate]
    exact (lowerExpr_queries apart c (.pure none) e members).map

theorem lowerPredicates_queries (apart : Apart N) (c : Scope) : (ps : List Predicate) →
    (∀ d ∈ Predicate.nodesOf ps, d ∈ N) → Queries N (Predicate.nodesOf ps) (lowerPredicates c ps)
  | [], _ => .pure _
  | p :: rest, members => by
    rw [Predicate.nodesOf, List.forall_mem_append] at members
    simp only [lowerPredicates, Predicate.nodesOf]
    refine (lowerPredicate_queries apart c p members.1).bind fun _ => ?_
    exact (lowerPredicates_queries apart c rest members.2).map

end

theorem lowerRestriction_queries (apart : Apart N) (c : Scope) (restriction : Option Predicate)
    (members : ∀ d ∈ restrictionNodes restriction, d ∈ N) :
    Queries N (restrictionNodes restriction) (lowerRestriction c restriction) := by
  cases restriction with
  | none => exact .pure _
  | some p => exact (lowerPredicate_queries apart c p members).map

/-! Statements, part by part. -/

theorem rootTable_queries (c : Scope) (root : Root) : Queries N [] (rootTable c root) :=
  Queries.map (.liftMapping _)

theorem addRoots_queries (c : Scope) (roots : List Root) : Queries N [] (addRoots c roots) := by
  induction roots generalizing c with
  | nil => exact .pure _
  | cons root rest ih => exact Queries.seq (rootTable_queries c root) fun _ => ih _

section
variable (apart : Apart N)

include apart

theorem cellTypes_queries (index : Nat) (rows : List (List Expr))
    (members : ∀ d ∈ rows.flatMap Expr.nodesOf, d ∈ N) : Queries N [] (cellTypes index rows) := by
  induction rows with
  | nil => exact .pure _
  | cons row rest ih =>
    rw [List.flatMap_cons, List.forall_mem_append] at members
    have behind (type : Option ExprType) : Queries N [] (do
        let later ← cellTypes index rest
        return type :: later) := (ih members.2).map
    unfold cellTypes
    cases cell : row[index]? with
    | none => exact behind none
    | some e =>
      have below := Expr.forall_mem_nodesOf.mp members.1 e (List.mem_of_getElem? cell)
      have typed := (e.type_asks apart below).mono below (List.nil_subset _)
      exact Queries.seq (.runTyping typed) behind

omit apart in
theorem singleColumn_queries (column : String) (mapping : Option Mapping) :
    Queries N [] (singleColumn column mapping) := by
  cases mapping with
  | none => exact .pure _
  | some m =>
    by_cases single : m.columnCount = 1
    · simp only [singleColumn, if_pos single]
      exact .pure _
    · simp only [singleColumn, if_neg single]
      exact Asks.throw _

theorem columnMappings_queries (c : Scope) (rows : List (List Expr))
    (members : ∀ d ∈ rows.flatMap Expr.nodesOf, d ∈ N) (index : Nat) (columns : List String) :
    Queries N [] (columnMappings c rows index columns) := by
  induction columns generalizing index with
  | nil => exact .pure _
  | cons column rest ih =>
    have first : Queries N [] (columnMapping c rows index column) := by
      refine Queries.seq (cellTypes_queries apart index rows members) fun types => ?_
      cases highestType types with
      | some type => exact Queries.seq (.liftMapping (c.mapping type)) (singleColumn_queries column)
      | none => exact singleColumn_queries column none
    exact Queries.seq first fun _ => (ih (index + 1)).map

theorem lowerRow_queries (c : Scope) (mappings : List (Option Mapping)) (index : Nat) (row : List Expr)
    (members : ∀ d ∈ Expr.nodesOf row, d ∈ N) :
    Queries N (Expr.nodesOf row) (lowerRow c mappings index row) := by
  induction row generalizing index with
  | nil => exact .pure _
  | cons e rest ih =>
    rw [Expr.nodesOf, List.forall_mem_append] at members
    rw [lowerRow, Expr.nodesOf]
    refine (lowerExpr_queries apart c (.pure _) e members.1).bind fun _ => ?_
    exact (ih (index + 1) members.2).map

theorem lowerRows_queries (c : Scope) (mappings : List (Option Mapping)) (rows : List (List Expr))
    (members : ∀ d ∈ rows.flatMap Expr.nodesOf, d ∈ N) :
    Queries N (rows.flatMap Expr.nodesOf) (lowerRows c mappings rows) := by
  induction rows with
  | nil => exact .pure _
  | cons row rest ih =>
    rw [List.flatMap_cons, List.forall_mem_append] at members
    rw [List.flatMap_cons]
    exact (lowerRow_queries apart c mappings 0 row members.1).bind fun _ => (ih members.2).map

theorem addValues_queries (c : Scope) (roots : List ValuesRoot)
    (members : ∀ d ∈ roots.flatMap (fun root => root.rows.flatMap Expr.nodesOf), d ∈ N) :
    Queries N (roots.flatMap fun root => root.rows.flatMap Expr.nodesOf) (addValues c roots) := by
  induction roots generalizing c with
  | nil => exact .pure _
  | cons root rest ih =>
    rw [List.flatMap_cons, List.forall_mem_append] at members
    rw [List.flatMap_cons]
    refine Queries.seq (columnMappings_queries apart c root.rows members.1 0 root.columns) fun _ => ?_
    exact (lowerRows_queries apart c _ root.rows members.1).bind fun _ => ih _ members.2

theorem itemResult_queries (position : Nat) (item : Selection) (members : ∀ d ∈ item.expr.nodes, d ∈ N)
    (lowered : Sql.Expr) : Queries N [] (itemResult position item lowered) := by
  unfold itemResult
  split
  · exact Queries.map (.runTyping ((item.expr.type_asks apart members).mono members (List.nil_subset _)))
  · exact .pure _

theorem lowerSelections_queries (c : Scope) (position : Nat) (items : List Selection)
    (members : ∀ d ∈ items.flatMap (fun item => item.expr.nodes), d ∈ N) :
    Queries N (items.flatMap fun item => item.expr.nodes) (lowerSelections c position items) := by
  induction items generalizing position with
  | nil => exact .pure _
  | cons item rest ih =>
    rw [List.flatMap_cons, List.forall_mem_append] at members
    rw [List.flatMap_cons]
    refine (lowerExpr_queries apart c (.pure none) item.expr members.1).bind fun lowered => ?_
    refine Queries.seq (itemResult_queries apart position item members.1 lowered) fun _ => ?_
    exact (ih _ members.2).map

theorem lowerAssignments_queries (c : Scope) (assignments : List Assignment)
    (members : ∀ d ∈ assignments.flatMap (fun a => a.value.nodes), d ∈ N) :
    Queries N (assignments.flatMap fun a => a.value.nodes) (lowerAssignments c assignments) := by
  induction assignments with
  | nil => exact .pure _
  | cons a rest ih =>
    rw [List.flatMap_cons, List.forall_mem_append] at members
    rw [List.flatMap_cons]
    refine Queries.seq (.liftMapping _) fun target => ?_
    exact (lowerExpr_queries apart c (.pure _) a.value members.1).bind fun _ => (ih members.2).map

theorem lowerParts_queries (c : Scope) (s : Statement) (members : ∀ d ∈ s.nodes, d ∈ N) :
    Queries N s.nodes (lowerParts c s) := by
  cases s with
  | select s =>
    simp only [Statement.nodes, List.forall_mem_append] at members
    obtain ⟨⟨values, selections⟩, restriction⟩ := members
    rw [Statement.nodes, List.append_assoc]
    refine Queries.seq (addRoots_queries c s.roots) fun c => ?_
    refine (addValues_queries apart c s.values values).bind fun c => ?_
    refine (lowerSelections_queries apart c 0 s.selections selections).bind fun _ => ?_
    exact (lowerRestriction_queries apart c s.restriction restriction).map
  | update u =>
    simp only [Statement.nodes, List.forall_mem_append] at members
    refine Queries.seq (rootTable_queries c u.target) fun (_, c) => ?_
    refine (lowerAssignments_queries apart c u.assignments members.1).bind fun _ => ?_
    exact (lowerRestriction_queries apart c u.restriction members.2).map
  | delete d =>
    refine Queries.seq (rootTable_queries c d.target) fun (_, c) => ?_
    exact (lowerRestriction_queries apart c d.restriction members).map

/-- Lowering a statement resolves its calls, each of them at most once. Where it succeeds, all are
resolved. -/
theorem lowerStatement_asks (model : Model) (strict : Bool)
    (expansions : OccurrenceId → List Occurrence) (s : Statement) (members : ∀ d ∈ s.nodes, d ∈ N) :
    Asks N s.nodes id (lowerStatement model strict expansions s) := by
  intro w
  have asking := lowerParts_queries apart ⟨model, .empty, expansions, strict⟩ s members ⟨w, .empty⟩
  simp only [lowerStatement]
  generalize lowerParts ⟨model, .empty, expansions, strict⟩ s ⟨w, .empty⟩ = outcome at asking ⊢
  cases asking with
  | error asked => exact .error asked
  | @ok a p asked known =>
    exact .ok ((asked.trans (.report N _ rfl)).trans (.report N _ rfl)) known

end

end SemanticQuery.Lowering
