import Mathlib.Data.List.Forall2
import SemanticQuery.Lowering.Statement
import SemanticQuery.Proofs.Lowering.Allocation
import SemanticQuery.Proofs.Query.Visits
import SemanticQuery.Proofs.Sql.Placeholders

/-! Which slots lowering allocates: one group for each occurrence it visits, in the order of the visits,
and the lowered tree holds the slots of the groups and no others. A group has the column types of the
mapping that the occurrence has where it is visited. -/
namespace SemanticQuery.Lowering
open Query

/-- Where the types of a group come from: the type of the occurrence, if that has a mapping, else a
mapping of the context; without either there is one slot without a type. -/
inductive TypedBy (model : Model) (source : Sql.FromClause) (o : Occurrence) :
    List (Option ColumnType) → Prop
  | own {type : ExprType} {m : Mapping} (typed : o.type? = some type)
      (mapping : model.resolveMapping source type = .ok (some m)) :
      TypedBy model source o (m.columnTypes.map some)
  | context (m : Mapping) (bare : ∀ type, o.type? = some type →
      model.resolveMapping source type = .ok none) : TypedBy model source o (m.columnTypes.map some)
  | untyped (bare : ∀ type, o.type? = some type → model.resolveMapping source type = .ok none) :
      TypedBy model source o [none]

/-- A group of slots for an occurrence that is visited with a from clause. -/
structure Allotted (model : Model) (source : Sql.FromClause) (o : Occurrence)
    (g : OccurrenceId × List Slot) : Prop where
  owner : g.1 = o.id
  typed : TypedBy model source o (g.2.map Slot.type)

/-- Groups allocated for some visits, in order, that make up the slots of a tree. -/
structure Carries {α : Type} (R : α → OccurrenceId × List Slot → Prop) (visits : List α)
    (slots : List Nat) (gs : Groups) : Prop where
  matched : List.Forall₂ R visits gs
  slots : numbers gs = slots

namespace Carries
variable {α β : Type} {R : α → OccurrenceId × List Slot → Prop} {visits later : List α}
  {slots more : List Nat} {gs rest : Groups}

theorem nil : Carries R [] [] [] := ⟨.nil, rfl⟩

theorem append (first : Carries R visits slots gs) (second : Carries R later more rest) :
    Carries R (visits ++ later) (slots ++ more) (gs ++ rest) where
  matched := List.rel_append first.matched second.matched
  slots := by rw [numbers_append, first.slots, second.slots]

theorem slots_of_unvisited (carries : Carries R [] slots gs) : slots = [] := by
  rw [← carries.slots, List.forall₂_nil_left_iff.mp carries.matched]
  rfl

theorem append_nil (carries : Carries R visits slots gs) : Carries R visits slots (gs ++ []) := by
  rwa [List.append_nil]

theorem map {Q : β → OccurrenceId × List Slot → Prop} (f : α → β)
    (carries : Carries (fun a => Q (f a)) visits slots gs) : Carries Q (visits.map f) slots gs :=
  ⟨List.forall₂_map_left_iff.mpr carries.matched, carries.slots⟩

end Carries

/-- A step that visits some occurrences, whose result has the slots of their groups. -/
abbrev Lowers {α : Type} (c : Scope) (slotsOf : α → List Nat) (os : List Occurrence)
    (m : LowerM α) : Prop :=
  Allocates (fun a gs => Carries (Allotted c.model c.source) os (slotsOf a) gs) m

theorem slots_ofSlots (group : List Slot) : (Sql.Expr.ofSlots group).slots = group.map Slot.number := by
  have elements (group : List Slot) :
      Sql.Expr.slotsOf (group.map Sql.Expr.parameter) = group.map Slot.number := by
    rw [Sql.Expr.slotsOf_eq_flatMap]
    induction group with
    | nil => rfl
    | cons slot rest ih => rw [List.map_cons, List.flatMap_cons, ih]; rfl
  match group with
  | [] => rfl
  | [slot] => rfl
  | first :: second :: rest => exact elements (first :: second :: rest)

theorem slots_ofList_of_none {es : List Sql.Expr} (none : ∀ e ∈ es, e.slots = []) :
    (Sql.Expr.ofList es).slots = [] := by
  have all : Sql.Expr.slotsOf es = [] := by
    rw [Sql.Expr.slotsOf_eq_flatMap]
    exact List.flatMap_eq_nil_iff.mpr none
  match es with
  | [] => rfl
  | [e] => exact none e List.mem_cons_self
  | first :: second :: rest => exact all

variable (c : Scope) (h : Hint)

/-- A literal comes to literals of columns, without a slot. -/
theorem lowerLiteral_allocates {post : Sql.Expr → Groups → Prop} (v : Value) (type : ExprType)
    (written : ∀ values : List ColumnValue,
      post (.ofList (values.map fun cv => .literal cv.value cv.type)) []) :
    Allocates post (lowerLiteral c h v type) := by
  have decomposed (m : Mapping) : Allocates post (do
      let values ← liftMapping (m.decompose v)
      return .ofList (values.map fun cv => .literal cv.value cv.type)) :=
    Silent.bind (.liftMapping _) fun values => .pure (written values)
  apply Silent.bind (.liftMapping _)
  intro known
  cases known with
  | some m => exact decomposed m
  | none =>
    apply Silent.bind (.runHint h)
    intro hinted
    cases hinted with
    | none => exact .throw _
    | some m => exact decomposed m

theorem lowerLiteral_lowers (v : Value) (type : ExprType) :
    Lowers c Sql.Expr.slots [] (lowerLiteral c h v type) := by
  apply lowerLiteral_allocates
  intro values
  exact ⟨.nil, (slots_ofList_of_none (by simp [Sql.Expr.slots])).symm⟩

/-- A path comes to the columns it is resolved to, without a slot. -/
theorem lowerPath_allocates {post : Sql.Expr → Groups → Prop} (source : PathRef)
    (written : ∀ r, c.model.resolvePath c.source source.path = .ok r →
      post (.ofColumns (columnRefs r.qualifier r.columns r.mapping)) []) :
    Allocates post (lowerPath c source) := by
  unfold lowerPath
  split
  · exact .throw _
  · apply Silent.lookup_bind
    intro r resolved
    exact .pure (written r resolved)

theorem lowerPath_lowers (source : PathRef) : Lowers c Sql.Expr.slots [] (lowerPath c source) := by
  apply lowerPath_allocates
  intro r _
  exact ⟨.nil, (slots_ofList_of_none (by simp [Sql.Expr.slots])).symm⟩

theorem allocate_lowers {o : Occurrence} {types : List (Option ColumnType)}
    (typed : TypedBy c.model c.source o types) :
    Lowers c Sql.Expr.slots [o] (do let group ← allocate o.id types; return .ofSlots group) := by
  refine Allocates.bind (allocate_allocates o.id types) ?_
  rintro group _ ⟨rfl, same⟩
  have allotted : Allotted c.model c.source o (o.id, group) := ⟨rfl, same ▸ typed⟩
  refine .pure ⟨.cons allotted .nil, ?_⟩
  simp [numbers, slots_ofSlots]

theorem lowerHinted_lowers {o : Occurrence}
    (bare : ∀ type, o.type? = some type → c.mapping type = .ok none) :
    Lowers c Sql.Expr.slots [o] (lowerHinted c h o) := by
  refine Silent.bind (.runHint h) fun mapping => ?_
  cases mapping with
  | some m => exact allocate_lowers c (.context m bare)
  | none =>
    cases c.strict with
    | true => exact .throw _
    | false => exact allocate_lowers c (.untyped bare)

theorem lowerParameter_lowers (o : Occurrence) :
    Lowers c Sql.Expr.slots [o] (lowerParameter c h o) := by
  unfold lowerParameter
  cases typed : o.type? with
  | none => exact lowerHinted_lowers c h (by simp [typed])
  | some type =>
    refine Silent.lookup_bind fun own mapping => ?_
    cases own with
    | none => exact lowerHinted_lowers c h (by simp [typed, mapping])
    | some m => exact allocate_lowers c (.own typed mapping)

theorem resultMapping_silent (function : String) (type : Option ExprType) :
    Silent (resultMapping c function type) := by
  unfold resultMapping
  split
  · exact .pure _
  · split
    · exact .pure _
    · exact Silent.bind (.report _) fun _ => Silent.pure _

theorem callMapping_silent (function : Callee) (type : Option ExprType)
    (arguments : List Sql.Expr) : Silent (callMapping c function type arguments) := by
  unfold callMapping
  split
  · exact .pure _
  · exact Inquiry.run_holds Silent.pure (fun _ _ => Silent.bind (resultMapping_silent c _ _)) _

theorem checkLowered_silent (function : Callee) (arguments : List Sql.Expr) :
    Silent (checkLowered function arguments) := by
  unfold checkLowered
  split
  · exact .liftFunction _
  · exact .pure _

mutual

theorem lowerExpr_lowers (h : Hint) : (e : Expr) →
    Lowers c Sql.Expr.slots e.parameters (lowerExpr c h e)
  | .literal _ v type => lowerLiteral_lowers c h v type
  | .parameter _ o => lowerParameter_lowers c h o
  | .path _ source => lowerPath_lowers c source
  | .call node function arguments implied notes => by
    simp only [lowerExpr]
    refine Silent.bind (.runTyping _) fun type => ?_
    refine Allocates.bind (lowerArguments_lowers function implied arguments 0 arguments) ?_
    intro lowered gs carries
    refine Silent.bind (checkLowered_silent function lowered) fun _ => ?_
    exact Silent.bind (callMapping_silent c function type lowered) fun _ => .pure carries.append_nil
  | .tuple _ elements _ => by
    simp only [lowerExpr]
    refine Allocates.bind (lowerElements_lowers h 0 elements) ?_
    intro lowered gs carries
    exact .pure carries.append_nil

theorem lowerArguments_lowers (function : Callee) (implied : Option ExprType) (all : List Expr)
    (index : Nat) : (es : List Expr) →
      Lowers c Sql.Expr.slotsOf (Expr.parametersOf es) (lowerArguments c function implied all index es)
  | [] => .pure .nil
  | e :: rest => by
    simp only [lowerArguments, Expr.parametersOf_cons]
    refine Allocates.bind (lowerExpr_lowers (argumentHint c function implied all index) e) ?_
    intro first gs carries
    refine Allocates.bind (lowerArguments_lowers function implied all (index + 1) rest) ?_
    intro later more carriesLater
    exact .pure (carries.append carriesLater.append_nil)

theorem lowerElements_lowers (h : Hint) (index : Nat) : (es : List Expr) →
    Lowers c Sql.Expr.slotsOf (Expr.parametersOf es) (lowerElements c h index es)
  | [] => .pure .nil
  | e :: rest => by
    simp only [lowerElements, Expr.parametersOf_cons]
    refine Allocates.bind (lowerExpr_lowers (elementHint h index) e) ?_
    intro first gs carries
    refine Allocates.bind (lowerElements_lowers h (index + 1) rest) ?_
    intro later more carriesLater
    exact .pure (carries.append carriesLater.append_nil)

end

/-! Predicates: behind a parameter in a list come the groups of its expansions. -/

theorem lowerExpansions_lowers (os : List Occurrence) :
    Lowers c Sql.Expr.slotsOf os (lowerExpansions c h os) := by
  induction os with
  | nil => exact .pure .nil
  | cons o rest ih =>
    refine Allocates.bind (lowerParameter_lowers c h o) ?_
    intro first gs carries
    refine Allocates.bind ih ?_
    intro later more carriesLater
    exact .pure (carries.append carriesLater.append_nil)

theorem expansionsOf_eq (e : Expr) : expansionsOf c e = expandedBehind c.expansions e := by
  cases e <;> rfl

theorem lowerItems_lowers (items : List Expr) :
    Lowers c Sql.Expr.slotsOf (itemVisits c.expansions items) (lowerItems c h items) := by
  induction items with
  | nil => exact .pure .nil
  | cons e rest ih =>
    rw [lowerItems, expansionsOf_eq]
    refine Allocates.bind (lowerExpr_lowers c h e) ?_
    intro first gs carries
    refine Allocates.bind (lowerExpansions_lowers c h (expandedBehind c.expansions e)) ?_
    intro expanded behind carriesBehind
    refine Allocates.bind ih ?_
    intro later more carriesLater
    refine .pure ?_
    rw [Sql.Expr.slotsOf, Sql.Expr.slotsOf_append]
    exact carries.append (carriesBehind.append carriesLater.append_nil)

mutual

theorem lowerPredicate_lowers : (p : Predicate) →
    Lowers c Sql.Predicate.slots (p.visits c.expansions) (lowerPredicate c p)
  | .comparison lhs _ rhs => by
    simp only [lowerPredicate, Predicate.visits]
    refine Allocates.bind (lowerExpr_lowers c (typeHint c rhs) lhs) ?_
    intro l gs carries
    refine Allocates.bind (lowerExpr_lowers c (typeHint c lhs) rhs) ?_
    intro r more carriesRight
    exact .pure (carries.append carriesRight.append_nil)
  | .inList test items _ => by
    simp only [lowerPredicate, Predicate.visits]
    refine Allocates.bind (lowerExpr_lowers c (firstItemHint c items) test) ?_
    intro t gs carries
    refine Allocates.bind (lowerItems_lowers c (typeHint c test) items) ?_
    intro lowered more carriesItems
    exact .pure (carries.append carriesItems.append_nil)
  | .and children | .or children => by
    simp only [lowerPredicate, Predicate.visits]
    refine Allocates.bind (lowerPredicates_lowers children) ?_
    intro lowered gs carries
    exact .pure carries.append_nil
  | .not inner => by
    simp only [lowerPredicate, Predicate.visits]
    refine Allocates.bind (lowerPredicate_lowers inner) ?_
    intro lowered gs carries
    exact .pure carries.append_nil
  | .isNull e _ => by
    simp only [lowerPredicate, Predicate.visits]
    refine Allocates.bind (lowerExpr_lowers c noHint e) ?_
    intro lowered gs carries
    exact .pure carries.append_nil

theorem lowerPredicates_lowers : (ps : List Predicate) →
    Lowers c Sql.Predicate.slotsOf (Predicate.visitsOf c.expansions ps) (lowerPredicates c ps)
  | [] => .pure .nil
  | p :: rest => by
    simp only [lowerPredicates, Predicate.visitsOf]
    refine Allocates.bind (lowerPredicate_lowers p) ?_
    intro first gs carries
    refine Allocates.bind (lowerPredicates_lowers rest) ?_
    intro later more carriesLater
    exact .pure (carries.append carriesLater.append_nil)

end

theorem lowerRestriction_lowers (restriction : Option Predicate) :
    Lowers c Sql.restrictionSlots (restrictionVisits c.expansions restriction)
      (lowerRestriction c restriction) := by
  cases restriction with
  | none => exact .pure .nil
  | some p =>
    refine Allocates.bind (lowerPredicate_lowers c p) ?_
    intro lowered gs carries
    exact .pure carries.append_nil

/-! Statements: the rows of sources, then selections or assignments, then the restriction. -/

/-- A visit, with the from clause that the occurrence is visited with. -/
abbrev Scene := Sql.FromClause × Occurrence

/-- Inline rows are visited with the sources before their own, the first with so many of them. -/
def valuesScenes (source : Sql.FromClause) : Nat → List ValuesRoot → List Scene
  | _, [] => []
  | before, root :: rest =>
    (rowVisits root.rows).map (Prod.mk ⟨source.roots.take before⟩) ++
      valuesScenes source (before + 1) rest

/-- The visits of a statement by the from clause it ends up with, which all but inline rows see whole. -/
def scenes (expansions : OccurrenceId → List Occurrence) (source : Sql.FromClause) :
    Statement → List Scene
  | .select s => valuesScenes source s.roots.length s.values ++
      (s.selections.flatMap (fun item => item.expr.parameters) ++
        restrictionVisits expansions s.restriction).map (Prod.mk source)
  | .update u => ((Statement.update u).visits expansions).map (Prod.mk source)
  | .delete d => ((Statement.delete d).visits expansions).map (Prod.mk source)

theorem valuesScenes_occurrences (source : Sql.FromClause) (before : Nat) (roots : List ValuesRoot) :
    (valuesScenes source before roots).map Prod.snd = roots.flatMap fun root => rowVisits root.rows := by
  induction roots generalizing before with
  | nil => rfl
  | cons root rest ih =>
    have same : Prod.snd ∘ Prod.mk (⟨source.roots.take before⟩ : Sql.FromClause) =
      (id : Occurrence → Occurrence) := rfl
    rw [valuesScenes, List.map_append, ih, List.map_map, same, List.map_id, List.flatMap_cons]

theorem scenes_occurrences (expansions : OccurrenceId → List Occurrence) (source : Sql.FromClause)
    (s : Statement) : (scenes expansions source s).map Prod.snd = s.visits expansions := by
  have same : Prod.snd ∘ Prod.mk source = (id : Occurrence → Occurrence) := rfl
  cases s with
  | select s => rw [scenes, List.map_append, valuesScenes_occurrences, List.map_map, same, List.map_id,
      Statement.visits]
  | update u => rw [scenes, List.map_map, same, List.map_id]
  | delete d => rw [scenes, List.map_map, same, List.map_id]

theorem slots_add (f : Sql.FromClause) (group : Sql.TableGroup) :
    (f.add group).slots = f.slots ++ group.slots := by
  simp [Sql.FromClause.add, Sql.FromClause.slots]

/-- A scope with so many sources more, none of which has slots. -/
structure Entered (before after : Scope) (count : Nat) : Prop where
  model : after.model = before.model
  expansions : after.expansions = before.expansions
  slots : after.source.slots = before.source.slots
  count : after.source.roots.length = before.source.roots.length + count

/-- A step into a scope without further slots. -/
def Slotless (count : Nat) (scopeOf : α → Scope) (m : LowerM α) : Prop :=
  Allocates (fun a gs => gs = [] ∧ Entered c (scopeOf a) count) m

theorem rootTable_slotless (root : Root) : Slotless c 1 Prod.snd (rootTable c root) := by
  refine Silent.bind (.liftMapping _) fun entity => .pure ⟨rfl, rfl, rfl, ?_, ?_⟩
  · rw [Scope.add, slots_add]
    exact List.append_nil _
  · simp [Scope.add, Sql.FromClause.add]

theorem addRoots_slotless (roots : List Root) : Slotless c roots.length id (addRoots c roots) := by
  induction roots generalizing c with
  | nil => exact .pure ⟨rfl, rfl, rfl, rfl, rfl⟩
  | cons root rest ih =>
    refine Allocates.bind (rootTable_slotless c root) ?_
    rintro ⟨table, next⟩ _ ⟨rfl, entered⟩
    refine (ih next).imp ?_
    rintro scope gs ⟨none, later⟩
    refine ⟨none, later.model.trans entered.model, later.expansions.trans entered.expansions,
      later.slots.trans entered.slots, ?_⟩
    rw [later.count, entered.count, List.length_cons, Nat.add_assoc, Nat.add_comm 1]

theorem cellTypes_silent (index : Nat) (rows : List (List Expr)) : Silent (cellTypes index rows) := by
  induction rows with
  | nil => exact .pure _
  | cons row rest ih =>
    have behind (first : Option ExprType) : Silent (do
        let later ← cellTypes index rest
        return first :: later) :=
      Silent.bind ih fun _ => Silent.pure _
    unfold cellTypes
    cases row[index]? with
    | some cell => exact Silent.bind (.runTyping _) behind
    | none => exact behind none

theorem singleColumn_silent (column : String) (mapping : Option Mapping) :
    Silent (singleColumn column mapping) := by
  cases mapping with
  | none => exact .pure _
  | some m =>
    by_cases single : m.columnCount = 1
    · simp only [singleColumn, if_pos single]
      exact .pure _
    · simp only [singleColumn, if_neg single]
      exact .throw _

theorem columnMapping_silent (rows : List (List Expr)) (index : Nat) (column : String) :
    Silent (columnMapping c rows index column) := by
  refine Silent.bind (cellTypes_silent index rows) fun types => ?_
  cases highestType types with
  | some type => exact Silent.bind (.liftMapping _) (singleColumn_silent column)
  | none => exact singleColumn_silent column none

theorem columnMappings_silent (rows : List (List Expr)) (index : Nat) (columns : List String) :
    Silent (columnMappings c rows index columns) := by
  induction columns generalizing index with
  | nil => exact .pure _
  | cons column rest ih =>
    refine Silent.bind (columnMapping_silent c rows index column) fun first => ?_
    exact Silent.bind (ih (index + 1)) fun _ => Silent.pure _

theorem lowerRow_lowers (mappings : List (Option Mapping)) (index : Nat) (row : List Expr) :
    Lowers c Sql.Expr.slotsOf (Expr.parametersOf row) (lowerRow c mappings index row) := by
  induction row generalizing index with
  | nil => exact .pure .nil
  | cons cell rest ih =>
    rw [Expr.parametersOf_cons]
    refine Allocates.bind (lowerExpr_lowers c (pure (mappings[index]?).join) cell) ?_
    intro first gs carries
    refine Allocates.bind (ih (index + 1)) ?_
    intro later more carriesLater
    exact .pure (carries.append carriesLater.append_nil)

theorem lowerRows_lowers (mappings : List (Option Mapping)) (rows : List (List Expr)) :
    Lowers c (fun lowered => lowered.flatMap Sql.Expr.slotsOf) (rowVisits rows)
      (lowerRows c mappings rows) := by
  induction rows with
  | nil => exact .pure .nil
  | cons row rest ih =>
    refine Allocates.bind (lowerRow_lowers c mappings 0 row) ?_
    intro first gs carries
    refine Allocates.bind ih ?_
    intro later more carriesLater
    exact .pure (carries.append carriesLater.append_nil)

/-- A group of slots for an occurrence and the from clause it is visited with. -/
abbrev AllottedAt (model : Model) (scene : Scene) (g : OccurrenceId × List Slot) : Prop :=
  Allotted model scene.1 scene.2 g

/-- Sources have their slots behind those of the sources before them. -/
theorem addValues_lowers (roots : List ValuesRoot) :
    Allocates (fun scope gs => scope.model = c.model ∧ scope.expansions = c.expansions ∧
      ∃ added slots, scope.source.roots = c.source.roots ++ added ∧
        scope.source.slots = c.source.slots ++ slots ∧
        Carries (AllottedAt c.model) (valuesScenes scope.source c.source.roots.length roots) slots gs)
      (addValues c roots) := by
  induction roots generalizing c with
  | nil => exact .pure ⟨rfl, rfl, [], [], (List.append_nil _).symm, (List.append_nil _).symm, .nil⟩
  | cons root rest ih =>
    refine Silent.bind (columnMappings_silent c root.rows 0 root.columns) fun mappings => ?_
    refine Allocates.bind (lowerRows_lowers c mappings root.rows) ?_
    intro rows gs carries
    let group : Sql.TableGroup :=
      .values root.path ⟨rows, root.path.rootName, root.columns⟩ mappings [] []
    refine (ih (c.add group)).imp ?_
    rintro scope more ⟨model, kept, added, slots, roots, source, carriesLater⟩
    have behind : scope.source.roots = c.source.roots ++ group :: added := by
      rw [roots, Scope.add, Sql.FromClause.add, List.append_assoc, List.singleton_append]
    have seen : (⟨scope.source.roots.take c.source.roots.length⟩ : Sql.FromClause) = c.source := by
      rw [behind, List.take_left]
    have count : (c.add group).source.roots.length = c.source.roots.length + 1 := by
      simp [Scope.add, Sql.FromClause.add]
    refine ⟨model, kept, group :: added, rows.flatMap Sql.Expr.slotsOf ++ slots, behind, ?_, ?_⟩
    · rw [source, Scope.add, slots_add, List.append_assoc]
      rfl
    · rw [count] at carriesLater
      rw [valuesScenes, seen]
      exact (Carries.map (Prod.mk c.source) carries).append carriesLater

mutual

theorem slots_leaves : (e : Sql.Expr) → Sql.Expr.slotsOf e.leaves = e.slots
  | .tuple elements => slots_leavesOf elements
  | .column _ | .literal .. | .parameter _ | .call .. => List.append_nil _

theorem slots_leavesOf : (es : List Sql.Expr) →
    Sql.Expr.slotsOf (Sql.Expr.leavesOf es) = Sql.Expr.slotsOf es
  | [] => rfl
  | e :: rest => by
    rw [Sql.Expr.leavesOf, Sql.Expr.slotsOf_append, slots_leaves e, slots_leavesOf rest,
      Sql.Expr.slotsOf]

end

theorem exprs_numberSelections (position : Nat) (es : List Sql.Expr) :
    (numberSelections position es).map Sql.Selection.expr = es := by
  induction es generalizing position with
  | nil => rfl
  | cons e rest ih => rw [numberSelections, List.map_cons, ih]

theorem itemResult_silent (position : Nat) (item : Selection) (lowered : Sql.Expr) :
    Silent (itemResult position item lowered) := by
  unfold itemResult
  split
  · exact Silent.bind (.runTyping _) fun _ => Silent.pure _
  · exact .pure _

theorem lowerSelections_lowers (position : Nat) (items : List Selection) :
    Lowers c (fun lowered => Sql.Expr.slotsOf (lowered.1.map Sql.Selection.expr))
      (items.flatMap fun item => item.expr.parameters) (lowerSelections c position items) := by
  induction items generalizing position with
  | nil => exact .pure .nil
  | cons item rest ih =>
    refine Allocates.bind (lowerExpr_lowers c noHint item.expr) ?_
    intro lowered gs carries
    refine Silent.bind (itemResult_silent position item lowered) fun result => ?_
    refine Allocates.bind (ih (position + lowered.leaves.length)) ?_
    rintro ⟨selections, results⟩ more carriesLater
    refine .pure ?_
    simp only [List.map_append, exprs_numberSelections, Sql.Expr.slotsOf_append, slots_leaves]
    exact carries.append carriesLater.append_nil

theorem lowerAssignments_lowers (assignments : List Assignment) :
    Lowers c (fun lowered => Sql.Expr.slotsOf (lowered.map Sql.Assignment.value))
      (assignments.flatMap fun a => a.value.parameters) (lowerAssignments c assignments) := by
  induction assignments with
  | nil => exact .pure .nil
  | cons a rest ih =>
    refine Silent.bind (.liftMapping _) fun target => ?_
    refine Allocates.bind (lowerExpr_lowers c (pure (some target.mapping)) a.value) ?_
    intro value gs carries
    refine Allocates.bind ih ?_
    intro later more carriesLater
    exact .pure (carries.append carriesLater.append_nil)

/-- Groups allocated for the visits of a statement, in order, that are the slots of the lowered one.
Sources are lowered first and written behind the selections, so the two orders may differ where there are
inline rows. -/
def Places (s : Statement) (m : LowerM (Sql.Statement × Sql.FromClause)) : Prop :=
  Allocates (fun lowered gs => ∃ slots,
    Carries (AllottedAt c.model) (scenes c.expansions lowered.2 s) slots gs ∧
      slots.Perm lowered.1.slots ∧ (s.Rowless → slots = lowered.1.slots)) m

theorem lowerSelect_places (empty : c.source = .empty) (s : Select) :
    Places c (.select s) (lowerSelect c s) := by
  refine Allocates.bind (addRoots_slotless c s.roots) ?_
  rintro scope _ ⟨rfl, entered⟩
  refine Allocates.bind (addValues_lowers scope s.values) ?_
  rintro full gs ⟨model, kept, added, slots, -, sources, carries⟩
  refine Allocates.bind (lowerSelections_lowers full 0 s.selections) ?_
  rintro ⟨selections, results⟩ selected carriesSelections
  refine Allocates.bind (lowerRestriction_lowers full s.restriction) ?_
  intro restriction restricted carriesRestriction
  have before : scope.source.roots.length = s.roots.length := by
    rw [show scope.source.roots.length = _ from entered.count, empty]
    exact Nat.zero_add _
  have own : full.source.slots = slots := by
    rw [sources, show scope.source.slots = _ from entered.slots, empty]
    exact List.nil_append _
  rw [model, show scope.model = c.model from entered.model] at carriesSelections carriesRestriction
  rw [kept, show scope.expansions = c.expansions from entered.expansions] at carriesRestriction
  rw [before, show scope.model = c.model from entered.model] at carries
  have behind := carriesSelections.append carriesRestriction.append_nil
  refine .pure ⟨_, carries.append (Carries.map (Prod.mk full.source) behind), ?_, ?_⟩
  · rw [Sql.Statement.slots, ← List.append_assoc, own]
    exact List.perm_append_comm.append_right _
  · intro rowless
    rw [show s.values = [] from rowless] at carries
    rw [Sql.Statement.slots, own, carries.slots_of_unvisited, List.append_nil, List.nil_append]

theorem lowerUpdate_places (u : Update) : Places c (.update u) (lowerUpdate c u) := by
  refine Allocates.bind (rootTable_slotless c u.target) ?_
  rintro ⟨table, scope⟩ _ ⟨rfl, entered⟩
  refine Allocates.bind (lowerAssignments_lowers scope u.assignments) ?_
  intro assignments gs carries
  refine Allocates.bind (lowerRestriction_lowers scope u.restriction) ?_
  intro restriction restricted carriesRestriction
  rw [entered.model] at carries carriesRestriction
  rw [entered.expansions] at carriesRestriction
  have all := carries.append carriesRestriction.append_nil
  exact .pure ⟨_, Carries.map (Prod.mk scope.source) all, .refl _, fun _ => rfl⟩

theorem lowerDelete_places (d : Delete) : Places c (.delete d) (lowerDelete c d) := by
  refine Allocates.bind (rootTable_slotless c d.target) ?_
  rintro ⟨table, scope⟩ _ ⟨rfl, entered⟩
  refine Allocates.bind (lowerRestriction_lowers scope d.restriction) ?_
  intro restriction restricted carriesRestriction
  rw [entered.model, entered.expansions] at carriesRestriction
  exact .pure ⟨_, Carries.map (Prod.mk scope.source) carriesRestriction.append_nil, .refl _, fun _ => rfl⟩

theorem lowerParts_places (empty : c.source = .empty) (s : Statement) : Places c s (lowerParts c s) := by
  cases s with
  | select s => exact lowerSelect_places c empty s
  | update u => exact lowerUpdate_places c u
  | delete d => exact lowerDelete_places c d

theorem owners_of_allotted {model : Model} {visits : List Scene} {gs : Groups}
    (matched : List.Forall₂ (AllottedAt model) visits gs) :
    gs.map Prod.fst = (visits.map Prod.snd).map Occurrence.id := by
  induction matched with
  | nil => rfl
  | cons first _ ih => rw [List.map_cons, List.map_cons, List.map_cons, ih, first.owner]

/-- A lowered statement whose ledger has a group for each visit, numbered without gaps, and whose
tree has exactly the slots of the ledger. -/
structure Lowered.Places (l : Lowered) (os : List Occurrence) : Prop where
  visited : l.ledger.entries.map Prod.fst = os.map Occurrence.id
  numbered : numbers l.ledger.entries = List.range (numbers l.ledger.entries).length
  slots : (numbers l.ledger.entries).Perm l.statement.slots

section
variable {model : Model} {strict : Bool} {expansions : OccurrenceId → List Occurrence} {s : Statement}
  {w w' : Workspace} {l : Lowered}

/-- A statement is lowered from an empty from clause and an empty ledger. -/
theorem lowerStatement_ok (lowered : lowerStatement model strict expansions s w = .ok l w') :
    ∃ p, lowerParts ⟨model, .empty, expansions, strict⟩ s ⟨w, .empty⟩ = .ok (l.statement, l.source) p ∧
      p.ledger = l.ledger := by
  simp only [lowerStatement] at lowered
  split at lowered
  next statement source p ran =>
    cases lowered
    exact ⟨p, ran, rfl⟩
  · contradiction

/-- Each group in the ledger is for the visit at its place, typed as that visit found it. -/
theorem lowerStatement_allots (lowered : lowerStatement model strict expansions s w = .ok l w') :
    List.Forall₂ (AllottedAt model) (scenes expansions l.source s) l.ledger.entries ∧
      numbers l.ledger.entries = List.range l.ledger.next ∧
      (numbers l.ledger.entries).Perm l.statement.slots ∧
      (s.Rowless → numbers l.ledger.entries = l.statement.slots) := by
  obtain ⟨p, run, ledger⟩ := lowerStatement_ok lowered
  obtain ⟨added, grown, slots, carries, perm, inOrder⟩ :=
    lowerParts_places ⟨model, .empty, expansions, strict⟩ rfl s run
  have entries : p.ledger.entries = added := grown.entries
  rw [← ledger]
  refine ⟨entries ▸ carries.matched, ?_, ?_⟩
  · rw [entries, grown.next, List.range_eq_range']
    exact (Nat.zero_add (numbers added).length).symm ▸ grown.consecutive
  · rw [entries, carries.slots]
    exact ⟨perm, inOrder⟩

theorem lowerStatement_places (lowered : lowerStatement model strict expansions s w = .ok l w') :
    l.Places (s.visits expansions) := by
  obtain ⟨matched, numbered, slots, -⟩ := lowerStatement_allots lowered
  refine ⟨?_, by rw [numbered, List.length_range], slots⟩
  rw [← scenes_occurrences expansions l.source s]
  exact owners_of_allotted matched

end

end SemanticQuery.Lowering
