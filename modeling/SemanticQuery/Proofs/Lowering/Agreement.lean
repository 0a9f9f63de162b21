import SemanticQuery.Proofs.Lowering.Allocation
import SemanticQuery.Proofs.Lowering.SideBySide

/-! Lowering reads nothing of a statement but its bare parts: bare equal statements are lowered to one
tree, over slots of one numbering. -/
namespace SemanticQuery.Lowering
open Query

namespace Pairing
variable {π : Pairing} (c : Scope) (x x' : OccurrenceId → List Occurrence)

theorem lowerLiteral_same {h h' : Hint} (hint : π.SameHint h h') (v : Value) (type : ExprType) :
    π.Same (lowerLiteral (c.under x) h v type) (lowerLiteral (c.under x') h' v type) := by
  have written (m : Mapping) : π.Same (do
      let values ← liftMapping (m.decompose v)
      return Sql.Expr.ofList (values.map fun cv => .literal cv.value cv.type)) (do
      let values ← liftMapping (m.decompose v)
      return Sql.Expr.ofList (values.map fun cv => .literal cv.value cv.type)) :=
    Same.bind (.liftMapping _) fun values => .pure rfl
  refine Same.bind (.liftMapping (c.mapping type)) fun known => ?_
  cases known with
  | some m => exact written m
  | none =>
    refine Same.bind hint.runHint fun hinted => ?_
    cases hinted with
    | none => exact Same.throw _
    | some m => exact written m

theorem lowerPath_same (source : PathRef) :
    π.Same (lowerPath (c.under x) source) (lowerPath (c.under x') source) := by
  cases found : c.source.find? (.root source.path.rootName) with
  | none =>
    simp only [lowerPath, Scope.under, found]
    exact Same.throw _
  | some group =>
    simp only [lowerPath, Scope.under, found]
    exact Same.bind (.liftMapping (c.model.resolvePath c.source source.path)) fun _ => .pure rfl

theorem allocated_same {o o' : Occurrence} (answers : π.answers o.id o'.id)
    (types : List (Option ColumnType)) :
    π.Same (do let group ← allocate o.id types; return Sql.Expr.ofSlots group)
      (do let group ← allocate o'.id types; return Sql.Expr.ofSlots group) :=
  Same.bind (.allocate answers types) fun _ => .pure rfl

theorem lowerHinted_same {h h' : Hint} (hint : π.SameHint h h') {o o' : Occurrence}
    (answers : π.answers o.id o'.id)
    (refused : π.errors (.untypedParameter o.key.text) (.untypedParameter o'.key.text)) :
    π.Same (lowerHinted (c.under x) h o) (lowerHinted (c.under x') h' o') := by
  change π.Same (lowerHinted c h o) (lowerHinted c h' o')
  refine Same.bind hint.runHint fun mapping => ?_
  cases mapping with
  | some m => exact allocated_same answers _
  | none =>
    cases c.strict with
    | true => exact .throw refused
    | false => exact allocated_same answers _

theorem lowerParameter_same {h h' : Hint} (hint : π.SameHint h h') {o o' : Occurrence}
    (answers : π.answers o.id o'.id) (types : o.type? = o'.type?)
    (refused : π.errors (.untypedParameter o.key.text) (.untypedParameter o'.key.text)) :
    π.Same (lowerParameter (c.under x) h o) (lowerParameter (c.under x') h' o') := by
  unfold lowerParameter
  rw [← types]
  cases o.type? with
  | none => exact lowerHinted_same c x x' hint answers refused
  | some type =>
    refine Same.bind (.liftMapping (c.mapping type)) fun own => ?_
    cases own with
    | none => exact lowerHinted_same c x x' hint answers refused
    | some m => exact allocated_same answers _

theorem resultMapping_same (function : String) (type : Option ExprType) :
    π.Same (resultMapping (c.under x) function type) (resultMapping (c.under x') function type) := by
  cases type with
  | none => exact .pure rfl
  | some type =>
    have same (y : OccurrenceId → List Occurrence) : (c.under y).mapping type = c.mapping type := rfl
    simp only [resultMapping, same]
    cases c.mapping type with
    | ok m => exact .pure rfl
    | error e => exact Same.bind (.report _) fun _ => .pure rfl

theorem inquiry_same {α Q A : Type} {answers answers' : Q → LowerM A}
    (each : ∀ question, π.Same (answers question) (answers' question)) :
    (x : Inquiry Q A α) → π.Same (x.run answers) (x.run answers')
  | .done _ => .pure rfl
  | .ask question next => Same.bind (each question) fun answer => inquiry_same each (next answer)

theorem callMapping_same (function : Callee) (type : Option ExprType) (arguments : List Sql.Expr) :
    π.Same (callMapping (c.under x) function type arguments)
      (callMapping (c.under x') function type arguments) := by
  unfold callMapping
  split
  · exact .pure rfl
  · exact inquiry_same (fun _ => resultMapping_same c x x' _ _) _

theorem checkLowered_same (function : Callee) (arguments : List Sql.Expr) :
    π.Same (checkLowered function arguments) (checkLowered function arguments) := by
  unfold checkLowered
  split
  · exact .liftFunction _
  · exact .pure rfl

/-! Bare equal expressions are built alike. -/

namespace Pairs
variable {node : NodeId} {e' : Expr}

theorem of_literal {v : Value} {type : ExprType} (pairs : π.Pairs (.literal node v type) e') :
    ∃ node', e' = .literal node' v type := by
  have bare := pairs.bare
  cases e' with
  | literal node' v' type' =>
    simp only [Expr.bare, Expr.literal.injEq] at bare
    obtain ⟨-, rfl, rfl⟩ := bare
    exact ⟨node', rfl⟩
  | parameter | path | call | tuple => cases bare

theorem of_parameter {o : Occurrence} (pairs : π.Pairs (.parameter node o) e') :
    ∃ node', e' = .parameter node' o := by
  have bare := pairs.bare
  cases e' with
  | parameter node' o' =>
    simp only [Expr.bare, Expr.parameter.injEq] at bare
    obtain ⟨-, rfl⟩ := bare
    exact ⟨node', rfl⟩
  | literal | path | call | tuple => cases bare

theorem of_path {source : PathRef} (pairs : π.Pairs (.path node source) e') :
    ∃ node', e' = .path node' source := by
  have bare := pairs.bare
  cases e' with
  | path node' source' =>
    simp only [Expr.bare, Expr.path.injEq] at bare
    obtain ⟨-, rfl⟩ := bare
    exact ⟨node', rfl⟩
  | literal | parameter | call | tuple => cases bare

theorem of_call {function : Callee} {arguments : List Expr} {implied : Option ExprType}
    {notes : Notes} (pairs : π.Pairs (.call node function arguments implied notes) e') :
    ∃ node' arguments' notes', e' = .call node' function arguments' implied notes' ∧
      π.PairsAll arguments arguments' := by
  obtain ⟨left, right, bare⟩ := pairs
  cases e' with
  | call node' function' arguments' implied' notes' =>
    simp only [Expr.bare, Expr.call.injEq] at bare
    obtain ⟨-, rfl, same, rfl, -⟩ := bare
    refine ⟨node', arguments', notes', rfl, pairsAll ?_ ?_ same⟩
    · exact fun d mem => left d (List.mem_cons_of_mem _ mem)
    · exact fun d mem => right d (List.mem_cons_of_mem _ mem)
  | literal | parameter | path | tuple => cases bare

theorem of_tuple {elements : List Expr} {notes : Notes}
    (pairs : π.Pairs (.tuple node elements notes) e') :
    ∃ node' elements' notes', e' = .tuple node' elements' notes' ∧ π.PairsAll elements elements' := by
  obtain ⟨left, right, bare⟩ := pairs
  cases e' with
  | tuple node' elements' notes' =>
    simp only [Expr.bare, Expr.tuple.injEq] at bare
    obtain ⟨-, same, -⟩ := bare
    refine ⟨node', elements', notes', rfl, pairsAll ?_ ?_ same⟩
    · exact fun d mem => left d (List.mem_cons_of_mem _ mem)
    · exact fun d mem => right d (List.mem_cons_of_mem _ mem)
  | literal | parameter | path | call => cases bare

end Pairs

mutual

theorem lowerExpr_same {h h' : Hint} (hint : π.SameHint h h') : (e : Expr) → {e' : Expr} →
    π.Pairs e e' → π.Same (lowerExpr (c.under x) h e) (lowerExpr (c.under x') h' e')
  | .literal _ v type, _, pairs => by
    obtain ⟨_, rfl⟩ := pairs.of_literal
    exact lowerLiteral_same c x x' hint v type
  | .parameter _ o, _, pairs => by
    have answers := π.own (pairs.left _ (Expr.mem_nodes _))
    obtain ⟨_, rfl⟩ := pairs.of_parameter
    exact lowerParameter_same c x x' hint answers rfl (π.fails _)
  | .path _ source, _, pairs => by
    obtain ⟨_, rfl⟩ := pairs.of_path
    exact lowerPath_same c x x' source
  | .call _ function arguments implied _, _, pairs => by
    have typing := pairs.runTyping
    obtain ⟨_, arguments', _, rfl, all⟩ := pairs.of_call
    simp only [lowerExpr]
    refine Same.bind typing fun type => ?_
    refine Same.bind (lowerArguments_same function implied all 0 arguments all) fun lowered => ?_
    refine Same.bind (checkLowered_same function lowered) fun _ => ?_
    exact Same.bind (callMapping_same c x x' function type lowered) fun mapping => .pure rfl
  | .tuple _ elements _, _, pairs => by
    obtain ⟨_, elements', _, rfl, all⟩ := pairs.of_tuple
    simp only [lowerExpr]
    exact Same.bind (lowerElements_same hint 0 elements all) fun lowered => .pure rfl

theorem lowerArguments_same (function : Callee) (implied : Option ExprType) {all all' : List Expr}
    (whole : π.PairsAll all all') (index : Nat) : (es : List Expr) → {es' : List Expr} →
    π.PairsAll es es' → π.Same (lowerArguments (c.under x) function implied all index es)
      (lowerArguments (c.under x') function implied all' index es')
  | [], _, .nil => .pure rfl
  | e :: rest, _, .cons first later => by
    simp only [lowerArguments]
    refine Same.bind (lowerExpr_same (whole.argumentHint c x x' function implied index) e first) fun _ => ?_
    exact Same.bind (lowerArguments_same function implied whole (index + 1) rest later) fun _ => .pure rfl

theorem lowerElements_same {h h' : Hint} (hint : π.SameHint h h') (index : Nat) :
    (es : List Expr) → {es' : List Expr} → π.PairsAll es es' →
    π.Same (lowerElements (c.under x) h index es) (lowerElements (c.under x') h' index es')
  | [], _, .nil => .pure rfl
  | e :: rest, _, .cons first later => by
    simp only [lowerElements]
    refine Same.bind (lowerExpr_same (hint.elementHint index) e first) fun _ => ?_
    exact Same.bind (lowerElements_same hint (index + 1) rest later) fun _ => .pure rfl

end

/-! Predicates: items of a list are followed by the expansions that answer to each other. -/

section
variable {h h' : Hint}

theorem lowerExpansions_same (hint : π.SameHint h h') {os os' : List Occurrence}
    (answers : List.Forall₂ (ExpansionAnswers π.answers π.errors) os os') :
    π.Same (lowerExpansions (c.under x) h os) (lowerExpansions (c.under x') h' os') := by
  induction answers with
  | nil => exact .pure rfl
  | cons first _ ih =>
    have parameter := lowerParameter_same c x x' hint first.answers first.types first.refused
    refine Same.bind parameter fun _ => ?_
    exact Same.bind ih fun _ => .pure rfl

theorem expansionsOf_answer {e e' : Expr} (pairs : π.Pairs e e') :
    List.Forall₂ (ExpansionAnswers π.answers π.errors)
      (expansionsOf (c.under π.leftExpansions) e) (expansionsOf (c.under π.rightExpansions) e') := by
  cases e with
  | parameter node o =>
    have answers := π.expanded (pairs.left _ (Expr.mem_nodes _))
    obtain ⟨_, rfl⟩ := pairs.of_parameter
    exact answers
  | literal =>
    obtain ⟨_, rfl⟩ := pairs.of_literal
    exact .nil
  | path =>
    obtain ⟨_, rfl⟩ := pairs.of_path
    exact .nil
  | call =>
    obtain ⟨_, _, _, rfl, -⟩ := pairs.of_call
    exact .nil
  | tuple =>
    obtain ⟨_, _, _, rfl, -⟩ := pairs.of_tuple
    exact .nil

theorem lowerItems_same (hint : π.SameHint h h') {items items' : List Expr}
    (pairs : π.PairsAll items items') :
    π.Same (lowerItems (c.under π.leftExpansions) h items)
      (lowerItems (c.under π.rightExpansions) h' items') := by
  induction pairs with
  | nil => exact .pure rfl
  | @cons e e' rest rest' first _ ih =>
    refine Same.bind (lowerExpr_same c _ _ hint e first) fun _ => ?_
    refine Same.bind (lowerExpansions_same c _ _ hint (expansionsOf_answer c first)) fun _ => ?_
    exact Same.bind ih fun _ => .pure rfl

theorem firstItemHint_same {items items' : List Expr} (pairs : π.PairsAll items items') :
    π.SameHint (firstItemHint (c.under x) items) (firstItemHint (c.under x') items') := by
  cases pairs with
  | nil => exact .pure none
  | cons first _ => exact first.typeHint c x x'

end

mutual

theorem lowerPredicate_same : (p p' : Predicate) → (∀ d ∈ p.nodes, d ∈ π.left) →
    (∀ d ∈ p'.nodes, d ∈ π.right) → p.bare = p'.bare →
    π.Same (lowerPredicate (c.under π.leftExpansions) p) (lowerPredicate (c.under π.rightExpansions) p')
  | .comparison lhs operator rhs, p', left, right, bare => by
    cases p' with
    | comparison lhs' operator' rhs' =>
      rw [Predicate.nodes, List.forall_mem_append] at left right
      rw [Predicate.bare, Predicate.bare, Predicate.comparison.injEq] at bare
      obtain ⟨sameLeft, rfl, sameRight⟩ := bare
      have l : π.Pairs lhs lhs' := ⟨left.1, right.1, sameLeft⟩
      have r : π.Pairs rhs rhs' := ⟨left.2, right.2, sameRight⟩
      simp only [lowerPredicate]
      refine Same.bind (lowerExpr_same c _ _ (r.typeHint c _ _) lhs l) fun _ => ?_
      exact Same.bind (lowerExpr_same c _ _ (l.typeHint c _ _) rhs r) fun _ => .pure rfl
    | inList | and | or | not | isNull => cases bare
  | .inList test items negated, p', left, right, bare => by
    cases p' with
    | inList test' items' negated' =>
      rw [Predicate.nodes, List.forall_mem_append] at left right
      rw [Predicate.bare, Predicate.bare, Predicate.inList.injEq] at bare
      obtain ⟨sameTest, sameItems, rfl⟩ := bare
      have tests : π.Pairs test test' := ⟨left.1, right.1, sameTest⟩
      have all := pairsAll left.2 right.2 sameItems
      simp only [lowerPredicate]
      refine Same.bind (lowerExpr_same c _ _ (firstItemHint_same c _ _ all) test tests) fun _ => ?_
      exact Same.bind (lowerItems_same c (tests.typeHint c _ _) all) fun _ => .pure rfl
    | comparison | and | or | not | isNull => cases bare
  | .and children, p', left, right, bare => by
    cases p' with
    | and children' =>
      rw [Predicate.bare, Predicate.bare, Predicate.and.injEq] at bare
      simp only [lowerPredicate]
      exact Same.bind (lowerPredicates_same children children' left right bare) fun _ => .pure rfl
    | comparison | inList | or | not | isNull => cases bare
  | .or children, p', left, right, bare => by
    cases p' with
    | or children' =>
      rw [Predicate.bare, Predicate.bare, Predicate.or.injEq] at bare
      simp only [lowerPredicate]
      exact Same.bind (lowerPredicates_same children children' left right bare) fun _ => .pure rfl
    | comparison | inList | and | not | isNull => cases bare
  | .not inner, p', left, right, bare => by
    cases p' with
    | not inner' =>
      rw [Predicate.bare, Predicate.bare, Predicate.not.injEq] at bare
      rw [Predicate.nodes] at left right
      simp only [lowerPredicate]
      exact Same.bind (lowerPredicate_same inner inner' left right bare) fun _ => .pure rfl
    | comparison | inList | and | or | isNull => cases bare
  | .isNull e negated, p', left, right, bare => by
    cases p' with
    | isNull e' negated' =>
      rw [Predicate.bare, Predicate.bare, Predicate.isNull.injEq] at bare
      obtain ⟨same, rfl⟩ := bare
      simp only [lowerPredicate]
      exact Same.bind (lowerExpr_same c _ _ (.pure none) e ⟨left, right, same⟩) fun _ => .pure rfl
    | comparison | inList | and | or | not => cases bare

theorem lowerPredicates_same : (ps ps' : List Predicate) → (∀ d ∈ Predicate.nodesOf ps, d ∈ π.left) →
    (∀ d ∈ Predicate.nodesOf ps', d ∈ π.right) → Predicate.bareAll ps = Predicate.bareAll ps' →
    π.Same (lowerPredicates (c.under π.leftExpansions) ps)
      (lowerPredicates (c.under π.rightExpansions) ps')
  | [], [], _, _, _ => .pure rfl
  | [], _ :: _, _, _, bare => by cases bare
  | _ :: _, [], _, _, bare => by cases bare
  | p :: rest, p' :: rest', left, right, bare => by
    rw [Predicate.nodesOf, List.forall_mem_append] at left right
    rw [Predicate.bareAll, Predicate.bareAll, List.cons.injEq] at bare
    simp only [lowerPredicates]
    refine Same.bind (lowerPredicate_same p p' left.1 right.1 bare.1) fun _ => ?_
    exact Same.bind (lowerPredicates_same rest rest' left.2 right.2 bare.2) fun _ => .pure rfl

end

theorem lowerRestriction_same {restriction restriction' : Option Predicate}
    (left : ∀ d ∈ restrictionNodes restriction, d ∈ π.left)
    (right : ∀ d ∈ restrictionNodes restriction', d ∈ π.right)
    (bare : restriction.map Predicate.bare = restriction'.map Predicate.bare) :
    π.Same (lowerRestriction (c.under π.leftExpansions) restriction)
      (lowerRestriction (c.under π.rightExpansions) restriction') := by
  cases restriction with
  | none =>
    cases restriction' with
    | none => exact .pure rfl
    | some p' => cases bare
  | some p =>
    cases restriction' with
    | none => cases bare
    | some p' =>
      have same := lowerPredicate_same c p p' left right (Option.some.inj bare)
      exact Same.bind same fun _ => .pure rfl

/-! Statements, part by part. -/

/-- Lists of parts that are bare equal one by one. -/
theorem forall₂_of_bare {α β : Type} {f : α → β} {nodesOf : α → List Expr} {Q : α → α → Prop}
    (each : ∀ a a', (∀ d ∈ nodesOf a, d ∈ π.left) → (∀ d ∈ nodesOf a', d ∈ π.right) → f a = f a' →
      Q a a') {as as' : List α} (left : ∀ d ∈ as.flatMap nodesOf, d ∈ π.left)
    (right : ∀ d ∈ as'.flatMap nodesOf, d ∈ π.right) (bare : as.map f = as'.map f) :
    List.Forall₂ Q as as' := by
  induction as generalizing as' with
  | nil =>
    cases as' with
    | nil => exact .nil
    | cons => contradiction
  | cons a rest ih =>
    cases as' with
    | nil => contradiction
    | cons a' rest' =>
      rw [List.flatMap_cons, List.forall_mem_append] at left right
      rw [List.map_cons, List.map_cons, List.cons.injEq] at bare
      exact .cons (each a a' left.1 right.1 bare.1) (ih left.2 right.2 bare.2)

/-- Scopes that differ in the expansions of the two sides only. -/
def SameScope (π : Pairing) (c c' : Scope) : Prop :=
  ∃ d : Scope, c = d.under π.leftExpansions ∧ c' = d.under π.rightExpansions

theorem rootTable_agrees (root : Root) :
    π.Agrees (fun a b => a.1 = b.1 ∧ π.SameScope a.2 b.2)
      (rootTable (c.under π.leftExpansions) root) (rootTable (c.under π.rightExpansions) root) := by
  refine Same.bind (.liftMapping (c.model.entity root.entity)) fun entity => ?_
  exact .pure ⟨rfl, c.add (.entity root.path entity.name ⟨entity.table, root.path.rootName⟩), rfl, rfl⟩

theorem addRoots_agrees (roots : List Root) :
    π.Agrees π.SameScope (addRoots (c.under π.leftExpansions) roots)
      (addRoots (c.under π.rightExpansions) roots) := by
  induction roots generalizing c with
  | nil => exact .pure ⟨c, rfl, rfl⟩
  | cons root rest ih =>
    refine Agrees.bind (rootTable_agrees c root) ?_
    rintro ⟨table, _⟩ ⟨_, _⟩ ⟨rfl, d, rfl, rfl⟩
    exact ih d

theorem PairsAll.getElem? {es es' : List Expr} (pairs : π.PairsAll es es') (index : Nat) :
    Option.Rel π.Pairs es[index]? es'[index]? := by
  induction pairs generalizing index with
  | nil => exact .none
  | cons first _ ih =>
    cases index with
    | zero => exact .some first
    | succ index => exact ih index

theorem cellTypes_same (index : Nat) {rows rows' : List (List Expr)}
    (pairs : List.Forall₂ π.PairsAll rows rows') :
    π.Same (cellTypes index rows) (cellTypes index rows') := by
  induction pairs with
  | nil => exact .pure rfl
  | @cons row row' rest rest' first _ ih =>
    have behind (type : Option ExprType) : π.Same (do
        let later ← cellTypes index rest
        return type :: later) (do
        let later ← cellTypes index rest'
        return type :: later) :=
      Same.bind ih fun _ => .pure rfl
    have cell := PairsAll.getElem? first index
    unfold cellTypes
    cases left : row[index]? with
    | none =>
      cases right : row'[index]? with
      | none => exact behind none
      | some e' =>
        rw [left, right] at cell
        cases cell
    | some e =>
      cases right : row'[index]? with
      | none =>
        rw [left, right] at cell
        cases cell
      | some e' =>
        rw [left, right] at cell
        cases cell with
        | some pairs => exact Same.bind pairs.runTyping behind

theorem singleColumn_same (column : String) (mapping : Option Mapping) :
    π.Same (singleColumn column mapping) (singleColumn column mapping) := by
  cases mapping with
  | none => exact .pure rfl
  | some m =>
    by_cases single : m.columnCount = 1
    · simp only [singleColumn, if_pos single]
      exact .pure rfl
    · simp only [singleColumn, if_neg single]
      exact Same.throw _

theorem columnMapping_same {rows rows' : List (List Expr)}
    (pairs : List.Forall₂ π.PairsAll rows rows') (index : Nat) (column : String) :
    π.Same (columnMapping (c.under x) rows index column)
      (columnMapping (c.under x') rows' index column) := by
  refine Same.bind (cellTypes_same index pairs) fun types => ?_
  cases highestType types with
  | some type => exact Same.bind (.liftMapping (c.mapping type)) (singleColumn_same column)
  | none => exact singleColumn_same column none

theorem columnMappings_same {rows rows' : List (List Expr)}
    (pairs : List.Forall₂ π.PairsAll rows rows') (index : Nat) (columns : List String) :
    π.Same (columnMappings (c.under x) rows index columns)
      (columnMappings (c.under x') rows' index columns) := by
  induction columns generalizing index with
  | nil => exact .pure rfl
  | cons column rest ih =>
    refine Same.bind (columnMapping_same c x x' pairs index column) fun _ => ?_
    exact Same.bind (ih (index + 1)) fun _ => .pure rfl

theorem lowerRow_same (mappings : List (Option Mapping)) (index : Nat) {row row' : List Expr}
    (pairs : π.PairsAll row row') :
    π.Same (lowerRow (c.under x) mappings index row) (lowerRow (c.under x') mappings index row') := by
  induction pairs generalizing index with
  | nil => exact .pure rfl
  | @cons e e' rest rest' first _ ih =>
    refine Same.bind (lowerExpr_same c x x' (.pure (mappings[index]?).join) e first) fun _ => ?_
    exact Same.bind (ih (index + 1)) fun _ => .pure rfl

theorem lowerRows_same (mappings : List (Option Mapping)) {rows rows' : List (List Expr)}
    (pairs : List.Forall₂ π.PairsAll rows rows') :
    π.Same (lowerRows (c.under x) mappings rows) (lowerRows (c.under x') mappings rows') := by
  induction pairs with
  | nil => exact .pure rfl
  | cons first _ ih =>
    refine Same.bind (lowerRow_same c x x' mappings 0 first) fun _ => ?_
    exact Same.bind ih fun _ => .pure rfl

/-- Sources of inline rows with paired cells. -/
structure PairsRoot (π : Pairing) (root root' : ValuesRoot) : Prop where
  path : root.path = root'.path
  columns : root.columns = root'.columns
  rows : List.Forall₂ π.PairsAll root.rows root'.rows

theorem pairsRoot (root root' : ValuesRoot) (left : ∀ d ∈ root.rows.flatMap Expr.nodesOf, d ∈ π.left)
    (right : ∀ d ∈ root'.rows.flatMap Expr.nodesOf, d ∈ π.right) (bare : root.bare = root'.bare) :
    π.PairsRoot root root' := by
  simp only [ValuesRoot.bare, ValuesRoot.mk.injEq] at bare
  exact ⟨bare.1, bare.2.1, forall₂_of_bare (fun _ _ => pairsAll) left right bare.2.2⟩

theorem addValues_agrees {roots roots' : List ValuesRoot}
    (pairs : List.Forall₂ π.PairsRoot roots roots') :
    π.Agrees π.SameScope (addValues (c.under π.leftExpansions) roots)
      (addValues (c.under π.rightExpansions) roots') := by
  induction pairs generalizing c with
  | nil => exact .pure ⟨c, rfl, rfl⟩
  | @cons root root' rest rest' first _ ih =>
    simp only [addValues, ← first.path, ← first.columns]
    refine Same.bind (columnMappings_same c _ _ first.rows 0 root.columns) fun mappings => ?_
    refine Same.bind (lowerRows_same c _ _ mappings first.rows) fun rows => ?_
    exact ih (c.add (.values root.path ⟨rows, root.path.rootName, root.columns⟩ mappings [] []))

structure PairsItem (π : Pairing) (item item' : Selection) : Prop where
  expr : π.Pairs item.expr item'.expr
  label : item.label = item'.label

theorem pairsItem (item item' : Selection) (left : ∀ d ∈ item.expr.nodes, d ∈ π.left)
    (right : ∀ d ∈ item'.expr.nodes, d ∈ π.right) (bare : item.bare = item'.bare) :
    π.PairsItem item item' := by
  simp only [Selection.bare, Selection.mk.injEq] at bare
  exact ⟨⟨left, right, bare.1⟩, bare.2⟩

theorem Pairs.pathOf? {e e' : Expr} (pairs : π.Pairs e e') : pathOf? e = pathOf? e' := by
  cases e with
  | literal =>
    obtain ⟨_, rfl⟩ := pairs.of_literal
    rfl
  | parameter =>
    obtain ⟨_, rfl⟩ := pairs.of_parameter
    rfl
  | path =>
    obtain ⟨_, rfl⟩ := pairs.of_path
    rfl
  | call =>
    obtain ⟨_, _, _, rfl, -⟩ := pairs.of_call
    rfl
  | tuple =>
    obtain ⟨_, _, _, rfl, -⟩ := pairs.of_tuple
    rfl

theorem itemResult_same (position : Nat) {item item' : Selection} (pairs : π.PairsItem item item')
    (lowered : Sql.Expr) :
    π.Same (itemResult position item lowered) (itemResult position item' lowered) := by
  simp only [itemResult, ← pairs.label, ← pairs.expr.pathOf?]
  split
  · exact Same.bind pairs.expr.runTyping fun _ => .pure rfl
  · exact .pure rfl

theorem lowerSelections_same (position : Nat) {items items' : List Selection}
    (pairs : List.Forall₂ π.PairsItem items items') :
    π.Same (lowerSelections (c.under x) position items)
      (lowerSelections (c.under x') position items') := by
  induction pairs generalizing position with
  | nil => exact .pure rfl
  | cons first _ ih =>
    refine Same.bind (lowerExpr_same c x x' (.pure none) _ first.expr) fun lowered => ?_
    refine Same.bind (itemResult_same position first lowered) fun result => ?_
    exact Same.bind (ih (position + lowered.leaves.length)) fun _ => .pure rfl

structure PairsAssignment (π : Pairing) (a a' : Assignment) : Prop where
  target : a.target.path = a'.target.path
  value : π.Pairs a.value a'.value

theorem pairsAssignment (a a' : Assignment) (left : ∀ d ∈ a.value.nodes, d ∈ π.left)
    (right : ∀ d ∈ a'.value.nodes, d ∈ π.right) (bare : a.bare = a'.bare) :
    π.PairsAssignment a a' := by
  simp only [Assignment.bare, Assignment.mk.injEq, PathRef.mk.injEq, and_true] at bare
  exact ⟨bare.1, left, right, bare.2⟩

theorem lowerAssignments_same {assignments assignments' : List Assignment}
    (pairs : List.Forall₂ π.PairsAssignment assignments assignments') :
    π.Same (lowerAssignments (c.under x) assignments) (lowerAssignments (c.under x') assignments') := by
  induction pairs with
  | nil => exact .pure rfl
  | cons first _ ih =>
    simp only [lowerAssignments, ← first.target]
    refine Same.bind (.liftMapping (c.model.resolvePath c.source _)) fun target => ?_
    refine Same.bind (lowerExpr_same c x x' (.pure (some target.mapping)) _ first.value) fun _ => ?_
    exact Same.bind ih fun _ => .pure rfl

/-- Bare equal statements make one tree, or both fail. -/
theorem lowerParts_same {s s' : Statement} (left : ∀ d ∈ s.nodes, d ∈ π.left)
    (right : ∀ d ∈ s'.nodes, d ∈ π.right) (bare : s.bare = s'.bare) :
    π.Same (lowerParts (c.under π.leftExpansions) s) (lowerParts (c.under π.rightExpansions) s') := by
  cases s with
  | select s =>
    cases s' with
    | select s' =>
      simp only [Statement.nodes, List.forall_mem_append] at left right
      simp only [Statement.bare, Statement.select.injEq, Select.mk.injEq] at bare
      obtain ⟨⟨values, selections⟩, restriction⟩ := left
      obtain ⟨⟨values', selections'⟩, restriction'⟩ := right
      obtain ⟨roots, sameValues, sameSelections, sameRestriction⟩ := bare
      simp only [lowerParts, lowerSelect, ← roots]
      refine Agrees.bind (addRoots_agrees c s.roots) ?_
      rintro _ _ ⟨d, rfl, rfl⟩
      refine Agrees.bind (addValues_agrees d (forall₂_of_bare pairsRoot values values' sameValues)) ?_
      rintro _ _ ⟨d, rfl, rfl⟩
      have items := forall₂_of_bare pairsItem selections selections' sameSelections
      refine Same.bind (lowerSelections_same d _ _ 0 items) fun _ => ?_
      refine Same.bind (lowerRestriction_same d restriction restriction' sameRestriction) fun _ => ?_
      exact .pure rfl
    | update | delete => cases bare
  | update u =>
    cases s' with
    | update u' =>
      simp only [Statement.nodes, List.forall_mem_append] at left right
      simp only [Statement.bare, Statement.update.injEq, Update.mk.injEq] at bare
      obtain ⟨target, sameAssignments, sameRestriction⟩ := bare
      simp only [lowerParts, lowerUpdate, ← target]
      refine Agrees.bind (rootTable_agrees c u.target) ?_
      rintro ⟨table, _⟩ ⟨_, _⟩ ⟨rfl, d, rfl, rfl⟩
      have assignments := forall₂_of_bare pairsAssignment left.1 right.1 sameAssignments
      refine Same.bind (lowerAssignments_same d _ _ assignments) fun _ => ?_
      refine Same.bind (lowerRestriction_same d left.2 right.2 sameRestriction) fun _ => ?_
      exact .pure rfl
    | select | delete => cases bare
  | delete d =>
    cases s' with
    | delete d' =>
      simp only [Statement.bare, Statement.delete.injEq, Delete.mk.injEq] at bare
      simp only [lowerParts, lowerDelete, ← bare.1]
      refine Agrees.bind (rootTable_agrees c d.target) ?_
      rintro ⟨table, _⟩ ⟨_, _⟩ ⟨rfl, scope, rfl, rfl⟩
      refine Same.bind (lowerRestriction_same scope left right bare.2) fun _ => ?_
      exact .pure rfl
    | select | update => cases bare

end Pairing

end SemanticQuery.Lowering
