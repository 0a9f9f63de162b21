import SemanticQuery.Proofs.Lowering.Parameters

/-! Lowering as sequences of like steps. The comparisons and tests of a restriction, the items of a list
with their expansions and the assignments of an update are lowered one after the other, each once, and
groups that one of them is given stay in the ledger. -/
namespace SemanticQuery

namespace Query

mutual

/-- The comparisons and tests that a predicate is put together from, in source order. -/
def Predicate.conditions : Predicate → List Predicate
  | .comparison lhs operator rhs => [.comparison lhs operator rhs]
  | .inList test items negated => [.inList test items negated]
  | .and children | .or children => Predicate.conditionsOf children
  | .not inner => inner.conditions
  | .isNull e negated => [.isNull e negated]

def Predicate.conditionsOf : List Predicate → List Predicate
  | [] => []
  | p :: rest => p.conditions ++ conditionsOf rest

end

def restrictionConditions : Option Predicate → List Predicate
  | none => []
  | some p => p.conditions

namespace Statement

def conditions : Statement → List Predicate
  | select s => restrictionConditions s.restriction
  | update u => restrictionConditions u.restriction
  | delete d => restrictionConditions d.restriction

def assignments : Statement → List Assignment
  | select _ | delete _ => []
  | update u => u.assignments

end Statement

section
variable (expansions : OccurrenceId → List Occurrence)

/-- What is lowered for an item of a list: the item, and behind a parameter the expansions of its
occurrence. -/
def writtenFor (item : Expr) : List Expr :=
  item :: (expandedBehind expansions item).map (Expr.parameter item.node)

def writtenOut (items : List Expr) : List Expr := items.flatMap (writtenFor expansions)

theorem length_writtenOut (items : List Expr) : (writtenOut expansions items).length =
    items.length + (items.flatMap (expandedBehind expansions)).length := by
  induction items with
  | nil => rfl
  | cons item rest ih =>
    rw [writtenOut, List.flatMap_cons, List.length_append, ← writtenOut, ih, writtenFor,
      List.flatMap_cons, List.length_append, List.length_cons, List.length_cons, List.length_map]
    omega

end

end Query

namespace Sql

mutual

def Predicate.conditions : Predicate → List Predicate
  | .comparison lhs operator rhs => [.comparison lhs operator rhs]
  | .inList test items negated => [.inList test items negated]
  | .and children | .or children => Predicate.conditionsOf children
  | .not inner => inner.conditions
  | .isNull e negated => [.isNull e negated]

def Predicate.conditionsOf : List Predicate → List Predicate
  | [] => []
  | p :: rest => p.conditions ++ conditionsOf rest

end

def restrictionConditions : Option Predicate → List Predicate
  | none => []
  | some p => p.conditions

namespace Statement

def conditions : Statement → List Predicate
  | select s => restrictionConditions s.restriction
  | update u => restrictionConditions u.restriction
  | delete d => restrictionConditions d.restriction

def assignments : Statement → List Assignment
  | select _ | delete _ => []
  | update u => u.assignments

end Statement

end Sql

namespace Lowering
open Query

section
variable {α β γ : Type}

theorem run_map_ok {f : α → β} {m : LowerM α} {b : β} {p p' : Progress} :
    (f <$> m) p = .ok b p' ↔ ∃ a, m p = .ok a p' ∧ f a = b := by
  simp only [Functor.map, EStateM.map]
  cases m p with
  | ok a q => simp [and_comm, eq_comm]
  | error e q => simp

/-- Sequences one after the other are one sequence. -/
theorem mapM_flatMap (f : β → LowerM α) (g : γ → List β) (cs : List γ) :
    (cs.flatMap g).mapM f = List.flatten <$> cs.mapM fun c => (g c).mapM f := by
  induction cs with
  | nil => rfl
  | cons c rest ih =>
    rw [List.flatMap_cons, List.mapM_append, ih, List.mapM_cons]
    simp

/-- In a sequence every step is taken, and what all steps keep is kept up to it and behind it. -/
theorem mapM_ok {f : α → LowerM β} {R : Progress → Progress → Prop} (refl : ∀ p, R p p)
    (trans : ∀ {p q r}, R p q → R q r → R p r) (step : ∀ {a p b p'}, f a p = .ok b p' → R p p')
    {as : List α} {p p' : Progress} {bs : List β} (run : as.mapM f p = .ok bs p') :
    R p p' ∧ List.Forall₂ (fun a b => ∃ q q', R p q ∧ f a q = .ok b q' ∧ R q' p') as bs := by
  induction as generalizing p bs with
  | nil =>
    cases run
    exact ⟨refl _, .nil⟩
  | cons a rest ih =>
    rw [List.mapM_cons] at run
    obtain ⟨b, q, first, run⟩ := run_bind_ok.mp run
    obtain ⟨later, q', ran, made⟩ := run_bind_ok.mp run
    cases made
    obtain ⟨kept, each⟩ := ih ran
    -- the steps of the tail start behind `a`, so what was kept before them is extended over it
    refine ⟨trans (step first) kept, .cons ⟨p, q, refl p, first, kept⟩ ?_⟩
    refine each.imp fun a b => ?_
    rintro ⟨r, r', before, ran, behind⟩
    exact ⟨r, r', trans (step first) before, ran, behind⟩

end

theorem Allocates.keepsGroups {α : Type} {post : α → Groups → Prop} {m : LowerM α}
    (allocates : Allocates post m) {a : α} {p p' : Progress} (run : m p = .ok a p') :
    p.KeepsGroups p' := by
  obtain ⟨added, grown, -⟩ := allocates run
  exact ⟨added, grown.entries.symm⟩

/-- What a step of a sequence allocates stays to the end. -/
theorem mapM_keepsGroups {α β : Type} {f : α → LowerM β} {post : α → β → Groups → Prop}
    (allocates : ∀ a, Allocates (post a) (f a)) {as : List α} {bs : List β} {p p' : Progress}
    (run : as.mapM f p = .ok bs p') :
    List.Forall₂ (fun a b => ∃ q q', f a q = .ok b q' ∧ q'.KeepsGroups p') as bs := by
  have each := (mapM_ok (R := Progress.KeepsGroups) (fun _ => List.prefix_rfl) List.IsPrefix.trans
    (fun ran => (allocates _).keepsGroups ran) run).2
  refine each.imp fun a b => ?_
  rintro ⟨q, q', -, ran, kept⟩
  exact ⟨q, q', ran, kept⟩

section
variable (c : Scope) (h : Hint)

theorem lowerExpansions_eq (node : NodeId) (os : List Occurrence) :
    lowerExpansions c h os = (os.map (Expr.parameter node)).mapM (lowerExpr c h) := by
  induction os with
  | nil => rfl
  | cons o rest ih => rw [lowerExpansions, List.map_cons, List.mapM_cons, lowerExpr, ih]

/-- Items and expansions are lowered alike, under the one hint. -/
theorem lowerItems_eq (items : List Expr) :
    lowerItems c h items = (writtenOut c.expansions items).mapM (lowerExpr c h) := by
  induction items with
  | nil => rfl
  | cons e rest ih =>
    rw [lowerItems, expansionsOf_eq, writtenOut, List.flatMap_cons, ← writtenOut, List.mapM_append,
      writtenFor, List.mapM_cons, lowerExpansions_eq c h e.node, ih]
    simp

mutual

theorem lowerPredicate_conditions : (p : Predicate) →
    Sql.Predicate.conditions <$> lowerPredicate c p = p.conditions.mapM (lowerPredicate c)
  | .comparison .. | .inList .. | .isNull .. => by
    simp [lowerPredicate, Predicate.conditions, Sql.Predicate.conditions]
  | .and children | .or children => by
    rw [Predicate.conditions, ← lowerPredicates_conditions children]
    simp [lowerPredicate, Sql.Predicate.conditions]
  | .not inner => by
    rw [Predicate.conditions, ← lowerPredicate_conditions inner]
    simp [lowerPredicate, Sql.Predicate.conditions]

theorem lowerPredicates_conditions : (ps : List Predicate) →
    Sql.Predicate.conditionsOf <$> lowerPredicates c ps =
      (Predicate.conditionsOf ps).mapM (lowerPredicate c)
  | [] => rfl
  | p :: rest => by
    rw [Predicate.conditionsOf, List.mapM_append, ← lowerPredicate_conditions p,
      ← lowerPredicates_conditions rest]
    simp [lowerPredicates, Sql.Predicate.conditionsOf]

end

theorem lowerRestriction_conditions (restriction : Option Predicate) :
    Sql.restrictionConditions <$> lowerRestriction c restriction =
      (restrictionConditions restriction).mapM (lowerPredicate c) := by
  cases restriction with
  | none => rfl
  | some p =>
    rw [restrictionConditions, ← lowerPredicate_conditions]
    simp [lowerRestriction, Sql.restrictionConditions]

def lowerAssignment (a : Assignment) : LowerM Sql.Assignment := do
  let target ← liftMapping (c.model.resolvePath c.source a.target.path)
  let value ← lowerExpr c (pure (some target.mapping)) a.value
  return ⟨columnRefs target.qualifier target.columns target.mapping, value⟩

theorem lowerAssignment_lowers (a : Assignment) :
    Lowers c (fun lowered => lowered.value.slots) a.value.parameters (lowerAssignment c a) := by
  refine Silent.bind (.liftMapping _) fun target => ?_
  refine Allocates.bind (lowerExpr_lowers c (pure (some target.mapping)) a.value) ?_
  intro value gs carries
  exact .pure carries.append_nil

theorem lowerAssignments_eq (assignments : List Assignment) :
    lowerAssignments c assignments = assignments.mapM (lowerAssignment c) := by
  induction assignments with
  | nil => rfl
  | cons a rest ih =>
    rw [lowerAssignments, List.mapM_cons, ih]
    simp [lowerAssignment]

end

/-- The last two stages of lowering a statement: its assignments and then its conditions, in the scope of
all its sources. -/
structure Stages (c : Scope) (s : Statement) (statement : Sql.Statement) (last : Progress) : Prop where
  assignments : ∃ p p', s.assignments.mapM (lowerAssignment c) p = .ok statement.assignments p' ∧
    p'.KeepsGroups last
  conditions : ∃ p, s.conditions.mapM (lowerPredicate c) p = .ok statement.conditions last

theorem lowerParts_stages {c : Scope} {s : Statement} {statement : Sql.Statement}
    {source : Sql.FromClause} {p p' : Progress} (run : lowerParts c s p = .ok (statement, source) p') :
    ∃ full : Scope, full.model = c.model ∧ full.expansions = c.expansions ∧ full.source = source ∧
      Stages full s statement p' := by
  -- without assignments nothing is lowered for them
  have none (full : Scope) : ∃ q q' : Progress,
      [].mapM (lowerAssignment full) q = .ok [] q' ∧ q'.KeepsGroups p' :=
    ⟨⟨.empty, .empty⟩, _, rfl, List.nil_prefix⟩
  have restricted {full : Scope} {restriction : Option Predicate} {lowered : Option Sql.Predicate}
      {q : Progress} (ran : lowerRestriction full restriction q = .ok lowered p') :
      (restrictionConditions restriction).mapM (lowerPredicate full) q =
        .ok (Sql.restrictionConditions lowered) p' := by
    rw [← lowerRestriction_conditions]
    exact run_map_ok.mpr ⟨lowered, ran, rfl⟩
  cases s with
  | select s =>
    obtain ⟨rooted, p₁, roots, run⟩ := run_bind_ok.mp run
    obtain ⟨full, p₂, values, run⟩ := run_bind_ok.mp run
    obtain ⟨selected, p₃, -, run⟩ := run_bind_ok.mp run
    obtain ⟨restriction, p₄, ran, made⟩ := run_bind_ok.mp run
    cases made
    obtain ⟨-, -, -, entered⟩ := addRoots_slotless c s.roots roots
    obtain ⟨-, -, model, kept, -⟩ := addValues_lowers rooted s.values values
    exact ⟨full, model.trans entered.model, kept.trans entered.expansions, rfl, none full,
      p₃, restricted ran⟩
  | update u =>
    obtain ⟨⟨table, full⟩, p₁, target, run⟩ := run_bind_ok.mp run
    obtain ⟨assignments, p₂, assigned, run⟩ := run_bind_ok.mp run
    obtain ⟨restriction, p₃, ran, made⟩ := run_bind_ok.mp run
    cases made
    obtain ⟨-, -, -, entered⟩ := rootTable_slotless c u.target target
    refine ⟨full, entered.model, entered.expansions, rfl, ⟨p₁, p₂, ?_, ?_⟩, p₂, restricted ran⟩
    · rw [← lowerAssignments_eq]
      exact assigned
    · exact (lowerRestriction_lowers full u.restriction).keepsGroups ran
  | delete d =>
    obtain ⟨⟨table, full⟩, p₁, target, run⟩ := run_bind_ok.mp run
    obtain ⟨restriction, p₂, ran, made⟩ := run_bind_ok.mp run
    cases made
    obtain ⟨-, -, -, entered⟩ := rootTable_slotless c d.target target
    exact ⟨full, entered.model, entered.expansions, rfl, none full, p₁, restricted ran⟩

theorem lowerStatement_stages {model : Model} {strict : Bool}
    {expansions : OccurrenceId → List Occurrence} {s : Statement} {w w' : Workspace} {l : Lowered}
    (lowered : lowerStatement model strict expansions s w = .ok l w') :
    ∃ (c : Scope) (last : Progress), c.model = model ∧ c.expansions = expansions ∧
      c.source = l.source ∧ last.ledger = l.ledger ∧ Stages c s l.statement last := by
  obtain ⟨p, run, ledger⟩ := lowerStatement_ok lowered
  obtain ⟨c, scope, kept, whole, stages⟩ := lowerParts_stages run
  exact ⟨c, p, scope, kept, whole, ledger, stages⟩

end Lowering

end SemanticQuery
