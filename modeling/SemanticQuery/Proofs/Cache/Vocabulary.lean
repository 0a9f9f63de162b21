import SemanticQuery.Proofs.Fingerprint.Skeleton
import SemanticQuery.Proofs.Query.Bare

/-! Reading a statement back off its skeleton. A skeleton has types and values by their texts and
functions by their names, so it gives the bare statement to those whose vocabulary tells them apart. -/
namespace SemanticQuery.Fingerprint
open Query Binding

/-- Types, values and functions that are told apart by what a skeleton has of them. -/
structure Vocabulary where
  types : ExprType → Prop
  values : Value → Prop
  functions : Callee → Prop
  types_apart : ∀ {a b}, types a → types b → markOf a = markOf b → a = b
  values_apart : ∀ {a b}, values a → values b → a.kind = b.kind → a.toText = b.toText → a = b
  functions_apart : ∀ {f g}, functions f → functions g → f.name = g.name → f = g

namespace Vocabulary

/-- A node whose type, value and function are in the vocabulary. An occurrence is one of the statement's
own. -/
def Legible (V : Vocabulary) : Expr → Prop
  | .literal _ v type => V.values v ∧ V.types type
  | .parameter _ o => (∀ type ∈ o.anticipated, V.types type) ∧
      (∀ type ∈ o.parameter.declared, V.types type) ∧ o.expands = none
  | .path .. | .tuple .. => True
  | .call _ function _ implied _ => V.functions function ∧ ∀ type ∈ implied, V.types type

def LegibleAll (V : Vocabulary) (es : List Expr) : Prop := ∀ e ∈ es, V.Legible e

variable {V : Vocabulary}

theorem option_apart {a b : Option ExprType} (left : ∀ type ∈ a, V.types type)
    (right : ∀ type ∈ b, V.types type) (same : a.map markOf = b.map markOf) : a = b := by
  cases a with
  | none =>
    cases b with
    | none => rfl
    | some type => cases same
  | some type =>
    cases b with
    | none => cases same
    | some other => rw [V.types_apart (left _ rfl) (right _ rfl) (Option.some.inj same)]

end Vocabulary

/-- Two tables with as many expansions for each of some occurrences. -/
def AsWide (t t' : OccurrenceTable) (os : List Occurrence) : Prop :=
  ∀ o ∈ os, (t.expansions o.id).length = (t'.expansions o.id).length

/-- What is read back of two parts with one skeleton: they are bare equal, and their tables are as
wide. -/
structure ReadsAlike {α : Type} (t t' : OccurrenceTable) (ns : List Expr) (bare bare' : α) : Prop where
  bare : bare = bare'
  wide : AsWide t t' (ns.filterMap Expr.occurrence?)

variable {V : Vocabulary} {t t' : OccurrenceTable}

theorem asWide_append {ns more : List Expr} (first : AsWide t t' (ns.filterMap Expr.occurrence?))
    (later : AsWide t t' (more.filterMap Expr.occurrence?)) :
    AsWide t t' ((ns ++ more).filterMap Expr.occurrence?) := by
  rw [List.filterMap_append]
  exact List.forall_mem_append.mpr ⟨first, later⟩

theorem occurrence_reads {node node' : NodeId} {o o' : Occurrence}
    (legible : V.Legible (.parameter node o))
    (legible' : V.Legible (.parameter node' o')) (same : parameterMark t o = parameterMark t' o') :
    o = o' ∧ (t.expansions o.id).length = (t'.expansions o.id).length := by
  obtain ⟨id, ⟨key, declared, multiValued⟩, anticipated, expands⟩ := o
  obtain ⟨id', ⟨key', declared', multiValued'⟩, anticipated', expands'⟩ := o'
  simp only [parameterMark, Occurrence.key, ParameterMark.mk.injEq] at same
  obtain ⟨rfl, rfl, anticipatedMarks, declaredMarks, rfl, expansions⟩ := same
  obtain rfl := V.option_apart legible.1 legible'.1 anticipatedMarks
  obtain rfl := V.option_apart legible.2.1 legible'.2.1 declaredMarks
  obtain rfl : expands = none := legible.2.2
  obtain rfl : expands' = none := legible'.2.2
  have lengths := congrArg List.length expansions
  rw [List.length_map, List.length_map] at lengths
  exact ⟨rfl, lengths⟩

mutual

theorem expr_reads : (e e' : Expr) → V.LegibleAll e.nodes → V.LegibleAll e'.nodes →
    exprSkeleton t e = exprSkeleton t' e' → ReadsAlike t t' e.nodes e.bare e'.bare
  | .literal _ v type, e', legible, legible', same => by
    cases e' with
    | literal node' v' type' =>
      simp only [exprSkeleton, ExprSkeleton.literal.injEq] at same
      have own := legible _ (Expr.mem_nodes _)
      have own' := legible' _ (Expr.mem_nodes _)
      obtain rfl := V.values_apart own.1 own'.1 same.2.1 same.2.2
      obtain rfl := V.types_apart own.2 own'.2 same.1
      exact ⟨rfl, by simp [AsWide, Expr.nodes, Expr.occurrence?]⟩
    | parameter | path | call | tuple => cases same
  | .parameter _ o, e', legible, legible', same => by
    cases e' with
    | parameter node' o' =>
      simp only [exprSkeleton, ExprSkeleton.parameter.injEq] at same
      obtain ⟨rfl, wide⟩ := occurrence_reads (legible _ (Expr.mem_nodes _))
        (legible' _ (Expr.mem_nodes _)) same
      exact ⟨rfl, by simpa [AsWide, Expr.nodes, Expr.occurrence?] using wide⟩
    | literal | path | call | tuple => cases same
  | .path _ source, e', legible, legible', same => by
    cases e' with
    | path node' source' =>
      simp only [exprSkeleton, ExprSkeleton.path.injEq] at same
      have sources : source = source' := by
        cases source
        cases source'
        rw [PathRef.mk.injEq]
        exact same
      exact ⟨by rw [Expr.bare, Expr.bare, sources], by simp [AsWide, Expr.nodes, Expr.occurrence?]⟩
    | literal | parameter | call | tuple => cases same
  | .call _ function arguments implied _, e', legible, legible', same => by
    cases e' with
    | call node' function' arguments' implied' notes' =>
      simp only [exprSkeleton, ExprSkeleton.call.injEq] at same
      have own := legible _ (Expr.mem_nodes _)
      have own' := legible' _ (Expr.mem_nodes _)
      obtain rfl := V.functions_apart own.1 own'.1 same.1
      obtain rfl := V.option_apart own.2 own'.2 same.2.1
      have below := exprs_read arguments arguments'
        (fun e mem => legible e (List.mem_cons_of_mem _ mem))
        (fun e mem => legible' e (List.mem_cons_of_mem _ mem)) same.2.2
      exact ⟨by rw [Expr.bare, Expr.bare, below.bare], below.wide⟩
    | literal | parameter | path | tuple => cases same
  | .tuple _ elements _, e', legible, legible', same => by
    cases e' with
    | tuple node' elements' notes' =>
      simp only [exprSkeleton, ExprSkeleton.tuple.injEq] at same
      have below := exprs_read elements elements'
        (fun e mem => legible e (List.mem_cons_of_mem _ mem))
        (fun e mem => legible' e (List.mem_cons_of_mem _ mem)) same
      exact ⟨by rw [Expr.bare, Expr.bare, below.bare], below.wide⟩
    | literal | parameter | path | call => cases same

theorem exprs_read : (es es' : List Expr) → V.LegibleAll (Expr.nodesOf es) →
    V.LegibleAll (Expr.nodesOf es') → exprSkeletons t es = exprSkeletons t' es' →
    ReadsAlike t t' (Expr.nodesOf es) (Expr.bareAll es) (Expr.bareAll es')
  | [], [], _, _, _ => ⟨rfl, by simp [AsWide, Expr.nodesOf]⟩
  | [], _ :: _, _, _, same => by cases same
  | _ :: _, [], _, _, same => by cases same
  | e :: rest, e' :: rest', legible, legible', same => by
    rw [Vocabulary.LegibleAll, Expr.nodesOf, List.forall_mem_append] at legible legible'
    rw [exprSkeletons, exprSkeletons, List.cons.injEq] at same
    have first := expr_reads e e' legible.1 legible'.1 same.1
    have later := exprs_read rest rest' legible.2 legible'.2 same.2
    exact ⟨by rw [Expr.bareAll, Expr.bareAll, first.bare, later.bare],
      asWide_append first.wide later.wide⟩

end

mutual

theorem predicate_reads : (p p' : Predicate) → V.LegibleAll p.nodes → V.LegibleAll p'.nodes →
    predicateSkeleton t p = predicateSkeleton t' p' → ReadsAlike t t' p.nodes p.bare p'.bare
  | .comparison lhs operator rhs, p', legible, legible', same => by
    cases p' with
    | comparison lhs' operator' rhs' =>
      rw [Vocabulary.LegibleAll, Predicate.nodes, List.forall_mem_append] at legible legible'
      rw [predicateSkeleton, predicateSkeleton, PredicateSkeleton.comparison.injEq] at same
      have l := expr_reads lhs lhs' legible.1 legible'.1 same.1
      have r := expr_reads rhs rhs' legible.2 legible'.2 same.2.2
      rw [Predicate.nodes]
      exact ⟨by rw [Predicate.bare, Predicate.bare, l.bare, same.2.1, r.bare],
        asWide_append l.wide r.wide⟩
    | inList | and | or | not | isNull => cases same
  | .inList test items negated, p', legible, legible', same => by
    cases p' with
    | inList test' items' negated' =>
      rw [Vocabulary.LegibleAll, Predicate.nodes, List.forall_mem_append] at legible legible'
      rw [predicateSkeleton, predicateSkeleton, PredicateSkeleton.inList.injEq] at same
      have tests := expr_reads test test' legible.1 legible'.1 same.1
      have all := exprs_read items items' legible.2 legible'.2 same.2.1
      rw [Predicate.nodes]
      exact ⟨by rw [Predicate.bare, Predicate.bare, tests.bare, all.bare, same.2.2],
        asWide_append tests.wide all.wide⟩
    | comparison | and | or | not | isNull => cases same
  | .and children, p', legible, legible', same => by
    cases p' with
    | and children' =>
      rw [predicateSkeleton, predicateSkeleton, PredicateSkeleton.and.injEq] at same
      have all := predicates_read children children' legible legible' same
      exact ⟨by rw [Predicate.bare, Predicate.bare, all.bare], all.wide⟩
    | comparison | inList | or | not | isNull => cases same
  | .or children, p', legible, legible', same => by
    cases p' with
    | or children' =>
      rw [predicateSkeleton, predicateSkeleton, PredicateSkeleton.or.injEq] at same
      have all := predicates_read children children' legible legible' same
      exact ⟨by rw [Predicate.bare, Predicate.bare, all.bare], all.wide⟩
    | comparison | inList | and | not | isNull => cases same
  | .not inner, p', legible, legible', same => by
    cases p' with
    | not inner' =>
      rw [Predicate.nodes] at legible legible' ⊢
      rw [predicateSkeleton, predicateSkeleton, PredicateSkeleton.not.injEq] at same
      have below := predicate_reads inner inner' legible legible' same
      exact ⟨by rw [Predicate.bare, Predicate.bare, below.bare], below.wide⟩
    | comparison | inList | and | or | isNull => cases same
  | .isNull e negated, p', legible, legible', same => by
    cases p' with
    | isNull e' negated' =>
      rw [predicateSkeleton, predicateSkeleton, PredicateSkeleton.isNull.injEq] at same
      have below := expr_reads e e' legible legible' same.1
      exact ⟨by rw [Predicate.bare, Predicate.bare, below.bare, same.2], below.wide⟩
    | comparison | inList | and | or | not => cases same

theorem predicates_read : (ps ps' : List Predicate) → V.LegibleAll (Predicate.nodesOf ps) →
    V.LegibleAll (Predicate.nodesOf ps') → predicateSkeletons t ps = predicateSkeletons t' ps' →
    ReadsAlike t t' (Predicate.nodesOf ps) (Predicate.bareAll ps) (Predicate.bareAll ps')
  | [], [], _, _, _ => ⟨rfl, by simp [AsWide, Predicate.nodesOf]⟩
  | [], _ :: _, _, _, same => by cases same
  | _ :: _, [], _, _, same => by cases same
  | p :: rest, p' :: rest', legible, legible', same => by
    rw [Vocabulary.LegibleAll, Predicate.nodesOf, List.forall_mem_append] at legible legible'
    rw [predicateSkeletons, predicateSkeletons, List.cons.injEq] at same
    have first := predicate_reads p p' legible.1 legible'.1 same.1
    have later := predicates_read rest rest' legible.2 legible'.2 same.2
    exact ⟨by rw [Predicate.bareAll, Predicate.bareAll, first.bare, later.bare],
      asWide_append first.wide later.wide⟩

end

theorem restriction_reads {restriction restriction' : Option Predicate}
    (legible : V.LegibleAll (restrictionNodes restriction))
    (legible' : V.LegibleAll (restrictionNodes restriction'))
    (same : restriction.map (predicateSkeleton t) = restriction'.map (predicateSkeleton t')) :
    ReadsAlike t t' (restrictionNodes restriction) (restriction.map Predicate.bare)
      (restriction'.map Predicate.bare) := by
  cases restriction with
  | none =>
    cases restriction' with
    | none => exact ⟨rfl, by simp [AsWide, restrictionNodes]⟩
    | some p' => cases same
  | some p =>
    cases restriction' with
    | none => cases same
    | some p' =>
      have read := predicate_reads p p' legible legible' (Option.some.inj same)
      exact ⟨congrArg some read.bare, read.wide⟩

/-- Lists of parts are read back part by part. -/
theorem parts_read {α β γ : Type} {f g : α → β} {bare : α → γ} {nodesOf : α → List Expr}
    (each : ∀ a a', V.LegibleAll (nodesOf a) → V.LegibleAll (nodesOf a') → f a = g a' →
      ReadsAlike t t' (nodesOf a) (bare a) (bare a')) {as as' : List α}
    (legible : V.LegibleAll (as.flatMap nodesOf)) (legible' : V.LegibleAll (as'.flatMap nodesOf))
    (same : as.map f = as'.map g) :
    ReadsAlike t t' (as.flatMap nodesOf) (as.map bare) (as'.map bare) := by
  induction as generalizing as' with
  | nil =>
    cases as' with
    | nil => exact ⟨rfl, by simp [AsWide]⟩
    | cons => cases same
  | cons a rest ih =>
    cases as' with
    | nil => cases same
    | cons a' rest' =>
      rw [Vocabulary.LegibleAll, List.flatMap_cons, List.forall_mem_append] at legible legible'
      rw [List.map_cons, List.map_cons, List.cons.injEq] at same
      have first := each a a' legible.1 legible'.1 same.1
      have later := ih legible.2 legible'.2 same.2
      rw [List.flatMap_cons]
      exact ⟨by rw [List.map_cons, List.map_cons, first.bare, later.bare],
        asWide_append first.wide later.wide⟩

theorem values_read (root root' : ValuesRoot) (legible : V.LegibleAll (root.rows.flatMap Expr.nodesOf))
    (legible' : V.LegibleAll (root'.rows.flatMap Expr.nodesOf))
    (same : valuesSkeleton t root = valuesSkeleton t' root') :
    ReadsAlike t t' (root.rows.flatMap Expr.nodesOf) root.bare root'.bare := by
  simp only [valuesSkeleton, ValuesSkeleton.mk.injEq] at same
  have rows := parts_read exprs_read legible legible' same.2.2
  exact ⟨by rw [ValuesRoot.bare, ValuesRoot.bare, rows.bare, same.1, same.2.1], rows.wide⟩

theorem selection_reads (item item' : Selection) (legible : V.LegibleAll item.expr.nodes)
    (legible' : V.LegibleAll item'.expr.nodes)
    (same : selectionSkeleton t item = selectionSkeleton t' item') :
    ReadsAlike t t' item.expr.nodes item.bare item'.bare := by
  simp only [selectionSkeleton, SelectionSkeleton.mk.injEq] at same
  have read := expr_reads item.expr item'.expr legible legible' same.1
  exact ⟨by rw [Selection.bare, Selection.bare, read.bare, same.2], read.wide⟩

theorem assignment_reads (a a' : Assignment) (legible : V.LegibleAll a.value.nodes)
    (legible' : V.LegibleAll a'.value.nodes)
    (same : assignmentSkeleton t a = assignmentSkeleton t' a') :
    ReadsAlike t t' a.value.nodes a.bare a'.bare := by
  simp only [assignmentSkeleton, AssignmentSkeleton.mk.injEq] at same
  have read := expr_reads a.value a'.value legible legible' same.2
  exact ⟨by rw [Assignment.bare, Assignment.bare, read.bare, same.1], read.wide⟩

/-- Legible statements of one skeleton are bare equal, and their tables are as wide. -/
theorem statement_reads {s s' : Statement} (legible : V.LegibleAll s.nodes)
    (legible' : V.LegibleAll s'.nodes) (same : skeleton t s = skeleton t' s') :
    ReadsAlike t t' s.nodes s.bare s'.bare := by
  cases s with
  | select s =>
    cases s' with
    | select s' =>
      simp only [Vocabulary.LegibleAll, Statement.nodes, List.forall_mem_append] at legible legible'
      simp only [skeleton, StatementSkeleton.select.injEq] at same
      have values := parts_read values_read legible.1.1 legible'.1.1 same.2.1
      have selections := parts_read selection_reads legible.1.2 legible'.1.2 same.2.2.1
      have restriction := restriction_reads legible.2 legible'.2 same.2.2.2
      refine ⟨?_, asWide_append (asWide_append values.wide selections.wide) restriction.wide⟩
      rw [Statement.bare, Statement.bare, same.1, values.bare, selections.bare, restriction.bare]
    | update | delete => cases same
  | update u =>
    cases s' with
    | update u' =>
      simp only [Vocabulary.LegibleAll, Statement.nodes, List.forall_mem_append] at legible legible'
      simp only [skeleton, StatementSkeleton.update.injEq] at same
      have assignments := parts_read assignment_reads legible.1 legible'.1 same.2.1
      have restriction := restriction_reads legible.2 legible'.2 same.2.2
      refine ⟨?_, asWide_append assignments.wide restriction.wide⟩
      rw [Statement.bare, Statement.bare, same.1, assignments.bare, restriction.bare]
    | select | delete => cases same
  | delete d =>
    cases s' with
    | delete d' =>
      simp only [skeleton, StatementSkeleton.delete.injEq] at same
      have restriction := restriction_reads legible legible' same.2
      refine ⟨?_, restriction.wide⟩
      rw [Statement.bare, Statement.bare, same.1, restriction.bare]
    | select | update => cases same

end SemanticQuery.Fingerprint
