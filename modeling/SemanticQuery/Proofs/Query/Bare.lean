import SemanticQuery.Proofs.Query.Copies
import SemanticQuery.Proofs.Query.Typing

/-! Bare statements: all that lowering reads of a statement, without identities of nodes, notes and the
kinds of assigned paths. Copies are bare as what they are copies of. -/
namespace SemanticQuery.Query

namespace Expr

mutual

def bare : Expr → Expr
  | literal _ v type => literal 0 v type
  | parameter _ o => parameter 0 o
  | path _ source => path 0 source
  | call _ function arguments implied _ => call 0 function (bareAll arguments) implied .none
  | tuple _ elements _ => tuple 0 (bareAll elements) .none

def bareAll : List Expr → List Expr
  | [] => []
  | e :: rest => e.bare :: bareAll rest

end

mutual

theorem seen_bare : (e : Expr) → e.bare.seen = e.seen
  | literal .. | parameter .. | path .. => rfl
  | call _ _ arguments _ _ => by
    rw [bare, seen, seen, seenAll_bareAll arguments]
  | tuple _ elements _ => by
    rw [bare, seen, seen, seenAll_bareAll elements]

theorem seenAll_bareAll : (es : List Expr) → seenAll (bareAll es) = seenAll es
  | [] => rfl
  | e :: rest => by
    rw [bareAll, seenAll, seenAll, seen_bare e, seenAll_bareAll rest]

end

mutual

/-- Whatever functions make of their arguments, the types of bare expressions are the same. -/
theorem ownTypeWithin_bare : (e : Expr) → (place : Place) → e.bare.ownTypeWithin place = e.ownTypeWithin place
  | literal .., [] | parameter .., [] | path .., [] | tuple .., [] => rfl
  | literal .., _ :: _ | parameter .., _ :: _ | path .., _ :: _ => rfl
  | call _ _ arguments _ _, [] => by
    simp only [bare, ownTypeWithin, seenAll_bareAll, ownTypeAmong_bareAll arguments]
  | call _ _ arguments _ _, index :: below => by
    rw [bare, ownTypeWithin, ownTypeWithin, ownTypeAmong_bareAll arguments]
  | tuple _ elements _, index :: below => by
    rw [bare, ownTypeWithin, ownTypeWithin, ownTypeAmong_bareAll elements]

theorem ownTypeAmong_bareAll : (es : List Expr) → (place : Place) →
    ownTypeAmong (bareAll es) place = ownTypeAmong es place
  | [], _ | _ :: _, [] => rfl
  | e :: _, 0 :: below => by
    rw [bareAll, ownTypeAmong, ownTypeAmong, ownTypeWithin_bare e]
  | _ :: rest, (index + 1) :: below => by
    rw [bareAll, ownTypeAmong, ownTypeAmong, ownTypeAmong_bareAll rest]

end

theorem ownType_bare (e : Expr) : e.bare.ownType = e.ownType := e.ownTypeWithin_bare []

theorem bareAll_eq_of_forall₂ {es es' : List Expr}
    (related : List.Forall₂ (fun e copy => copy.bare = e.bare) es es') : bareAll es' = bareAll es := by
  induction related with
  | nil => rfl
  | cons first _ ih => rw [bareAll, bareAll, first, ih]

end Expr

namespace Predicate

mutual

def bare : Predicate → Predicate
  | comparison lhs operator rhs => comparison lhs.bare operator rhs.bare
  | inList test items negated => inList test.bare (Expr.bareAll items) negated
  | and children => and (bareAll children)
  | or children => or (bareAll children)
  | not inner => not inner.bare
  | isNull e negated => isNull e.bare negated

def bareAll : List Predicate → List Predicate
  | [] => []
  | p :: rest => p.bare :: bareAll rest

end

mutual

theorem Related.bare : {p p' : Predicate} → p.Related (fun e copy => copy.bare = e.bare) p' →
    p'.bare = p.bare
  | .comparison .., .comparison .., related => by
    cases related with
    | comparison left right => rw [Predicate.bare, Predicate.bare, left, right]
  | .inList .., .inList .., related => by
    cases related with
    | inList tests all =>
      rw [Predicate.bare, Predicate.bare, tests, Expr.bareAll_eq_of_forall₂ all]
  | .and _, .and _, related => by
    cases related with
    | and all => rw [Predicate.bare, Predicate.bare, RelatedAll.bare all]
  | .or _, .or _, related => by
    cases related with
    | or all => rw [Predicate.bare, Predicate.bare, RelatedAll.bare all]
  | .not _, .not _, related => by
    cases related with
    | not related => rw [Predicate.bare, Predicate.bare, Related.bare related]
  | .isNull .., .isNull .., related => by
    cases related with
    | isNull related => rw [Predicate.bare, Predicate.bare, related]

theorem RelatedAll.bare : {ps ps' : List Predicate} →
    Predicate.RelatedAll (fun e copy => copy.bare = e.bare) ps ps' → bareAll ps' = bareAll ps
  | [], [], _ => rfl
  | _ :: _, _ :: _, related => by
    cases related with
    | cons first later =>
      rw [bareAll, bareAll, Related.bare first, RelatedAll.bare later]

end

end Predicate

def ValuesRoot.bare (root : ValuesRoot) : ValuesRoot :=
  { root with rows := root.rows.map Expr.bareAll }

def Selection.bare (item : Selection) : Selection := { item with expr := item.expr.bare }

def Assignment.bare (a : Assignment) : Assignment := ⟨⟨a.target.path, .object⟩, a.value.bare⟩

namespace Statement

def bare : Statement → Statement
  | select s => select {
      roots := s.roots
      values := s.values.map ValuesRoot.bare
      selections := s.selections.map Selection.bare
      restriction := s.restriction.map Predicate.bare }
  | update u => update {
      target := u.target
      assignments := u.assignments.map Assignment.bare
      restriction := u.restriction.map Predicate.bare }
  | delete d => delete { d with restriction := d.restriction.map Predicate.bare }

end Statement

theorem map_eq_of_forall₂ {α β : Type} {R : α → α → Prop} (f : α → β) {as as' : List α}
    (each : ∀ a a', R a a' → f a' = f a) (related : List.Forall₂ R as as') : as'.map f = as.map f := by
  induction related with
  | nil => rfl
  | cons first _ ih => rw [List.map_cons, List.map_cons, each _ _ first, ih]

theorem bare_of_restriction {restriction restriction' : Option Predicate}
    (related : Option.Rel (Predicate.Related fun e copy => copy.bare = e.bare) restriction
      restriction') :
    restriction'.map Predicate.bare = restriction.map Predicate.bare := by
  cases related with
  | none => rfl
  | some related => rw [Option.map_some, Option.map_some, related.bare]

theorem ValuesRoot.Related.bare {root root' : ValuesRoot}
    (related : root.Related (fun e copy => copy.bare = e.bare) root') : root'.bare = root.bare := by
  have rows := map_eq_of_forall₂ Expr.bareAll (fun _ _ => Expr.bareAll_eq_of_forall₂) related.rows
  rw [ValuesRoot.bare, ValuesRoot.bare, rows, related.path, related.columns]

theorem Selection.Related.bare {item item' : Selection}
    (related : item.Related (fun e copy => copy.bare = e.bare) item') : item'.bare = item.bare := by
  rw [Selection.bare, Selection.bare, related.expr, related.label]

theorem Assignment.Related.bare {a a' : Assignment}
    (related : a.Related (fun e copy => copy.bare = e.bare) a') : a'.bare = a.bare := by
  rw [Assignment.bare, Assignment.bare, related.value, related.target]

theorem Statement.Related.bare {s s' : Statement}
    (related : s.Related (fun e copy => copy.bare = e.bare) s') : s'.bare = s.bare := by
  cases related with
  | select roots values selections restriction =>
    have sources := map_eq_of_forall₂ ValuesRoot.bare (fun _ _ => ValuesRoot.Related.bare) values
    have items := map_eq_of_forall₂ Selection.bare (fun _ _ => Selection.Related.bare) selections
    rw [Statement.bare, Statement.bare, roots, sources, items, bare_of_restriction restriction]
  | update target assignments restriction =>
    have values := map_eq_of_forall₂ Assignment.bare (fun _ _ => Assignment.Related.bare) assignments
    rw [Statement.bare, Statement.bare, target, values, bare_of_restriction restriction]
  | delete target restriction =>
    rw [Statement.bare, Statement.bare, target, bare_of_restriction restriction]

/-- Places of a statement that hold one identity hold one node. -/
def Statement.Shares (s : Statement) : Prop :=
  ∀ e ∈ s.nodes, ∀ other ∈ s.nodes, e.node = other.node → e = other

theorem bare_relation {s : Statement} (shares : s.Shares) :
    CopyRelation (· ∈ s.nodes) (fun e copy => copy.bare = e.bare) where
  arguments member a below := s.nodes_closed _ member a below
  elements member e below := s.nodes_closed _ member e below
  shared member memberOther same related := shares _ member _ memberOther same ▸ related
  literal _ := rfl
  parameter _ := rfl
  path _ := rfl
  call _ related := by rw [Expr.bare, Expr.bare, Expr.bareAll_eq_of_forall₂ related]
  tuple _ related := by rw [Expr.bare, Expr.bare, Expr.bareAll_eq_of_forall₂ related]

theorem copy_bare {s : Statement} (shares : s.Shares) (w : Workspace) :
    (copyInto s.copy .empty w).1.bare = s.bare :=
  (copyInto_related (bare_relation shares) (fun _ mem => mem) w).bare

/-! A bare statement has the occurrences of the statement. -/

mutual

theorem Expr.parameters_bare : (e : Expr) → e.bare.parameters = e.parameters
  | .literal .. | .parameter .. | .path .. => rfl
  | .call _ _ arguments _ _ => by
    rw [bare, parameters_call, parameters_call, parametersOf_bareAll arguments]
  | .tuple _ elements _ => by
    rw [bare, parameters_tuple, parameters_tuple, parametersOf_bareAll elements]

theorem Expr.parametersOf_bareAll : (es : List Expr) →
    Expr.parametersOf (Expr.bareAll es) = Expr.parametersOf es
  | [] => rfl
  | e :: rest => by
    rw [bareAll, parametersOf_cons, parametersOf_cons, parameters_bare e, parametersOf_bareAll rest]

end

mutual

theorem Predicate.parameters_bare : (p : Predicate) →
    p.bare.nodes.filterMap Expr.occurrence? = p.nodes.filterMap Expr.occurrence?
  | .comparison lhs _ rhs => by
    rw [bare, nodes, nodes, List.filterMap_append, List.filterMap_append]
    exact congrArg₂ _ lhs.parameters_bare rhs.parameters_bare
  | .inList test items _ => by
    rw [bare, nodes, nodes, List.filterMap_append, List.filterMap_append]
    exact congrArg₂ _ test.parameters_bare (Expr.parametersOf_bareAll items)
  | .and children | .or children => parametersOf_bareAll children
  | .not inner => by
    rw [bare, nodes, nodes]
    exact parameters_bare inner
  | .isNull e _ => e.parameters_bare

theorem Predicate.parametersOf_bareAll : (ps : List Predicate) →
    (Predicate.nodesOf (Predicate.bareAll ps)).filterMap Expr.occurrence? =
      (Predicate.nodesOf ps).filterMap Expr.occurrence?
  | [] => rfl
  | p :: rest => by
    rw [bareAll, nodesOf, nodesOf, List.filterMap_append, List.filterMap_append]
    exact congrArg₂ _ (parameters_bare p) (parametersOf_bareAll rest)

end

theorem restriction_parameters_bare (restriction : Option Predicate) :
    (restrictionNodes (restriction.map Predicate.bare)).filterMap Expr.occurrence? =
      (restrictionNodes restriction).filterMap Expr.occurrence? := by
  cases restriction with
  | none => rfl
  | some p => exact p.parameters_bare

theorem parameters_map {α : Type} (f : α → α) (nodesOf : α → List Expr)
    (each : ∀ a, (nodesOf (f a)).filterMap Expr.occurrence? = (nodesOf a).filterMap Expr.occurrence?)
    (as : List α) : ((as.map f).flatMap nodesOf).filterMap Expr.occurrence? =
      (as.flatMap nodesOf).filterMap Expr.occurrence? := by
  rw [List.filterMap_flatMap, List.filterMap_flatMap, List.flatMap_map]
  exact congrArg (List.flatMap · as) (funext each)

theorem Statement.parameters_bare (s : Statement) : s.bare.parameters = s.parameters := by
  unfold parameters
  cases s with
  | select s =>
    have values := parameters_map ValuesRoot.bare (fun root => root.rows.flatMap Expr.nodesOf)
      (fun root => parameters_map Expr.bareAll Expr.nodesOf Expr.parametersOf_bareAll root.rows)
    have selections := parameters_map Selection.bare (fun item => item.expr.nodes)
      fun item => item.expr.parameters_bare
    simp only [bare, nodes, List.filterMap_append]
    rw [values, selections, restriction_parameters_bare]
  | update u =>
    have assignments := parameters_map Assignment.bare (fun a => a.value.nodes)
      fun a => a.value.parameters_bare
    simp only [bare, nodes, List.filterMap_append]
    rw [assignments, restriction_parameters_bare]
  | delete d => exact restriction_parameters_bare d.restriction

end SemanticQuery.Query
