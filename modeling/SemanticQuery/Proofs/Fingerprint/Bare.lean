import SemanticQuery.Proofs.Fingerprint.Skeleton
import SemanticQuery.Proofs.Query.Bare

/-! What a fingerprint has of a statement: nothing that its bare parts do not have. A copy has the fingerprint
of what it is a copy of. -/
namespace SemanticQuery.Fingerprint
open Query Binding

variable (t : OccurrenceTable)

theorem length_bareAll (es : List Expr) : (Expr.bareAll es).length = es.length := by
  induction es with
  | nil => rfl
  | cons e rest ih => rw [Expr.bareAll, List.length_cons, List.length_cons, ih]

theorem length_bareAll_predicates (ps : List Predicate) : (Predicate.bareAll ps).length = ps.length := by
  induction ps with
  | nil => rfl
  | cons p rest ih => rw [Predicate.bareAll, List.length_cons, List.length_cons, ih]

mutual

theorem ofExpr_bare : (e : Expr) → ofExpr t e.bare = ofExpr t e
  | .literal .. | .parameter .. | .path .. => rfl
  | .call _ _ arguments _ _ => by
    simp only [Expr.bare, ofExpr, length_bareAll, ofExprs_bare arguments]
  | .tuple _ elements _ => by
    simp only [Expr.bare, ofExpr, length_bareAll, ofExprs_bare elements]

theorem ofExprs_bare : (es : List Expr) → ofExprs t (Expr.bareAll es) = ofExprs t es
  | [] => rfl
  | e :: rest => by simp only [Expr.bareAll, ofExprs, ofExpr_bare e, ofExprs_bare rest]

end

mutual

theorem ofPredicate_bare : (p : Predicate) → ofPredicate t p.bare = ofPredicate t p
  | .comparison lhs _ rhs => by
    simp only [Predicate.bare, ofPredicate, ofExpr_bare t lhs, ofExpr_bare t rhs]
  | .inList test items _ => by
    simp only [Predicate.bare, ofPredicate, length_bareAll, ofExpr_bare t test, ofExprs_bare t items]
  | .and children | .or children => by
    simp only [Predicate.bare, ofPredicate, length_bareAll_predicates, ofPredicates_bare children]
  | .not inner => by simp only [Predicate.bare, ofPredicate, ofPredicate_bare inner]
  | .isNull e _ => by simp only [Predicate.bare, ofPredicate, ofExpr_bare t e]

theorem ofPredicates_bare : (ps : List Predicate) →
    ofPredicates t (Predicate.bareAll ps) = ofPredicates t ps
  | [] => rfl
  | p :: rest => by
    simp only [Predicate.bareAll, ofPredicates, ofPredicate_bare p, ofPredicates_bare rest]

end

theorem ofRestriction_bare (restriction : Option Predicate) :
    ofRestriction t (restriction.map Predicate.bare) = ofRestriction t restriction := by
  cases restriction with
  | none => rfl
  | some p => simp only [Option.map_some, ofRestriction, ofPredicate_bare]

/-- Parts that are encoded as their bare parts are, in a list. -/
theorem ofList_bare {α : Type} {f : α → Bytes} {bare : α → α} (each : ∀ a, f (bare a) = f a)
    (as : List α) : ofList f (as.map bare) = ofList f as := by
  rw [ofList_map]
  exact congrArg (ofList · as) (funext each)

theorem ofValues_bare (root : ValuesRoot) : ofValues t root.bare = ofValues t root := by
  have row (es : List Expr) : ofRow t (Expr.bareAll es) = ofRow t es := by
    rw [ofRow, ofRow, length_bareAll, ofExprs_bare]
  rw [ofValues, ofValues, ValuesRoot.bare, ofList_bare row]

theorem ofSelection_bare (item : Selection) : ofSelection t item.bare = ofSelection t item := by
  rw [ofSelection, ofSelection, Selection.bare, ofExpr_bare]

theorem ofAssignment_bare (a : Assignment) : ofAssignment t a.bare = ofAssignment t a := by
  rw [ofAssignment, ofAssignment, Assignment.bare, ofExpr_bare]

theorem ofStatement_bare (s : Statement) : ofStatement t s.bare = ofStatement t s := by
  cases s with
  | select s =>
    simp only [Statement.bare, ofStatement, ofList_bare (ofValues_bare t),
      ofList_bare (ofSelection_bare t), ofRestriction_bare]
  | update u =>
    simp only [Statement.bare, ofStatement, ofList_bare (ofAssignment_bare t), ofRestriction_bare]
  | delete d => simp only [Statement.bare, ofStatement, ofRestriction_bare]

theorem fingerprint_eq_of_bare {s s' : Statement} (bare : s.bare = s'.bare) :
    fingerprint s t = fingerprint s' t := by
  rw [fingerprint, fingerprint, stream, stream, ← ofStatement_bare, bare, ofStatement_bare]

end SemanticQuery.Fingerprint
