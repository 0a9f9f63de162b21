import SemanticQuery.Proofs.Fingerprint.Skeleton

/-! What a fingerprint has of expansions: how many an occurrence has, and which types are anticipated
for them. Their identities do not count. -/
namespace SemanticQuery.Fingerprint
open Query Binding

/-- Tables whose expansions look alike to the encoding. -/
def ExpandAlike (t t' : OccurrenceTable) : Prop :=
  ∀ id, (t.expansions id).map Occurrence.anticipated = (t'.expansions id).map Occurrence.anticipated

variable {t t' : OccurrenceTable}

theorem ofExpansions_eq (alike : ExpandAlike t t') (id : OccurrenceId) :
    ofList (fun e : Occurrence => ofOption ofType e.anticipated) (t.expansions id) =
      ofList (fun e : Occurrence => ofOption ofType e.anticipated) (t'.expansions id) := by
  have read (es : List Occurrence) : ofList (fun e : Occurrence => ofOption ofType e.anticipated) es =
      ofList (ofOption ofType) (es.map Occurrence.anticipated) :=
    (ofList_map (ofOption ofType) Occurrence.anticipated es).symm
  rw [read, read, alike]

mutual

theorem ofExpr_eq (alike : ExpandAlike t t') : (e : Expr) → ofExpr t e = ofExpr t' e
  | .literal .. | .path .. => rfl
  | .parameter _ o => by simp only [ofExpr, ofExpansions_eq alike o.id]
  | .call _ _ arguments _ _ => by simp only [ofExpr, ofExprs_eq alike arguments]
  | .tuple _ elements _ => by simp only [ofExpr, ofExprs_eq alike elements]

theorem ofExprs_eq (alike : ExpandAlike t t') : (es : List Expr) → ofExprs t es = ofExprs t' es
  | [] => rfl
  | e :: rest => by simp only [ofExprs, ofExpr_eq alike e, ofExprs_eq alike rest]

end

mutual

theorem ofPredicate_eq (alike : ExpandAlike t t') : (p : Predicate) → ofPredicate t p = ofPredicate t' p
  | .comparison lhs _ rhs => by
    simp only [ofPredicate, ofExpr_eq alike lhs, ofExpr_eq alike rhs]
  | .inList test items _ => by
    simp only [ofPredicate, ofExpr_eq alike test, ofExprs_eq alike items]
  | .and children | .or children => by simp only [ofPredicate, ofPredicates_eq alike children]
  | .not inner => by simp only [ofPredicate, ofPredicate_eq alike inner]
  | .isNull e _ => by simp only [ofPredicate, ofExpr_eq alike e]

theorem ofPredicates_eq (alike : ExpandAlike t t') : (ps : List Predicate) →
    ofPredicates t ps = ofPredicates t' ps
  | [] => rfl
  | p :: rest => by simp only [ofPredicates, ofPredicate_eq alike p, ofPredicates_eq alike rest]

end

section
variable (alike : ExpandAlike t t')
include alike

theorem ofRestriction_eq (restriction : Option Predicate) :
    ofRestriction t restriction = ofRestriction t' restriction := by
  cases restriction with
  | none => rfl
  | some p => simp only [ofRestriction, ofPredicate_eq alike p]

theorem ofValues_eq : ofValues t = ofValues t' := by
  have rows : ofRow t = ofRow t' := by
    funext row
    rw [ofRow, ofRow, ofExprs_eq alike row]
  funext root
  rw [ofValues, ofValues, rows]

theorem ofSelection_eq : ofSelection t = ofSelection t' := by
  funext item
  rw [ofSelection, ofSelection, ofExpr_eq alike item.expr]

theorem ofAssignment_eq : ofAssignment t = ofAssignment t' := by
  funext a
  rw [ofAssignment, ofAssignment, ofExpr_eq alike a.value]

theorem stream_eq_of_alike (s : Statement) : stream s t = stream s t' := by
  have statement : ofStatement t s = ofStatement t' s := by
    cases s with
    | select s =>
      simp only [ofStatement, ofValues_eq alike, ofSelection_eq alike, ofRestriction_eq alike]
    | update u => simp only [ofStatement, ofAssignment_eq alike, ofRestriction_eq alike]
    | delete d => simp only [ofStatement, ofRestriction_eq alike]
  rw [stream, stream, statement]

end

end SemanticQuery.Fingerprint
