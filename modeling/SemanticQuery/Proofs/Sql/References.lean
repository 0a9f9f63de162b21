import SemanticQuery.Proofs.Sql.Placeholders

/-! The columns that relational statements refer to, and the groups they are written over. -/
namespace SemanticQuery.Sql

/-! The references of a statement: what its expressions read and what its assignments set. -/

mutual

/-- The columns an expression refers to, in the arguments of calls too. -/
def Expr.references : Expr → List ColumnRef
  | .column c => [c]
  | .literal .. | .parameter _ => []
  | .call _ _ arguments _ _ => Expr.referencesOf arguments
  | .tuple elements => Expr.referencesOf elements

def Expr.referencesOf : List Expr → List ColumnRef
  | [] => []
  | e :: rest => e.references ++ referencesOf rest

end

theorem Expr.referencesOf_eq_flatMap (es : List Expr) : referencesOf es = es.flatMap references := by
  induction es with
  | nil => rfl
  | cons e rest ih => rw [referencesOf, ih, List.flatMap_cons]

theorem Expr.forall_referencesOf {P : ColumnRef → Prop} {es : List Expr} :
    (∀ ref ∈ referencesOf es, P ref) ↔ ∀ e ∈ es, ∀ ref ∈ e.references, P ref := by
  rw [referencesOf_eq_flatMap, List.forall_mem_flatMap]

/-- The columns that the assignments of a statement set. -/
def Statement.targets : Statement → List ColumnRef
  | .select _ | .delete _ => []
  | .update u => u.assignments.flatMap Assignment.columns

def Statement.references (s : Statement) : List ColumnRef :=
  s.targets ++ s.operands.flatMap Expr.references

/-! What a statement is written over. -/

/-- The groups of the from clause of a select, and a group for the target of an update or a delete. -/
def Statement.Over : Statement → TableGroup → Prop
  | .select s, group => group ∈ s.source.roots
  | .update u, group => ∃ path entity, group = .entity path entity u.target
  | .delete d, group => ∃ path entity, group = .entity path entity d.target

theorem infix_separated (separator : String) {item : List Piece} {items : List (List Piece)}
    (mem : item ∈ items) : item <:+: separated separator items := by
  fun_induction separated separator items with
  | case1 => contradiction
  | case2 only =>
    obtain rfl := List.mem_singleton.mp mem
    exact List.infix_rfl
  | case3 first rest _ ih =>
    rcases List.mem_cons.mp mem with rfl | later
    · exact (List.prefix_append ..).isInfix
    · exact (ih later).trans ((List.suffix_cons ..).trans (List.suffix_append ..)).isInfix

theorem FromClause.infix_pieces {f : FromClause} {group : TableGroup} (mem : group ∈ f.roots) :
    group.pieces <:+: f.pieces := by
  unfold pieces
  split
  next none =>
    rw [none] at mem
    contradiction
  next roots some =>
    apply List.IsInfix.trans (infix_separated ", " (List.mem_map_of_mem mem))
    exact (List.suffix_cons ..).isInfix

/-- A group that a statement is over is written in its text. -/
theorem Statement.Over.infix_pieces {s : Statement} {group : TableGroup} (written : s.Over group) :
    group.pieces <:+: s.pieces := by
  cases s with
  | select s =>
    rw [Statement.pieces]
    obtain ⟨before, after, split⟩ := FromClause.infix_pieces written
    exact ⟨.text "select " :: listPieces (s.selections.map Selection.expr) ++ before,
      after ++ restrictionPieces s.restriction, by simp [← split]⟩
  | update u =>
    obtain ⟨path, entity, rfl⟩ := written
    refine ⟨[.text "update "], .text " set " :: separated ", " (u.assignments.map Assignment.pieces) ++
      restrictionPieces u.restriction, ?_⟩
    simp [Statement.pieces, TableGroup.pieces]
  | delete d =>
    obtain ⟨path, entity, rfl⟩ := written
    exact ⟨[.text "delete from "], restrictionPieces d.restriction, by simp [pieces, TableGroup.pieces]⟩

end SemanticQuery.Sql
