import SemanticQuery.Model.Sample
import SemanticQuery.Proofs.Lowering.Sequences
import SemanticQuery.Proofs.Mapping.Columns
import SemanticQuery.Proofs.Model.Spans

/-! Parameters opposite a path. The columns of the path come from its names and its mapping side by side, the
slots of the parameter from a hint that resolves the path once more and takes its mapping alone. Where
attributes have the columns their mappings span, the two are alike column for column. -/
namespace SemanticQuery.Lowering
open Query

/-- An occurrence whose own type has no mapping. -/
def Unmapped (model : Model) (source : Sql.FromClause) (o : Occurrence) : Prop :=
  ∀ type, o.type? = some type → model.resolveMapping source type = .ok none

/-- Slots that were allocated for an occurrence, one for each column that a path comes to, of the type of
the column. -/
def StandsFor (model : Model) (source : Sql.FromClause) (ledger : Ledger) (path : Path) (o : Occurrence)
    (refs : List Sql.ColumnRef) (slots : Sql.Expr) : Prop :=
  ∃ r group, model.resolvePath source path = .ok r ∧
    refs = columnRefs r.qualifier r.columns r.mapping ∧ slots = .ofSlots group ∧
    (o.id, group) ∈ ledger.entries ∧ group.length = refs.length ∧
    group.map Slot.type = refs.map fun ref => some ref.type

theorem types_columnRefs (qualifier : String) {columns : List String} {m : Mapping}
    (spanned : columns.length = m.columnCount) :
    (columnRefs qualifier columns m).map Sql.ColumnRef.type = m.columnTypes := by
  rw [← m.columnTypes_length] at spanned
  rw [columnRefs, List.map_map]
  exact List.map_snd_zip (Nat.le_of_eq spanned.symm)

section
variable {c : Scope} {h : Hint} {o : Occurrence} {p p' last : Progress} {e : Sql.Expr}
  {path : PathRef} {node n : NodeId}

theorem lowerPath_ok (ran : lowerPath c path p = .ok e p') :
    ∃ r, c.model.resolvePath c.source path.path = .ok r ∧
      e = .ofColumns (columnRefs r.qualifier r.columns r.mapping) ∧ p' = p := by
  rw [lowerPath] at ran
  cases rooted : c.source.find? (.root path.path.rootName) with
  | none =>
    rw [rooted] at ran
    contradiction
  | some group =>
    rw [rooted] at ran
    obtain ⟨r, q, looked, made⟩ := run_bind_ok.mp ran
    obtain ⟨resolved, rfl⟩ := liftMapping_ok looked
    cases made
    exact ⟨r, resolved, rfl, rfl⟩

theorem lowerPath_of_resolved {group : Sql.TableGroup}
    (rooted : c.source.find? (.root path.path.rootName) = some group) {r : ResolvedPath}
    (resolved : c.model.resolvePath c.source path.path = .ok r) (p : Progress) :
    lowerPath c path p = .ok (.ofColumns (columnRefs r.qualifier r.columns r.mapping)) p := by
  rw [lowerPath, rooted]
  change (liftMapping (c.model.resolvePath c.source path.path) >>= _) p = _
  rw [resolved]
  rfl

/-- The hint of a path is its mapping, whatever has been resolved by then. -/
theorem typeHint_path {r : ResolvedPath} (resolved : c.model.resolvePath c.source path.path = .ok r)
    (w : Workspace) : typeHint c (.path n path) w = (some r.mapping, w) := by
  have looked : c.mapping (.path path) = .ok (some r.mapping) := by
    rw [Scope.mapping, Model.resolveMapping, resolved]
    rfl
  change (c.mapping? (.path path), w) = _
  rw [Scope.mapping?_of_ok looked]

theorem chosenMapping_of_unmapped (unmapped : Unmapped c.model c.source o) (w : Workspace) :
    c.chosenMapping h o w = .ok (h w).1 := by
  have none : c.ownMapping o = .ok none := by
    rw [Scope.ownMapping]
    split
    next type typed => exact unmapped type typed
    · rfl
  rw [Scope.chosenMapping, none]
  rfl

/-- An occurrence that is lowered under the mapping of a path has its columns. -/
theorem standsFor_of_hint (spanned : c.model.Spanned) {r : ResolvedPath}
    (resolved : c.model.resolvePath c.source path.path = .ok r)
    (unmapped : Unmapped c.model c.source o) (hinted : ∀ w, (h w).1 = some r.mapping)
    (ran : lowerParameter c h o p = .ok e p') (kept : p'.KeepsGroups last) :
    StandsFor c.model c.source last.ledger path.path o (columnRefs r.qualifier r.columns r.mapping) e := by
  obtain ⟨mapping, chosen, allotted⟩ := lowerParameter_ok ran
  rw [chosenMapping_of_unmapped unmapped, hinted] at chosen
  cases chosen
  obtain ⟨group, written, allocated, typed⟩ := allotted.hasSlots kept
  have columns := types_columnRefs r.qualifier (Model.spanned_of_resolvePath spanned resolved)
  rw [slotTypes, ← columns, List.map_map] at typed
  refine ⟨r, group, resolved, rfl, written, allocated, ?_, typed⟩
  rw [← List.length_map Slot.type, typed, List.length_map]

end

/-- What lowering makes of the parameters that stand opposite a path in one condition: on the other side of
a comparison, among the items of a list and behind them, or as the test of a list whose first item is the
path. -/
structure FacesPath (model : Model) (source : Sql.FromClause) (ledger : Ledger)
    (expansions : OccurrenceId → List Occurrence) (condition : Predicate) (lowered : Sql.Predicate) :
    Prop where
  right : ∀ {n node : NodeId} {path : PathRef} {operator : Comparison} {o : Occurrence},
    condition = .comparison (.path n path) operator (.parameter node o) → Unmapped model source o →
    ∃ refs slots, lowered = .comparison (.ofColumns refs) operator slots ∧
      StandsFor model source ledger path.path o refs slots
  left : ∀ {n node : NodeId} {path : PathRef} {operator : Comparison} {o : Occurrence},
    condition = .comparison (.parameter node o) operator (.path n path) → Unmapped model source o →
    ∃ refs slots, lowered = .comparison slots operator (.ofColumns refs) ∧
      StandsFor model source ledger path.path o refs slots
  items : ∀ {n : NodeId} {path : PathRef} {items : List Expr} {negated : Bool},
    condition = .inList (.path n path) items negated →
    ∃ refs list, lowered = .inList (.ofColumns refs) list negated ∧
      List.Forall₂ (fun item slots => ∀ node o, item = .parameter node o → Unmapped model source o →
        StandsFor model source ledger path.path o refs slots) (writtenOut expansions items) list
  test : ∀ {n node : NodeId} {path : PathRef} {rest : List Expr} {negated : Bool} {o : Occurrence},
    condition = .inList (.parameter node o) (.path n path :: rest) negated → Unmapped model source o →
    ∃ refs slots list, lowered = .inList slots (.ofColumns refs :: list) negated ∧
      StandsFor model source ledger path.path o refs slots

theorem lowerPredicate_facesPath {c : Scope} (spanned : c.model.Spanned) {condition : Predicate}
    {lowered : Sql.Predicate} {p p' last : Progress} (ran : lowerPredicate c condition p = .ok lowered p')
    (kept : p'.KeepsGroups last) :
    FacesPath c.model c.source last.ledger c.expansions condition lowered where
  right := by
    rintro n node path operator o rfl unmapped
    rw [lowerPredicate] at ran
    obtain ⟨columns, q, first, ran⟩ := run_bind_ok.mp ran
    obtain ⟨slots, q', second, made⟩ := run_bind_ok.mp ran
    cases made
    simp only [lowerExpr] at first second
    obtain ⟨r, resolved, rfl, rfl⟩ := lowerPath_ok first
    exact ⟨_, slots, rfl, standsFor_of_hint spanned resolved unmapped
      (fun w => by rw [typeHint_path resolved]) second kept⟩
  left := by
    rintro n node path operator o rfl unmapped
    rw [lowerPredicate] at ran
    obtain ⟨slots, q, first, ran⟩ := run_bind_ok.mp ran
    obtain ⟨columns, q', second, made⟩ := run_bind_ok.mp ran
    cases made
    simp only [lowerExpr] at first second
    obtain ⟨r, resolved, rfl, rfl⟩ := lowerPath_ok second
    exact ⟨_, slots, rfl, standsFor_of_hint spanned resolved unmapped
      (fun w => by rw [typeHint_path resolved]) first kept⟩
  items := by
    rintro n path items negated rfl
    rw [lowerPredicate] at ran
    obtain ⟨columns, q, first, ran⟩ := run_bind_ok.mp ran
    obtain ⟨list, q', second, made⟩ := run_bind_ok.mp ran
    cases made
    rw [lowerExpr] at first
    obtain ⟨r, resolved, rfl, rfl⟩ := lowerPath_ok first
    rw [lowerItems_eq] at second
    have each := mapM_keepsGroups (lowerExpr_lowers c (typeHint c (.path n path))) second
    refine ⟨_, list, rfl, each.imp ?_⟩
    rintro _ slots ⟨s, s', ran, behind⟩ node o rfl unmapped
    rw [lowerExpr] at ran
    exact standsFor_of_hint spanned resolved unmapped (fun w => by rw [typeHint_path resolved]) ran
      (behind.trans kept)
  test := by
    rintro n node path rest negated o rfl unmapped
    rw [lowerPredicate] at ran
    obtain ⟨slots, q, first, ran⟩ := run_bind_ok.mp ran
    obtain ⟨list, q', second, made⟩ := run_bind_ok.mp ran
    cases made
    -- the slots come first here, and the items behind them must not drop them
    have keptItems := (lowerItems_lowers ..).keepsGroups second
    rw [lowerItems] at second
    obtain ⟨columns, s, column, ran⟩ := run_bind_ok.mp second
    obtain ⟨expanded, s', -, ran⟩ := run_bind_ok.mp ran
    obtain ⟨later, s'', -, made⟩ := run_bind_ok.mp ran
    cases made
    simp only [lowerExpr] at first column
    obtain ⟨r, resolved, rfl, rfl⟩ := lowerPath_ok column
    exact ⟨_, slots, _, rfl, standsFor_of_hint spanned resolved unmapped
      (fun w => by rw [firstItemHint, typeHint_path resolved]) first (keptItems.trans kept)⟩

theorem lowerAssignment_standsFor {c : Scope} (spanned : c.model.Spanned) {a : Assignment}
    {lowered : Sql.Assignment} {p p' last : Progress} (ran : lowerAssignment c a p = .ok lowered p')
    (kept : p'.KeepsGroups last) {node : NodeId} {o : Occurrence} (value : a.value = .parameter node o)
    (unmapped : Unmapped c.model c.source o) :
    StandsFor c.model c.source last.ledger a.target.path o lowered.columns lowered.value := by
  obtain ⟨r, q, looked, ran⟩ := run_bind_ok.mp ran
  obtain ⟨slots, q', lowering, made⟩ := run_bind_ok.mp ran
  cases made
  obtain ⟨resolved, rfl⟩ := liftMapping_ok looked
  rw [value, lowerExpr] at lowering
  exact standsFor_of_hint spanned resolved unmapped (fun _ => rfl) lowering kept

/-- In a model whose attributes have the columns their mappings span, a parameter opposite a path takes the
columns of the path, whatever the path leads to: where its own type has no mapping, its slots are as many
as the columns written for the path and have their types, one by one. That is so for either side of a
comparison, for the items of a list under a path and their expansions, for the test of a list that begins
with a path, and for what an update assigns to a path. -/
theorem parameters_take_columns_of_paths {model : Model} {strict : Bool}
    {expansions : OccurrenceId → List Occurrence} {s : Statement} {w w' : Workspace} {l : Lowered}
    (spanned : model.Spanned) (lowered : lowerStatement model strict expansions s w = .ok l w') :
    List.Forall₂ (FacesPath model l.source l.ledger expansions) s.conditions l.statement.conditions ∧
      List.Forall₂ (fun a target => ∀ node o, a.value = .parameter node o →
        Unmapped model l.source o →
        StandsFor model l.source l.ledger a.target.path o target.columns target.value)
        s.assignments l.statement.assignments := by
  obtain ⟨c, last, rfl, rfl, source, ledger, stages⟩ := lowerStatement_stages lowered
  rw [← source, ← ledger]
  constructor
  · obtain ⟨p, ran⟩ := stages.conditions
    refine (mapM_keepsGroups (lowerPredicate_lowers c) ran).imp ?_
    rintro condition made ⟨q, q', ran, kept⟩
    exact lowerPredicate_facesPath spanned ran kept
  · obtain ⟨p, p', ran, kept⟩ := stages.assignments
    refine (mapM_keepsGroups (lowerAssignment_lowers c) ran).imp ?_
    rintro a target ⟨q, q', ran, behind⟩ node o value unmapped
    exact lowerAssignment_standsFor spanned ran (behind.trans kept) value unmapped

/-! People of two cities who are active, or not, move to one address; no parameter has a type. -/
namespace Moving
open Model.Sample (model)

def people : Path := Model.Sample.people

def address : PathRef := Model.Sample.addressPath

def city : PathRef := Model.Sample.cityPath

def active : PathRef := Model.Sample.activePath

def parameter (id : OccurrenceId) : Occurrence := ⟨id, ⟨.positional id.toNat, none, true⟩, none, none⟩

def expansions : OccurrenceId → List Occurrence
  | 2 => [{ parameter 3 with expands := some 2 }]
  | _ => []

def statement : Statement := .update {
  target := ⟨"Person", people⟩
  assignments := [⟨address, .parameter 0 (parameter 0)⟩]
  restriction := some (.and [.comparison (.parameter 1 (parameter 1)) .equal (.path 2 active),
    .inList (.path 3 city) [.parameter 4 (parameter 2)] false]) }

theorem slots_follow_columns :
    ∃ (l : Lowered) (w : Workspace) (refs : List Sql.ColumnRef) (slots : Sql.Expr),
      lowerStatement model true expansions statement .empty = .ok l w ∧
        l.ledger.entries.map Prod.fst = [0, 1, 2, 3] ∧ l.statement.assignments = [⟨refs, slots⟩] ∧
        refs.map Sql.ColumnRef.column = ["street", "city"] ∧
        StandsFor model l.source l.ledger address.path (parameter 0) refs slots ∧
        List.Forall₂ (FacesPath model l.source l.ledger expansions) statement.conditions
          l.statement.conditions := by
  have lowered : lowerStatement model true expansions statement .empty = .ok _ _ := rfl
  obtain ⟨conditions, assignments⟩ := parameters_take_columns_of_paths Model.Sample.spanned lowered
  obtain ⟨address, -⟩ := List.forall₂_cons.mp assignments
  exact ⟨_, _, _, _, lowered, rfl, rfl, rfl, address 0 _ rfl nofun, conditions⟩

end Moving

end SemanticQuery.Lowering
