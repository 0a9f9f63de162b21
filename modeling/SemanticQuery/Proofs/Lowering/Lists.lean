import SemanticQuery.Proofs.Lowering.Sequences
import SemanticQuery.Proofs.Lowering.Settled
import SemanticQuery.Proofs.Query.Nodes
import SemanticQuery.Query.Builder

/-! Lists of values. Items and the expansions behind them are lowered one by one, and each time the hint is
worked out anew. By then the test has been lowered, so the hint is settled: a parameter and its expansions,
which are of one type, get slots of the same types. -/
namespace SemanticQuery

namespace Query

mutual

/-- What a predicate is put together from has nodes of the predicate. -/
theorem Predicate.nodes_of_condition : (p : Predicate) → ∀ q ∈ p.conditions, q.nodes ⊆ p.nodes
  | .comparison .., q, mem | .inList .., q, mem | .isNull .., q, mem => by
    rw [conditions, List.mem_singleton] at mem
    exact mem ▸ List.Subset.refl _
  | .and children, q, mem | .or children, q, mem => by
    rw [conditions] at mem
    rw [nodes]
    exact nodes_of_conditions children q mem
  | .not inner, q, mem => by
    rw [conditions] at mem
    rw [nodes]
    exact nodes_of_condition inner q mem

theorem Predicate.nodes_of_conditions : (ps : List Predicate) →
    ∀ q ∈ Predicate.conditionsOf ps, q.nodes ⊆ Predicate.nodesOf ps
  | [], _, mem => by
    rw [conditionsOf] at mem
    contradiction
  | p :: rest, q, mem => by
    rw [conditionsOf, List.mem_append] at mem
    rw [nodesOf]
    cases mem with
    | inl own => exact List.Subset.trans (nodes_of_condition p q own) (List.subset_append_left _ _)
    | inr later => exact List.Subset.trans (nodes_of_conditions rest q later) (List.subset_append_right _ _)

end

theorem Statement.nodes_of_condition (s : Statement) : ∀ q ∈ s.conditions, q.nodes ⊆ s.nodes := by
  have restricted (restriction : Option Predicate) :
      ∀ q ∈ restrictionConditions restriction, q.nodes ⊆ restrictionNodes restriction := by
    cases restriction with
    | none => exact nofun
    | some p => exact p.nodes_of_condition
  intro q mem
  cases s with
  | select s => exact List.Subset.trans (restricted _ q mem) (List.subset_append_right _ _)
  | update u => exact List.Subset.trans (restricted _ q mem) (List.subset_append_right _ _)
  | delete d => exact restricted _ q mem

theorem Statement.parameter_of_item {s : Statement} {test : Expr} {items : List Expr} {negated : Bool}
    {node : NodeId} {o : Occurrence} (listed : .inList test items negated ∈ s.conditions)
    (mem : .parameter node o ∈ items) : o ∈ s.parameters := by
  have nodes := s.nodes_of_condition _ listed
  rw [Predicate.nodes] at nodes
  have visited := nodes (List.mem_append_right _ (Expr.mem_nodesOf mem))
  exact List.mem_filterMap.mpr ⟨_, visited, rfl⟩

end Query

namespace Lowering
open Query

/-- The lowered form of an item and of the expansions behind it. -/
def lowerBlock (c : Scope) (h : Hint) (item : Expr) : LowerM (List Sql.Expr) :=
  (writtenFor c.expansions item).mapM (lowerExpr c h)

theorem lowerItems_eq_blocks (c : Scope) (h : Hint) (items : List Expr) :
    lowerItems c h items = List.flatten <$> items.mapM (lowerBlock c h) := by
  rw [lowerItems_eq, writtenOut, mapM_flatMap]
  rfl

/-- The lowered form of a list: the test under the hint of the first item, then block by block the items
under the hint of the test. A parameter among the items has a block of its own slots and those of its
expansions, in order and all of the same types. -/
def WritesOut (c : Scope) (ledger : Ledger) (test : Expr) (items : List Expr) (negated : Bool)
    (lowered : Sql.Predicate) : Prop :=
  ∃ (t : Sql.Expr) (blocks : List (List Sql.Expr)) (types : Occurrence → List (Option ColumnType))
    (p p₁ p₂ : Progress), lowered = .inList t blocks.flatten negated ∧
    lowerExpr c (firstItemHint c items) test p = .ok t p₁ ∧
    items.mapM (lowerBlock c (typeHint c test)) p₁ = .ok blocks p₂ ∧
    blocks.flatten.length = items.length + (items.flatMap (expandedBehind c.expansions)).length ∧
    List.Forall₂ (fun item block => ∀ node o, item = .parameter node o →
      List.Forall₂ (fun x slots => HasSlots ledger (types o) x slots) (o :: c.expansions o.id) block)
      items blocks

/-- What was known and allocated is known and allocated later. -/
def Progress.Before (p q : Progress) : Prop := p.work.Keeps q.work ∧ p.KeepsGroups q

namespace Progress.Before
variable {p q r : Progress}

theorem refl (p : Progress) : p.Before p := ⟨.refl p.work, List.prefix_rfl⟩

theorem trans (first : p.Before q) (later : q.Before r) : p.Before r :=
  ⟨first.1.trans later.1, first.2.trans later.2⟩

end Progress.Before

theorem mapM_before {α β : Type} {f : α → LowerM β}
    (step : ∀ {a p b p'}, f a p = .ok b p' → p.Before p') {as : List α} {bs : List β} {p p' : Progress}
    (run : as.mapM f p = .ok bs p') : p.Before p' ∧
      List.Forall₂ (fun a b => ∃ q q', p.Before q ∧ f a q = .ok b q' ∧ q'.Before p') as bs :=
  mapM_ok (R := Progress.Before) .refl .trans step run

section
variable {c : Scope} {test : Expr} {p p₁ p₂ q last : Progress}

theorem item_before {e : Expr} {lowered : Sql.Expr}
    (ran : lowerExpr c (typeHint c test) e p = .ok lowered q) : p.Before q :=
  ⟨(lowerExpr_keeps c (typeHint_keeps c test) e).ran ran, (lowerExpr_lowers c _ e).keepsGroups ran⟩

theorem block_before {item : Expr} {block : List Sql.Expr}
    (ran : lowerBlock c (typeHint c test) item p = .ok block q) : p.Before q :=
  (mapM_before item_before ran).1

/-- The types of the slots for an occurrence under a hint that is settled. -/
def settledTypes (c : Scope) (m : Option Mapping) (o : Occurrence) : List (Option ColumnType) :=
  match c.ownMapping o with
  | .ok own => slotTypes (own.or m)
  | .error _ => []

theorem settledTypes_congr {m : Option Mapping} {o x : Occurrence} (same : x.type? = o.type?) :
    settledTypes c m x = settledTypes c m o := by
  rw [settledTypes, settledTypes, Scope.ownMapping, Scope.ownMapping, same]

/-- A parameter that is lowered once the hint is settled. -/
theorem hasSlots_of_settled {m : Option Mapping} {x : Occurrence} {slots : Sql.Expr}
    (settled : ∀ w, p₁.work.Keeps w → typeHint c test w = (m, w)) (before : p₁.Before p)
    (ran : lowerParameter c (typeHint c test) x p = .ok slots q) (behind : q.KeepsGroups last) :
    HasSlots last.ledger (settledTypes c m x) x slots := by
  obtain ⟨mapping, chosen, allotted⟩ := lowerParameter_ok ran
  rw [Scope.chosenMapping, settled _ before.1] at chosen
  have same : slotTypes mapping = settledTypes c m x := by
    rw [settledTypes]
    cases own : c.ownMapping x with
    | error error =>
      rw [own] at chosen
      contradiction
    | ok found =>
      rw [own] at chosen
      cases chosen
      rfl
  rw [← same]
  exact allotted.hasSlots behind

/-- The block of a parameter whose expansions are of its type. -/
theorem block_hasSlots {m : Option Mapping} {node : NodeId} {o : Occurrence} {block : List Sql.Expr}
    (settled : ∀ w, p₁.work.Keeps w → typeHint c test w = (m, w)) (before : p₁.Before p)
    (alike : ∀ x ∈ c.expansions o.id, x.type? = o.type?)
    (ran : lowerBlock c (typeHint c test) (.parameter node o) p = .ok block q)
    (behind : q.KeepsGroups last) :
    List.Forall₂ (HasSlots last.ledger (settledTypes c m o)) (o :: c.expansions o.id) block := by
  have parameters : writtenFor c.expansions (.parameter node o) =
      (o :: c.expansions o.id).map (Expr.parameter node) := rfl
  rw [lowerBlock, parameters] at ran
  have each := (mapM_before item_before ran).2
  rw [List.forall₂_map_left_iff] at each
  have own (x : Occurrence) (mem : x ∈ o :: c.expansions o.id) : x.type? = o.type? :=
    (List.mem_cons.mp mem).elim (fun same => same ▸ rfl) (alike x)
  refine ((List.forall₂_and_left _ _).mpr ⟨own, each⟩).imp ?_
  rintro x slots ⟨same, r, r', start, ran, later⟩
  rw [← settledTypes_congr same]
  rw [lowerExpr] at ran
  exact hasSlots_of_settled settled (before.trans start) ran (later.2.trans behind)

/-- A list under a test is written out in blocks, where the expansions of parameters among the items have
the types of what they expand. -/
theorem lowerPredicate_writesOut {items : List Expr} {negated : Bool} {lowered : Sql.Predicate}
    (alike : ∀ node o, .parameter node o ∈ items → ∀ x ∈ c.expansions o.id, x.type? = o.type?)
    (ran : lowerPredicate c (.inList test items negated) p = .ok lowered q) (kept : q.KeepsGroups last) :
    WritesOut c last.ledger test items negated lowered := by
  rw [lowerPredicate] at ran
  obtain ⟨t, p₁, tested, ran⟩ := run_bind_ok.mp ran
  obtain ⟨list, p₂, listed, made⟩ := run_bind_ok.mp ran
  cases made
  have count : list.length = (writtenOut c.expansions items).length := by
    rw [lowerItems_eq] at listed
    exact (mapM_before item_before listed).2.length_eq.symm
  rw [length_writtenOut] at count
  rw [lowerItems_eq_blocks] at listed
  obtain ⟨blocks, listing, rfl⟩ := run_map_ok.mp listed
  -- the test is lowered before the items, so from `p₁` on the hint is the one mapping `m`
  obtain ⟨m, settled⟩ := typeHint_settled c tested
  refine ⟨t, blocks, settledTypes c m, p, p₁, q, rfl, tested, listing, count, ?_⟩
  have each := (mapM_before block_before listing).2
  refine ((List.forall₂_and_left _ _).mpr ⟨fun item mem => mem, each⟩).imp ?_
  rintro _ block ⟨mem, r, r', before, ran, later⟩ node o rfl
  exact block_hasSlots settled before (alike node o mem) ran (later.2.trans kept)

end

/-- Every list in the restriction of a lowered statement, however deep, is written out: what is lowered for
the items are the items in source order, each parameter among them followed by its expansions in order, so
that the list is as long as items and expansions together; and where expansions were made from the
occurrences they expand, the slots of a parameter and of its expansions have the same types. -/
theorem lists_are_written_out {model : Model} {strict : Bool}
    {expansions : OccurrenceId → List Occurrence} {s : Statement} {w w' : Workspace} {l : Lowered}
    (lowered : lowerStatement model strict expansions s w = .ok l w')
    (made : ∀ o ∈ s.parameters, ∀ x ∈ expansions o.id, ∃ b : Builder, (b.expansionOf o).1 = x) :
    ∃ c : Scope, c.model = model ∧ c.source = l.source ∧ c.expansions = expansions ∧
      List.Forall₂ (fun condition target => ∀ test items negated,
        condition = .inList test items negated → WritesOut c l.ledger test items negated target)
        s.conditions l.statement.conditions := by
  obtain ⟨c, last, scope, rfl, source, ledger, stages⟩ := lowerStatement_stages lowered
  refine ⟨c, scope, source, rfl, ?_⟩
  obtain ⟨p, ran⟩ := stages.conditions
  have each := mapM_keepsGroups (lowerPredicate_lowers c) ran
  refine ((List.forall₂_and_left _ _).mpr ⟨fun condition mem => mem, each⟩).imp ?_
  rintro _ target ⟨listed, q, q', ran, kept⟩ test items negated rfl
  rw [← ledger]
  apply lowerPredicate_writesOut ?_ ran kept
  intro node o mem x expanded
  obtain ⟨b, rfl⟩ := made o (Statement.parameter_of_item listed mem) x expanded
  rfl

/-! Ages that the later of two is not among: one as it is written, and two that are bound. -/
namespace Among

def integer : BasicType := ⟨"integer", .integer, .integer⟩

def latest : Callee := ⟨⟨"greatest", .highest, none, none, .standard⟩, .empty⟩

def number (node : NodeId) (n : Int32) : Expr := .literal node (.int n) (.basic integer)

def builder : Builder := .new .empty .empty

def age : Occurrence := (builder.occurrence ⟨.named "age", none, true⟩ none none).1

def other : Occurrence := ((builder.occurrence age.parameter none none).2.expansionOf age).1

def expansions : OccurrenceId → List Occurrence
  | 0 => [other]
  | _ => []

def test : Expr := .call 0 latest [number 1 30, number 2 40] none .none

def statement : Statement :=
  .select ⟨[], [], [], some (.not (.inList test [number 3 5, .parameter 4 age] true))⟩

def written : Lowered where
  statement := .select ⟨.empty, [], [], some (.not (.inList
    (.call "greatest" .standard [.literal (.int 30) .integer, .literal (.int 40) .integer]
      (some (.basic integer)) (some (.basic integer)))
    [.literal (.int 5) .integer, .parameter ⟨0, some .integer⟩, .parameter ⟨1, some .integer⟩] true))⟩
  ledger := ⟨[(0, [⟨0, some .integer⟩]), (1, [⟨1, some .integer⟩])], 2⟩
  source := .empty

theorem both_ages_have_integer_slots :
    ∃ (w : Workspace) (t : Sql.Expr) (blocks : List (List Sql.Expr)) (types : List (Option ColumnType)),
      lowerStatement ⟨.empty, .empty⟩ true expansions statement .empty = .ok written w ∧
        written.statement.conditions = [.inList t blocks.flatten true] ∧ blocks.flatten.length = 3 ∧
        ∃ block ∈ blocks, List.Forall₂ (HasSlots written.ledger types) [age, other] block := by
  obtain ⟨w, lowered⟩ : ∃ w, lowerStatement ⟨.empty, .empty⟩ true expansions statement .empty =
    .ok written w := ⟨_, rfl⟩
  have made : ∀ o ∈ statement.parameters, ∀ x ∈ expansions o.id, ∃ b : Builder, (b.expansionOf o).1 = x := by
    intro o mem x expanded
    obtain rfl := List.mem_singleton.mp mem
    obtain rfl := List.mem_singleton.mp expanded
    exact ⟨_, rfl⟩
  obtain ⟨c, -, -, same, each⟩ := lists_are_written_out lowered made
  obtain ⟨only, -⟩ := List.forall₂_cons.mp each
  obtain ⟨t, blocks, types, -, -, -, target, -, -, count, slots⟩ := only test _ true rfl
  rw [same] at count slots
  obtain ⟨first, behind, -, later, rfl⟩ := List.forall₂_cons_left_iff.mp slots
  obtain ⟨bound, none, own, -, rfl⟩ := List.forall₂_cons_left_iff.mp later
  exact ⟨w, t, _, types age, lowered, congrArg (· :: []) target, count, bound, by simp, own 4 age rfl⟩

end Among

end Lowering

end SemanticQuery
