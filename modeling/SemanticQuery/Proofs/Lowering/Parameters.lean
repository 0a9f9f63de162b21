import SemanticQuery.Proofs.Lowering.Slots

/-! What a parameter is lowered to: one group of slots, for the columns of the mapping that the occurrence
has by its own type, else for those of the mapping that its context has. -/
namespace SemanticQuery.Lowering
open Query

/-- The mapping of an occurrence's own type; a type may have none. -/
def Scope.ownMapping (c : Scope) (o : Occurrence) : Except MappingError (Option Mapping) :=
  match o.type? with
  | some type => c.mapping type
  | none => .ok none

/-- The mapping an occurrence is given slots for: its own goes before that of the context. -/
def Scope.chosenMapping (c : Scope) (h : Hint) (o : Occurrence) (w : Workspace) :
    Except MappingError (Option Mapping) :=
  (c.ownMapping o).map fun own => own.or (h w).1

/-- The types of the slots for a mapping. Without one there is a single slot without a type. -/
def slotTypes : Option Mapping → List (Option ColumnType)
  | some m => m.columnTypes.map some
  | none => [none]

/-- A run that gives an occurrence one group of slots. -/
def AllotsOne (o : Occurrence) (types : List (Option ColumnType)) (p p' : Progress) (e : Sql.Expr) : Prop :=
  ∃ group, e = .ofSlots group ∧ p'.ledger.entries = p.ledger.entries ++ [(o.id, group)] ∧
    group.map Slot.type = types

/-- Slots allocated for an occurrence, under these types. -/
def HasSlots (ledger : Ledger) (types : List (Option ColumnType)) (o : Occurrence) (slots : Sql.Expr) :
    Prop :=
  ∃ group, slots = .ofSlots group ∧ (o.id, group) ∈ ledger.entries ∧ group.map Slot.type = types

/-- Groups in the ledger stay in it. -/
def Progress.KeepsGroups (p q : Progress) : Prop := p.ledger.entries <+: q.ledger.entries

section
variable {c : Scope} {h : Hint} {o : Occurrence} {p p' last : Progress} {e : Sql.Expr}

/-- A group that was given stays in the ledger to the end. -/
theorem AllotsOne.hasSlots {types : List (Option ColumnType)} (allotted : AllotsOne o types p p' e)
    (kept : p'.KeepsGroups last) : HasSlots last.ledger types o e := by
  obtain ⟨group, written, entries, typed⟩ := allotted
  have own : (o.id, group) ∈ p'.ledger.entries :=
    entries ▸ List.mem_append_right _ List.mem_cons_self
  exact ⟨group, written, kept.subset own, typed⟩

theorem liftMapping_ok {α : Type} {x : Except MappingError α} {a : α}
    (looked : liftMapping x p = .ok a p') : x = .ok a ∧ p' = p := by
  cases x with
  | error error => contradiction
  | ok found =>
    cases looked
    exact ⟨rfl, rfl⟩

theorem allocate_ok {types : List (Option ColumnType)}
    (ran : (do let group ← allocate o.id types; return .ofSlots group : LowerM Sql.Expr) p = .ok e p') :
    AllotsOne o types p p' e := by
  cases ran
  exact ⟨_, rfl, rfl, types_numberSlots _ _⟩

theorem lowerHinted_ok (ran : lowerHinted c h o p = .ok e p') :
    AllotsOne o (slotTypes (h p.work).1) p p' e := by
  obtain ⟨mapping, q, hinted, ran⟩ := run_bind_ok.mp ran
  cases hinted
  cases found : (h p.work).1 with
  | some m =>
    rw [found] at ran
    have allotted : AllotsOne o (slotTypes (some m)) _ p' e := allocate_ok ran
    exact allotted
  | none =>
    rw [found] at ran
    dsimp only at ran
    split at ran
    · contradiction
    · have allotted := allocate_ok ran
      exact allotted

/-- A parameter that is lowered has slots for the mapping chosen, and for no other. -/
theorem lowerParameter_ok (ran : lowerParameter c h o p = .ok e p') :
    ∃ mapping, c.chosenMapping h o p.work = .ok mapping ∧ AllotsOne o (slotTypes mapping) p p' e := by
  unfold lowerParameter at ran
  cases typed : o.type? with
  | none =>
    rw [typed] at ran
    refine ⟨(h p.work).1, ?_, lowerHinted_ok ran⟩
    rw [Scope.chosenMapping, Scope.ownMapping, typed]
    rfl
  | some type =>
    rw [typed] at ran
    obtain ⟨own, q, looked, ran⟩ := run_bind_ok.mp ran
    obtain ⟨found, rfl⟩ := liftMapping_ok looked
    have chosen : c.chosenMapping h o q.work = .ok (own.or (h q.work).1) := by
      simp only [Scope.chosenMapping, Scope.ownMapping, typed, found]
      rfl
    refine ⟨_, chosen, ?_⟩
    cases own with
    | none => exact lowerHinted_ok ran
    | some m => exact allocate_ok ran

end

end SemanticQuery.Lowering
