import SemanticQuery.Proofs.Binding.EmptyCollections
import SemanticQuery.Proofs.Binding.Width
import SemanticQuery.Proofs.Cache.Requests
import SemanticQuery.Proofs.Fingerprint.Expansions

/-! Expansion to the same width. Two runs over the same entries make occurrences that differ in their
numbers alone, so what depends on a table by position and type comes out the same. -/
namespace SemanticQuery.Binding
open Query Lowering

/-- Occurrences that differ in their numbers at most. -/
structure Twins (o o' : Occurrence) : Prop where
  parameter : o.parameter = o'.parameter
  anticipated : o.anticipated = o'.anticipated
  expands : o.expands = o'.expands

theorem standIns_twins (first other : Nat) (os : List Occurrence) :
    List.Forall₂ Twins (standIns first os) (standIns other os) := by
  induction os generalizing first other with
  | nil => exact .nil
  | cons o rest ih => exact .cons ⟨rfl, rfl, rfl⟩ (ih _ _)

theorem filter_twins {os os' : List Occurrence} (twins : List.Forall₂ Twins os os')
    (id : OccurrenceId) :
    List.Forall₂ Twins (os.filter fun o => o.expands = some id)
      (os'.filter fun o => o.expands = some id) := by
  induction twins with
  | nil => exact .nil
  | @cons o o' rest rest' first _ ih =>
    by_cases same : o'.expands = some id
    · have left : o.expands = some id := first.expands.trans same
      simp only [List.filter_cons, left, same, decide_true, if_true]
      exact .cons first ih
    · have left : ¬o.expands = some id := fun expands => same (first.expands.symm.trans expands)
      simp only [List.filter_cons, left, same, decide_false, Bool.false_eq_true, if_false]
      exact ih

namespace BindingState
variable {x y : BindingState}

/-- An expanded table has nothing but stand-ins, and none where a collection is empty. -/
theorem expand_expansions {s : Statement}
    (parameters : x.table.parameters = (OccurrenceTable.ofStatement s).parameters) (id : OccurrenceId) :
    x.expand.table.expansions id =
      if (x.table.entries.find? fun p => x.store.width? p.parameter.key = some 0).isSome then []
      else (standIns x.builder.made (x.store.places x.table.entries)).filter
        fun o => o.expands = some id := by
  unfold BindingState.expand
  obtain ⟨p, b, empty, ended⟩ | ⟨full, _, t, b, rfl, -, registered, ended⟩ :=
    @expandMultiValued_ends s ⟨x.table, x.builder⟩ x.store parameters
  · rw [ended, empty]
    rfl
  · rw [ended, full]
    exact (registerAll_ok registered).2 id

/-- Expanded for collections of the same lengths, tables have twins filed under each occurrence. -/
theorem expand_twins {s : Statement}
    (parameters : x.table.parameters = (OccurrenceTable.ofStatement s).parameters)
    (same : x.table.parameters = y.table.parameters)
    (wide : ∀ key, x.store.width? key = y.store.width? key) (id : OccurrenceId) :
    List.Forall₂ Twins (x.expand.table.expansions id) (y.expand.table.expansions id) := by
  have entries : x.table.entries = y.table.entries := congrArg KeyedList.values same
  have further (key : ParameterKey) : x.store.further key = y.store.further key :=
    congrArg (fun n : Option Nat => n.getD 0 - 1) (wide key)
  rw [expand_expansions parameters, expand_expansions (same ▸ parameters), entries]
  simp only [wide, Store.places, further]
  split
  · exact .nil
  · exact filter_twins (standIns_twins _ _ _) id

/-- Expansion forgets what was expanded before, so a builder behind the occurrences of the statement is all
that it takes. -/
theorem expand_consistent {b : Builder} {os : List Occurrence} {s : Statement} (made : b.Made os)
    (own : ∀ o ∈ s.parameters, o ∈ os ∧ o.expands = none)
    (parameters : x.table.parameters = (OccurrenceTable.ofStatement s).parameters)
    (behind : b.made ≤ x.builder.made) : x.expand.Consistent s :=
  have cleared : Consistent s ⟨x.table.clear, x.store, x.builder⟩ :=
    { parameters
      below := fun o mem => Nat.lt_of_lt_of_le (made.id_lt (own o mem).1) behind
      single := fun range => made.single (Nat.le_trans behind range) fun o mem => (own o mem).1
      expands := fun _ => .of_unexpanded parameters fun _ => rfl }
  cleared.expand

end BindingState

/-- Expansion to the same width does not show. A statement's table, whatever it was expanded for before,
is expanded for two stores that bind the same parameters to collections of the same lengths, with
builders that both stand behind the occurrences of the statement and whose numbers last. The two tables give
one fingerprint.
The statement is lowered with both or with neither, to one text with the same placeholders and to one
index of slots; and either index serves the other's plans. -/
theorem same_width_invisible {b : Builder} {os : List Occurrence} {s : Statement} {x y : BindingState}
    {model : Model} {strict : Bool} {w w' : Workspace} (made : b.Made os)
    (own : ∀ o ∈ s.parameters, o ∈ os ∧ o.expands = none)
    (parameters : x.table.parameters = (OccurrenceTable.ofStatement s).parameters)
    (same : x.table = y.table) (behind : b.made ≤ x.builder.made) (behind' : b.made ≤ y.builder.made)
    (range : x.expand.builder.InRange) (range' : y.expand.builder.InRange)
    (wide : ∀ key, x.store.width? key = y.store.width? key) (sound : w.Sound s.nodes)
    (sound' : w'.Sound s.nodes) :
    Fingerprint.fingerprint s x.expand.table = Fingerprint.fingerprint s y.expand.table ∧
      ((∃ e z, lowerStatement model strict x.expand.table.expansions s w = .error e z) ↔
        ∃ e z, lowerStatement model strict y.expand.table.expansions s w' = .error e z) ∧
      ∀ {l l' : Lowered} {z z' : Workspace},
        lowerStatement model strict x.expand.table.expansions s w = .ok l z →
        lowerStatement model strict y.expand.table.expansions s w' = .ok l' z' →
        l.statement.render = l'.statement.render ∧
          (∀ i, SlotIndex.build x.expand.table l.ledger.groups? = .ok i ↔
            SlotIndex.build y.expand.table l'.ledger.groups? = .ok i) ∧
          ∀ {i i' : SlotIndex}, SlotIndex.build x.expand.table l.ledger.groups? = .ok i →
            SlotIndex.build y.expand.table l'.ledger.groups? = .ok i' → ∀ (catalog : Catalog) (u : Workspace),
            createPlan ⟨model, l.source, i, catalog⟩ y.expand.table y.store u =
              createPlan ⟨model, l'.source, i', catalog⟩ y.expand.table y.store u := by
  have twins := BindingState.expand_twins parameters (congrArg OccurrenceTable.parameters same) wide
  have left := BindingState.expand_consistent made own parameters behind
  have right := BindingState.expand_consistent made own (same ▸ parameters) behind'
  have answering := answering_of_wide rfl (left.single range) (left.expands range) (right.expands range')
    fun o mem => (twins o.id).length_eq
  have alike : Fingerprint.ExpandAlike x.expand.table y.expand.table := fun id =>
    (map_eq_of_forall₂ (R := Twins) _ (fun _ _ twin => twin.anticipated.symm) (twins id)).symm
  refine ⟨?_, ?_, ?_⟩
  · rw [Fingerprint.fingerprint, Fingerprint.fingerprint, Fingerprint.stream_eq_of_alike alike]
  all_goals
    have lowered := lowerStatement_agrees model strict answering rfl sound sound'
    generalize lowerStatement model strict x.expand.table.expansions s w = outcome at lowered ⊢
    generalize lowerStatement model strict y.expand.table.expansions s w' = outcome' at lowered ⊢
  · cases lowered with
    | ok => simp
    | error => simp
  · intro l l' z z' ran ran'
    subst ran ran'
    cases lowered with
    | ok statement source groups =>
      have index := answering.index_iff groups
      refine ⟨congrArg Sql.Statement.render statement, index, ?_⟩
      intro i i' built built' catalog u
      obtain rfl := Except.ok.inj (((index i).mp built).symm.trans built')
      rw [source]

namespace Rebound

/-- The statement's parameter is bound to several values, and a builder is about to expand it. -/
def several (vs : List Value) (made : Nat) : BindingState :=
  ⟨.ofStatement statement, ⟨.ofList [(ids.key, ⟨ids, .multi vs, none⟩)]⟩,
    { builder with made }⟩

theorem several_width (vs : List Value) (made : Nat) (key : ParameterKey) :
    (several vs made).store.width? key = if key = ids.key then some vs.length else none := by
  by_cases same : key = ids.key
  · subst same
    simp only [if_true]
    rfl
  · have missing : (several vs made).store.find? key = none :=
      (KeyedList.find?_insert_of_ne same).trans (KeyedList.find?_empty key)
    simp only [Store.width?, missing, Option.map_none, same, if_false]

/-- Other values under other numbers: nothing shows of either. -/
theorem other_numbers_do_not_show :
    ((several [.long 1, .long 2] 1).expand.table.expansions 0).map Occurrence.id = [1] ∧
      ((several [.long 3, .long 4] 5).expand.table.expansions 0).map Occurrence.id = [5] ∧
      Fingerprint.fingerprint statement (several [.long 1, .long 2] 1).expand.table =
        Fingerprint.fingerprint statement (several [.long 3, .long 4] 5).expand.table ∧
      ∃ l l' z z', lowerStatement model true
          (several [.long 1, .long 2] 1).expand.table.expansions statement .empty = .ok l z ∧
        lowerStatement model true
          (several [.long 3, .long 4] 5).expand.table.expansions statement .empty = .ok l' z' ∧
        l.statement.render = l'.statement.render := by
  have sound : Workspace.empty.Sound statement.nodes := by
    refine ⟨?_, ?_, Workspace.empty_fresh, ?_⟩
    all_goals
      intro e mem
      simp only [statement, Statement.nodes, restrictionNodes, Predicate.nodes, Expr.nodes,
        Expr.nodesOf, List.flatMap_nil, List.nil_append, List.append_nil, List.singleton_append,
        List.mem_cons, List.not_mem_nil, or_false] at mem
      rcases mem with rfl | rfl
      all_goals simp [Expr.isRebuilt]
  have widths (key : ParameterKey) : (several [.long 1, .long 2] 1).store.width? key =
      (several [.long 3, .long 4] 5).store.width? key := by
    rw [several_width, several_width]
    rfl
  obtain ⟨prints, -, lowered⟩ := @same_width_invisible _ _ _ (several [.long 1, .long 2] 1)
    (several [.long 3, .long 4] 5) model true _ _ made own rfl rfl (Nat.le_refl 1)
    (Nat.le_add_left 1 4) (by decide) (by decide) widths sound sound
  exact ⟨rfl, rfl, prints, _, _, _, _, rfl, rfl, (lowered rfl rfl).1⟩

end Rebound

end SemanticQuery.Binding
