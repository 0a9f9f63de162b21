import SemanticQuery.Proofs.Binding.Expand
import SemanticQuery.Proofs.Query.Builder

/-! What callers do with the parameters of a statement in whatever order: values are bound and taken
back, and bound collections are expanded. The table keeps the parameters of the statement, and as long as
the builder's numbers last no identity of an expansion is that of another occurrence. -/
namespace SemanticQuery.Binding
open Query

/-- The occurrences and values of a statement, with the builder that makes expansions. -/
structure BindingState where
  table : OccurrenceTable
  store : Store
  builder : Builder

inductive BindingStep where
  | bind (key : ParameterKey) (v : Value)
  | bindTyped (key : ParameterKey) (v : Value) (type : ExprType)
  | bindMulti (key : ParameterKey) (vs : List Value)
  | unbind (key : ParameterKey)
  | expand

namespace BindingState

/-- Every parameter starts unbound, and nothing is expanded. -/
def start (s : Statement) (b : Builder) : BindingState :=
  ⟨.ofStatement s, .ofTable (.ofStatement s), b⟩

/-- A refused operation leaves the store as it is. -/
def revise (x : BindingState) : Except BindingError Store → BindingState
  | .ok store => { x with store }
  | .error _ => x

/-- Expansion may change the table also where it fails. -/
def expand (x : BindingState) : BindingState :=
  match expandMultiValued x.store ⟨x.table, x.builder⟩ with
  | .ok () y | .error _ y => { x with table := y.table, builder := y.builder }

def step (x : BindingState) : BindingStep → BindingState
  | .bind key v => x.revise (x.store.bind key v)
  | .bindTyped key v type => x.revise (x.store.bindTyped key v type)
  | .bindMulti key vs => x.revise (x.store.bindMulti key vs)
  | .unbind key => x.revise (x.store.unbind key)
  | .expand => x.expand

def run (x : BindingState) (steps : List BindingStep) : BindingState := steps.foldl step x

end BindingState

/-- A table of the statement's parameters, whose expansions have identities of their own and are filed
under the occurrence they stand in for. -/
structure Expands (s : Statement) (t : OccurrenceTable) : Prop where
  parameters : t.parameters = (OccurrenceTable.ofStatement s).parameters
  apart : ∀ {id e}, e ∈ t.expansions id → ∀ o ∈ s.parameters, o.id ≠ e.id
  distinct : ∀ {id other e f}, e ∈ t.expansions id → f ∈ t.expansions other → e.id = f.id → id = other
  nodup : ∀ id, ((t.expansions id).map Occurrence.id).Nodup
  typed : ∀ {id e}, e ∈ t.expansions id → ∃ o ∈ s.parameters, o.id = id ∧ e.type? = o.type?

namespace Expands
variable {s : Statement} {t : OccurrenceTable}

theorem entries (expands : Expands s t) : t.entries = (OccurrenceTable.ofStatement s).entries :=
  congrArg KeyedList.values expands.parameters

theorem of_unexpanded (parameters : t.parameters = (OccurrenceTable.ofStatement s).parameters)
    (unexpanded : ∀ id, t.expansions id = []) : Expands s t where
  parameters := parameters
  apart mem := by simp [unexpanded] at mem
  distinct mem := by simp [unexpanded] at mem
  nodup id := by simp [unexpanded]
  typed mem := by simp [unexpanded] at mem

/-- The statement's own table has no expansions where the statement has none. -/
theorem of_statement (plain : ∀ o ∈ s.parameters, o.expands = none) : Expands s (.ofStatement s) :=
  of_unexpanded rfl (OccurrenceTable.expansions_of_plain plain)

/-- Expansions made behind the occurrences of the statement have identities of their own, as long as the
numbers last. -/
theorem of_expansion {store : Store} {before after : Expanding}
    (below : ∀ o ∈ s.parameters, o.id.toNat < before.builder.made)
    (parameters : before.table.parameters = (OccurrenceTable.ofStatement s).parameters)
    (run : expandMultiValued store before = .ok () after) (range : after.builder.InRange) :
    Expands s after.table := by
  obtain ⟨kept, made, rfl, next, stands, expansions⟩ := expandMultiValued_ok run
  rw [Builder.InRange, next, standIns_length] at range
  have distinct := standIns_nodup range
  refine ⟨kept.trans parameters, ?_, ?_, ?_, ?_⟩
  · intro id e mem o listed same
    rw [expansions, List.mem_filter] at mem
    have behind := (standIns_between range mem.1).1
    have before := below o listed
    rw [same] at before
    exact Nat.not_lt_of_le behind before
  · intro id other e f mem memOther same
    rw [expansions, List.mem_filter] at mem memOther
    obtain rfl := List.inj_on_of_nodup_map distinct mem.1 memOther.1 same
    have expands : some id = some other := by
      rw [← of_decide_eq_true mem.2, ← of_decide_eq_true memOther.2]
    exact Option.some.inj expands
  · intro id
    rw [expansions]
    exact distinct.sublist (List.filter_sublist.map _)
  · intro id e mem
    rw [expansions, List.mem_filter] at mem
    obtain ⟨entry, listed, o, member, standsIn⟩ := stands e mem.1
    have entries : before.table.entries = (OccurrenceTable.ofStatement s).entries :=
      congrArg KeyedList.values parameters
    have expands : some o.id = some id := standsIn.expands.symm.trans (of_decide_eq_true mem.2)
    refine ⟨o, ?_, Option.some.inj expands, ?_⟩
    · exact OccurrenceTable.mem_parameters_of_mem_entry (entries ▸ listed) member
    · rw [Occurrence.type?, Occurrence.type?, standsIn.anticipated, standsIn.parameter]

end Expands

/-- The identity of an occurrence is that of no other one, neither in a statement nor among the expansions of
a table. -/
structure OwnIdentity (s : Statement) (t : OccurrenceTable) (o : Occurrence) : Prop where
  alone : ∀ other ∈ s.parameters, other.id = o.id → other = o
  apart : ∀ id, ∀ x ∈ t.expansions id, x.id ≠ o.id

/-- What holds of a statement's parameters whatever was done with them, by a builder that had made the
occurrences of the statement: the table lists them, and as long as the builder's numbers last no identity
is that of two occurrences, expansions among them. -/
structure BindingState.Consistent (s : Statement) (x : BindingState) : Prop where
  parameters : x.table.parameters = (OccurrenceTable.ofStatement s).parameters
  below : ∀ o ∈ s.parameters, o.id.toNat < x.builder.made
  single : x.builder.InRange → s.Single
  expands : x.builder.InRange → Expands s x.table

namespace BindingState
variable {s : Statement} {x : BindingState}

theorem consistent_start {b : Builder} {os : List Occurrence} (made : b.Made os)
    (own : ∀ o ∈ s.parameters, o ∈ os ∧ o.expands = none) : (start s b).Consistent s where
  parameters := rfl
  below o mem := made.id_lt (own o mem).1
  single range := made.single range fun o mem => (own o mem).1
  expands _ := .of_statement fun o mem => (own o mem).2

theorem Consistent.entries (consistent : x.Consistent s) :
    x.table.entries = (OccurrenceTable.ofStatement s).entries :=
  congrArg KeyedList.values consistent.parameters

/-- As long as the numbers last, each occurrence of the statement has an identity of its own. -/
theorem Consistent.ownIdentity (consistent : x.Consistent s) (range : x.builder.InRange) {o : Occurrence}
    (mem : o ∈ s.parameters) : OwnIdentity s x.table o where
  alone other memOther same := consistent.single range other memOther o mem same
  apart _ _ expansion := ((consistent.expands range).apart expansion o mem).symm

theorem Consistent.revise (consistent : x.Consistent s) (outcome : Except BindingError Store) :
    (x.revise outcome).Consistent s := by
  cases outcome with
  | ok store =>
    exact ⟨consistent.parameters, consistent.below, consistent.single, consistent.expands⟩
  | error e => exact consistent

theorem Consistent.expand (consistent : x.Consistent s) : x.expand.Consistent s := by
  unfold BindingState.expand
  cases outcome : expandMultiValued x.store ⟨x.table, x.builder⟩ with
  | ok u y =>
    obtain ⟨kept, made, -, next, -, -⟩ := expandMultiValued_ok outcome
    have later : x.builder.made ≤ y.builder.made := next ▸ Nat.le_add_right _ _
    refine ⟨kept.trans consistent.parameters, fun o mem => ?_, fun range => ?_, fun range => ?_⟩
    · exact Nat.lt_of_lt_of_le (consistent.below o mem) later
    · exact consistent.single (Nat.le_trans later range)
    · exact .of_expansion consistent.below consistent.parameters outcome range
  | error e y =>
    obtain ⟨cleared, later⟩ := expandMultiValued_error outcome
    have parameters : y.table.parameters = (OccurrenceTable.ofStatement s).parameters :=
      (congrArg OccurrenceTable.parameters cleared).trans consistent.parameters
    refine ⟨parameters, fun o mem => ?_, fun range => ?_, fun _ => ?_⟩
    · exact Nat.lt_of_lt_of_le (consistent.below o mem) later
    · exact consistent.single (Nat.le_trans later range)
    · exact .of_unexpanded parameters fun id =>
        (congrArg (OccurrenceTable.expansions · id) cleared).trans rfl

theorem Consistent.step (consistent : x.Consistent s) (action : BindingStep) :
    (x.step action).Consistent s := by
  cases action with
  | bind | bindTyped | bindMulti | unbind => exact consistent.revise _
  | expand => exact consistent.expand

theorem Consistent.run (consistent : x.Consistent s) (steps : List BindingStep) :
    (x.run steps).Consistent s := by
  induction steps generalizing x with
  | nil => exact consistent
  | cons action rest ih => exact ih (consistent.step action)

end BindingState

end SemanticQuery.Binding
