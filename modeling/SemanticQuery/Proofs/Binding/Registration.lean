import SemanticQuery.Proofs.Binding.EmptyCollections
import SemanticQuery.Proofs.Binding.Partition

/-! Registering, clearing and expanding in any order. Expansion numbers what it makes behind everything the
builder has made, so as long as the numbers last only a registration can record an identity again: the table
takes what its parameters own without looking whether it has it. -/
namespace SemanticQuery.Binding
open Query Lowering

inductive TableStep where
  | make (parameter : Parameter) (anticipated : Option ExprType) (expands : Option OccurrenceId)
  | register (o : Occurrence)
  | clear
  | expand (store : Store)

namespace Expanding

/-- The table of a statement, with the builder of its occurrences. -/
def start (s : Statement) (b : Builder) : Expanding := ⟨.ofStatement s, b⟩

/-- A refused registration leaves everything as it is. -/
def register (x : Expanding) (o : Occurrence) : Expanding :=
  match x.table.register o with
  | .ok table => { x with table }
  | .error _ => x

def step (x : Expanding) : TableStep → Expanding
  | .make parameter anticipated expands =>
    { x with builder := (x.builder.occurrence parameter anticipated expands).2 }
  | .register o => x.register o
  | .clear => { x with table := x.table.clear }
  | .expand store =>
    match expandMultiValued store x with
    | .ok () y | .error _ y => y

def run (x : Expanding) (steps : List TableStep) : Expanding := steps.foldl step x

end Expanding

/-- What a statement's table records is made by the builder. The parameters are those of the statement, and
what is filed behind the statement's own expansions, or without them, stands under an occurrence of its own
parameter. -/
structure Expanding.Consistent (s : Statement) (x : Expanding) : Prop where
  parameters : x.table.parameters = (OccurrenceTable.ofStatement s).parameters
  below : ∀ o ∈ x.table.recorded, o.id.toNat < x.builder.made
  filed : ∀ id, ∃ later,
    (x.table.expansions id = (OccurrenceTable.ofStatement s).expansions id ++ later ∨
      x.table.expansions id = later) ∧
    ∀ e ∈ later, e.expands = some id ∧ (OccurrenceTable.ofStatement s).Owns e.key id

namespace Expanding
variable {s : Statement} {x : Expanding} {o : Occurrence}

theorem consistent_start {b : Builder} {os : List Occurrence} (made : b.Made os)
    (own : ∀ o ∈ s.parameters, o ∈ os) : (start s b).Consistent s := by
  refine ⟨rfl, fun o mem => ?_, fun id => ⟨[], .inl ?_, List.forall_mem_nil _⟩⟩
  · have visit : o ∈ firstVisits [] s.parameters :=
      (OccurrenceTable.recorded_ofStatement s).mem_iff.mp mem
    exact made.id_lt (own o ((firstVisits_sublist _ _).subset visit))
  · rw [List.append_nil, start]

theorem owns_iff (consistent : x.Consistent s) {key : ParameterKey} {id : OccurrenceId} :
    x.table.Owns key id ↔ (OccurrenceTable.ofStatement s).Owns key id := by
  rw [OccurrenceTable.Owns, OccurrenceTable.Owns, OccurrenceTable.entry?, OccurrenceTable.entry?,
    consistent.parameters]

/-- What a registration leaves: everything as it was, or the expansion filed under what it expands. -/
theorem register_cases (x : Expanding) (o : Occurrence) :
    (∃ e, x.table.register o = .error e ∧ x.step (.register o) = x) ∨
      ∃ id, o.expands = some id ∧ x.table.Owns o.key id ∧
        x.table.register o = .ok (x.table.addExpansion id o) ∧
        x.step (.register o) = { x with table := x.table.addExpansion id o } := by
  rw [step, register]
  cases outcome : x.table.register o with
  | error e => exact .inl ⟨e, rfl, rfl⟩
  | ok t =>
    obtain ⟨id, expands, owns, rfl⟩ := register_ok_iff.mp outcome
    exact .inr ⟨id, expands, owns, rfl, rfl⟩

theorem consistent_cleared (consistent : x.Consistent s) {b : Builder}
    (later : x.builder.made ≤ b.made) :
    Consistent s ⟨x.table.clear, b⟩ := by
  refine ⟨consistent.parameters, fun o mem => ?_, fun id => ⟨[], .inr rfl, List.forall_mem_nil _⟩⟩
  rw [OccurrenceTable.recorded_clear] at mem
  exact Nat.lt_of_lt_of_le (consistent.below o (List.mem_append_left _ mem)) later

theorem consistent_register (consistent : x.Consistent s) (made : o.id.toNat < x.builder.made) :
    (x.step (.register o)).Consistent s := by
  obtain ⟨e, -, registered⟩ | ⟨id, expands, owns, -, registered⟩ := x.register_cases o
  · rwa [registered]
  rw [registered]
  refine ⟨consistent.parameters, fun other mem => ?_, fun under => ?_⟩
  · have grown := (OccurrenceTable.recorded_addExpansion x.table id o).mem_iff.mp mem
    obtain before | added := List.mem_append.mp grown
    · exact consistent.below other before
    · exact List.mem_singleton.mp added ▸ made
  · obtain ⟨later, filing, owned⟩ := consistent.filed under
    refine ⟨later ++ if id = under then [o] else [], ?_, ?_⟩
    · simp only [OccurrenceTable.expansions_addExpansion]
      refine filing.imp (fun same => ?_) fun same => ?_
      · rw [same, List.append_assoc]
      · rw [same]
    · intro e mem
      obtain before | added := List.mem_append.mp mem
      · exact owned e before
      · split at added
        next same =>
          obtain rfl := List.mem_singleton.mp added
          subst same
          exact ⟨expands, (owns_iff consistent).mp owns⟩
        · contradiction

theorem consistent_expand (consistent : x.Consistent s) (store : Store) :
    (x.step (.expand store)).Consistent s := by
  simp only [step]
  obtain ⟨e, b, -, later, ended⟩ | ⟨-, made, b, rfl, next, ⟨t, registered, ended⟩ | ⟨e, -, ended⟩⟩ :=
    expandMultiValued_cases store x
  · rw [ended]
    exact consistent_cleared consistent later
  · rw [ended]
    obtain ⟨parameters, expansions⟩ := registerAll_ok registered
    have recorded := OccurrenceTable.recorded_registerAll registered
    rw [OccurrenceTable.recorded_clear] at recorded
    refine ⟨parameters.trans consistent.parameters, fun o mem => ?_, fun id => ⟨_, .inr (expansions id), ?_⟩⟩
    · rw [next, standIns_length]
      obtain listed | new := List.mem_append.mp (recorded.mem_iff.mp mem)
      · exact Nat.lt_of_lt_of_le (consistent.below o (List.mem_append_left _ listed)) (Nat.le_add_right _ _)
      · exact standIns_below new
    · intro e mem
      obtain ⟨new, expands⟩ := List.mem_filter.mp mem
      obtain ⟨other, named, owns⟩ := OccurrenceTable.standIns_owned consistent.parameters store _ e new
      have same : some other = some id := named.symm.trans (of_decide_eq_true expands)
      obtain rfl := Option.some.inj same
      exact ⟨named, (owns_iff consistent).mp owns⟩
  · rw [ended]
    exact consistent_cleared consistent (next ▸ Nat.le_add_right _ _)

theorem consistent_step (consistent : x.Consistent s) {action : TableStep}
    (made : ∀ o, action = .register o → o.id.toNat < x.builder.made) :
    (x.step action).Consistent s := by
  cases action with
  | make => exact ⟨consistent.parameters, fun o mem => Nat.lt_succ_of_lt (consistent.below o mem),
      consistent.filed⟩
  | register o => exact consistent_register consistent (made o rfl)
  | clear => exact consistent_cleared consistent (Nat.le_refl _)
  | expand store => exact consistent_expand consistent store

/-! Which steps record an identity again. -/

theorem distinct_cleared (distinct : x.table.Distinct) : x.table.clear.Distinct := by
  rw [OccurrenceTable.Distinct, OccurrenceTable.recorded_clear]
  exact distinct.sublist ((List.sublist_append_left _ _).map _)

/-- Stand-ins are numbered behind all that is recorded, as long as the numbers last. -/
theorem distinct_expand (consistent : x.Consistent s) (distinct : x.table.Distinct) (store : Store)
    (range : (x.step (.expand store)).builder.InRange) : (x.step (.expand store)).table.Distinct := by
  simp only [step] at range ⊢
  obtain ⟨e, b, -, -, ended⟩ | ⟨-, made, b, rfl, next, ⟨t, registered, ended⟩ | ⟨e, -, ended⟩⟩ :=
    expandMultiValued_cases store x
  · rw [ended]
    exact distinct_cleared distinct
  · rw [ended, Builder.InRange, next, standIns_length] at range
    rw [ended]
    refine ((OccurrenceTable.recorded_registerAll registered).map _).nodup_iff.mpr ?_
    rw [List.map_append, List.nodup_append']
    refine ⟨distinct_cleared distinct, standIns_nodup range, fun id old new => ?_⟩
    obtain ⟨o, listed, rfl⟩ := List.mem_map.mp old
    obtain ⟨stand, made, same⟩ := List.mem_map.mp new
    rw [OccurrenceTable.recorded_clear] at listed
    have before := consistent.below o (List.mem_append_left _ listed)
    exact absurd before (Nat.not_lt.mpr (same ▸ (standIns_between range made).1))
  · rw [ended]
    exact distinct_cleared distinct

/-- A registration keeps identities apart where the one it adds is new. -/
theorem distinct_register_iff (distinct : x.table.Distinct) : (x.step (.register o)).table.Distinct ↔
    ∀ t, x.table.register o = .ok t → o.id ∉ x.table.recorded.map Occurrence.id := by
  obtain ⟨e, refused, same⟩ | ⟨id, -, -, accepted, same⟩ := x.register_cases o
  · rw [same, refused]
    exact iff_of_true distinct nofun
  · have recorded := (OccurrenceTable.recorded_addExpansion x.table id o).map Occurrence.id
    rw [same, accepted, OccurrenceTable.Distinct, recorded.nodup_iff, List.map_append, List.nodup_append']
    constructor
    · rintro ⟨-, -, apart⟩ t - known
      exact apart known (List.mem_singleton_self _)
    · intro new
      exact ⟨distinct, List.nodup_singleton _, List.disjoint_singleton.mpr (new _ rfl)⟩

theorem distinct_step (consistent : x.Consistent s) (distinct : x.table.Distinct) {action : TableStep}
    (range : (x.step action).builder.InRange)
    (new : ∀ o, action = .register o → ∀ t, x.table.register o = .ok t →
      o.id ∉ x.table.recorded.map Occurrence.id) : (x.step action).table.Distinct := by
  cases action with
  | make => exact distinct
  | register o => exact (distinct_register_iff distinct).mpr (new o rfl)
  | clear => exact distinct_cleared distinct
  | expand store => exact distinct_expand consistent distinct store range

/-- A builder never makes fewer. -/
theorem made_le_step (x : Expanding) (action : TableStep) : x.builder.made ≤ (x.step action).builder.made := by
  cases action with
  | make => exact Nat.le_succ _
  | register o =>
    obtain ⟨e, -, same⟩ | ⟨id, -, -, -, same⟩ := x.register_cases o
    all_goals rw [same]
  | clear => exact Nat.le_refl _
  | expand store =>
    simp only [step]
    obtain ⟨e, b, -, later, ended⟩ | ⟨-, made, b, -, next, ⟨t, -, ended⟩ | ⟨e, -, ended⟩⟩ :=
      expandMultiValued_cases store x
    · exact ended ▸ later
    all_goals exact ended ▸ next ▸ Nat.le_add_right _ _

theorem run_concat (x : Expanding) (steps : List TableStep) (action : TableStep) :
    x.run (steps ++ [action]) = (x.run steps).step action := List.foldl_concat ..

theorem made_le_run (x : Expanding) (steps : List TableStep) : x.builder.made ≤ (x.run steps).builder.made := by
  induction steps generalizing x with
  | nil => exact Nat.le_refl _
  | cons action rest ih => exact Nat.le_trans (x.made_le_step action) (ih _)

/-- While the numbers last, they have lasted all along. -/
theorem inRange_of_prefix {steps earlier : List TableStep} (range : (x.run steps).builder.InRange)
    (ran : earlier <+: steps) : (x.run earlier).builder.InRange := by
  obtain ⟨later, rfl⟩ := ran
  rw [run, List.foldl_append] at range
  exact Nat.le_trans (made_le_run _ later) range

section
variable {steps : List TableStep}

theorem consistent_run (consistent : x.Consistent s)
    (made : ∀ earlier o, earlier ++ [.register o] <+: steps → o.id.toNat < (x.run earlier).builder.made)
    {earlier : List TableStep} (ran : earlier <+: steps) : (x.run earlier).Consistent s := by
  induction earlier using List.reverseRecOn with
  | nil => exact consistent
  | append_singleton earlier action ih =>
    rw [run_concat]
    refine consistent_step (ih ((List.prefix_append _ _).trans ran)) ?_
    rintro o rfl
    exact made earlier o ran

/-- Identities are recorded once as long as no registration records one again. -/
theorem distinct_run_iff (distinct : x.table.Distinct) (range : (x.run steps).builder.InRange)
    (consistent : ∀ earlier, earlier <+: steps → (x.run earlier).Consistent s) :
    (∀ earlier, earlier <+: steps → (x.run earlier).table.Distinct) ↔
      ∀ earlier o, earlier ++ [.register o] <+: steps → ∀ t, (x.run earlier).table.register o = .ok t →
        o.id ∉ (x.run earlier).table.recorded.map Occurrence.id := by
  constructor
  · intro single earlier o ran
    refine (distinct_register_iff (single earlier ((List.prefix_append _ _).trans ran))).mp ?_
    exact run_concat x earlier _ ▸ single _ ran
  · intro new earlier ran
    induction earlier using List.reverseRecOn with
    | nil => exact distinct
    | append_singleton earlier action ih =>
      have before := (List.prefix_append _ _).trans ran
      have lasted := inRange_of_prefix range ran
      rw [run_concat] at lasted ⊢
      refine distinct_step (consistent earlier before) (ih before) lasted ?_
      rintro o rfl
      exact new earlier o ran

end

end Expanding

/-- Registrations of occurrences that the builder has made, clearing and expanding, in whatever order. As long
as the builder's numbers last, no identity is ever recorded twice exactly where no registration that is accepted
has one that is recorded already. Always, all that is filed behind the statement's own expansions is filed under
what it expands, an occurrence of its own parameter; a refused registration leaves everything as it is; and
while no identity is recorded twice, no slot is indexed twice. -/
theorem recorded_once_iff {b : Builder} {os : List Occurrence} {s : Statement} {steps : List TableStep}
    (made : b.Made os) (own : ∀ o ∈ s.parameters, o ∈ os)
    (issued : ∀ earlier o, earlier ++ [.register o] <+: steps →
      ∃ os, ((Expanding.start s b).run earlier).builder.Made os ∧ o ∈ os) :
    (((Expanding.start s b).run steps).builder.InRange →
      ((∀ earlier, earlier <+: steps → ((Expanding.start s b).run earlier).table.Distinct) ↔
        ∀ earlier o, earlier ++ [.register o] <+: steps →
          ∀ t, ((Expanding.start s b).run earlier).table.register o = .ok t →
            o.id ∉ ((Expanding.start s b).run earlier).table.recorded.map Occurrence.id)) ∧
      ∀ x, (Expanding.start s b).run steps = x →
        (∀ id, ∃ later, (x.table.expansions id = (OccurrenceTable.ofStatement s).expansions id ++ later ∨
            x.table.expansions id = later) ∧
          ∀ e ∈ later, e.expands = some id ∧ x.table.Owns e.key id) ∧
        (∀ o e, x.table.register o = .error e → x.step (.register o) = x) ∧
        (x.table.Distinct → ∀ {model : Model} {strict : Bool} {w w' : Workspace} {l : Lowered} {i : SlotIndex},
          lowerStatement model strict x.table.expansions s w = .ok l w' →
          SlotIndex.build x.table l.ledger.groups? = .ok i → i.slots.Nodup) := by
  have below (earlier : List TableStep) (o : Occurrence) (ran : earlier ++ [.register o] <+: steps) :
      o.id.toNat < ((Expanding.start s b).run earlier).builder.made := by
    obtain ⟨os, made, mem⟩ := issued earlier o ran
    exact made.id_lt mem
  have consistent (earlier : List TableStep) (ran : earlier <+: steps) :=
    Expanding.consistent_run (Expanding.consistent_start made own) below ran
  refine ⟨fun range => Expanding.distinct_run_iff (OccurrenceTable.distinct_ofStatement s) range consistent, ?_⟩
  rintro x rfl
  have final := consistent steps List.prefix_rfl
  refine ⟨fun id => ?_, fun o e refused => ?_, ?_⟩
  · obtain ⟨later, filing, owned⟩ := final.filed id
    exact ⟨later, filing, fun e mem => (owned e mem).imp_right (Expanding.owns_iff final).mpr⟩
  · rw [Expanding.step, Expanding.register, refused]
  · intro distinct model strict w w' l i lowered indexed
    have places := lowerStatement_places lowered
    exact slots_nodup_of_distinct (places.numbered ▸ List.nodup_range) distinct indexed

namespace Rebound

/-- Another occurrence for the parameter, made by the builder to expand the statement's. -/
def expansion : Occurrence := ((builder.occurrence ids none none).2.occurrence ids none (some 0)).1

/-- The table accepts the expansion as often as it is registered. -/
def registrations : List TableStep := [.make ids none (some 0), .register expansion, .register expansion]

def registered : Expanding := (Expanding.start statement (builder.occurrence ids none none).2).run registrations

theorem expansion_is_recorded_twice :
    (¬∀ earlier, earlier <+: registrations →
        ((Expanding.start statement (builder.occurrence ids none none).2).run earlier).table.Distinct) ∧
      registered.table.recorded.map Occurrence.id = [0, 1, 1] ∧
      ∃ (l : Lowered) (w : Workspace) (i : SlotIndex),
        lowerStatement model true registered.table.expansions statement .empty = .ok l w ∧
          SlotIndex.build registered.table l.ledger.groups? = .ok i ∧ ¬i.slots.Nodup := by
  have made := (Builder.Made.new .empty .empty).occurrence ids none none
  have own : ∀ o ∈ statement.parameters, o ∈ [] ++ [(builder.occurrence ids none none).1] := by
    intro o mem
    obtain rfl := List.mem_singleton.mp mem
    exact List.mem_singleton_self _
  have later := made.occurrence ids none (some 0)
  have issued (earlier : List TableStep) (o : Occurrence) (ran : earlier ++ [.register o] <+: registrations) :
      ∃ os, ((Expanding.start statement (builder.occurrence ids none none).2).run earlier).builder.Made os ∧
        o ∈ os := by
    obtain ⟨rest, same⟩ := ran
    match earlier with
    | [] => cases same
    | [_] | [_, _] =>
      cases same
      exact ⟨_, later, List.mem_append_right _ (List.mem_singleton_self _)⟩
    | _ :: _ :: _ :: _ => simp [registrations] at same
  refine ⟨fun single => ?_, rfl, _, _, _, rfl, rfl, by decide⟩
  have new := ((recorded_once_iff made own issued).1 (by decide)).mp single
    [.make ids none (some 0), .register expansion] expansion List.prefix_rfl _ rfl
  exact new (by decide)

end Rebound

end SemanticQuery.Binding
