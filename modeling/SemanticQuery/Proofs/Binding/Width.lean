import SemanticQuery.Proofs.Binding.Coverage

/-! Plans through an index of another width. The slots come from the index, but how many of them are
asked for is up to the table: an index that is too narrow is refused, and one that is too wide is read as
far as the table goes. -/
namespace SemanticQuery.Binding
open Query Lowering

/-- Indexes that have the same groups for what a table lists, as far as its expansions go. -/
def SlotIndex.ReadsAlike (t : OccurrenceTable) (x x' : SlotIndex) : Prop :=
  ∀ e ∈ t.entries, ∀ o ∈ e.occurrences,
    x.groups? e.parameter.key o.id = x'.groups? e.parameter.key o.id ∧
      ∀ i < (t.expansions o.id).length, x.expansionGroups? e.parameter.key o.id i =
        x'.expansionGroups? e.parameter.key o.id i

section
variable {c : Context} {x' : SlotIndex} {key : ParameterKey} {o : Occurrence}

theorem bindExpansions_congr (mapping : Option Mapping) (exhausted : BindingError) {position : Nat}
    {es : List Occurrence} (alike : ∀ i < position + es.length,
      c.index.expansionGroups? key o.id i = x'.expansionGroups? key o.id i)
    (vs : List Value) (p : Plan) :
    bindExpansions c key mapping exhausted o position es vs p =
      bindExpansions { c with index := x' } key mapping exhausted o position es vs p := by
  induction es generalizing position vs p with
  | nil => rfl
  | cons e rest ih =>
    rw [List.length_cons] at alike
    have here : c.expansionGroups key o position e =
        Context.expansionGroups { c with index := x' } key o position e := by
      simp only [Context.expansionGroups, alike position (by omega)]
    have behind : ∀ i < position + 1 + rest.length,
        c.index.expansionGroups? key o.id i = x'.expansionGroups? key o.id i :=
      fun i within => alike i (by omega)
    simp only [bindExpansions, here, ih behind]

theorem bindMulti_congr {es : List Occurrence} (alike : ∀ i < es.length,
      c.index.expansionGroups? key o.id i = x'.expansionGroups? key o.id i)
    (mapping : Option Mapping) (groups : List (List Slot)) (vs : List Value) (p : Plan) :
    bindMulti c key mapping o es groups vs p =
      bindMulti { c with index := x' } key mapping o es groups vs p := by
  have within : ∀ i < 0 + es.length,
      c.index.expansionGroups? key o.id i = x'.expansionGroups? key o.id i := by
    simpa using alike
  have expanded (mismatch : BindingError) := bindExpansions_congr mapping mismatch within
  cases vs with
  | nil => rfl
  | cons v later => simp only [bindMulti, expanded]

variable {t : OccurrenceTable} {store : Store}

theorem bindOccurrence_congr (b : ParameterBinding)
    (alike : c.index.groups? key o.id = x'.groups? key o.id ∧ ∀ i < (t.expansions o.id).length,
      c.index.expansionGroups? key o.id i = x'.expansionGroups? key o.id i) (p : Plan) :
    bindOccurrence c t key b o p = bindOccurrence { c with index := x' } t key b o p := by
  have own : c.groups key o = Context.groups { c with index := x' } key o := by
    simp only [Context.groups, alike.1]
  simp only [bindOccurrence, own, bindMulti_congr alike.2]
  rfl

theorem bindOccurrences_congr (b : ParameterBinding) {os : List Occurrence}
    (alike : ∀ o ∈ os, c.index.groups? key o.id = x'.groups? key o.id ∧
      ∀ i < (t.expansions o.id).length,
        c.index.expansionGroups? key o.id i = x'.expansionGroups? key o.id i) (p : Plan) :
    bindOccurrences c t key b os p = bindOccurrences { c with index := x' } t key b os p := by
  induction os generalizing p with
  | nil => rfl
  | cons o rest ih =>
    rw [List.forall_mem_cons] at alike
    simp only [bindOccurrences, bindOccurrence_congr b alike.1, ih alike.2]

/-- An index is read as far as the table's expansions go. What it has behind them is not asked for: plans
and errors are the same without it. -/
theorem buildPlan_congr (alike : c.index.ReadsAlike t x') :
    buildPlan c t store = buildPlan { c with index := x' } t store := by
  have entries (es : List ParameterEntry) (within : ∀ e ∈ es, e ∈ t.entries) (p : Plan) :
      bindEntries c t store es p = bindEntries { c with index := x' } t store es p := by
    induction es generalizing p with
    | nil => rfl
    | cons e rest ih =>
      rw [List.forall_mem_cons] at within
      have first (b : ParameterBinding) := bindOccurrences_congr b (alike e within.1)
      simp only [bindEntries, first, ih within.2]
  exact entries t.entries (fun _ mem => mem) .empty

end

theorem unreached_indexed {x : SlotIndex} {t : OccurrenceTable} {store : Store} {n : Nat}
    (unreached : n ∈ unreachedSlots x t store) : n ∈ x.slots := by
  obtain ⟨e, -, o, -, slots, found, dropped⟩ := mem_unreachedSlots_iff.mp unreached
  obtain ⟨i, groups, -, listed, numbered⟩ := exists_position_of_drop dropped
  have filed := OccurrenceSlots.mem_slots_iff.mpr (.inr (mem_numbers_of_position listed numbered))
  exact SlotIndex.mem_slots_iff.mpr ⟨_, _, slots, found, filed⟩

/-- A plan binds an occurrence of a parameter with several values only if there is an expansion for each
value but the first, in the table and in the index. -/
theorem width_of_plan {c : Context} {t t' : OccurrenceTable} {lookup : SlotIndex.Lookup} {store : Store}
    {p : Plan} {e : ParameterEntry} {o : Occurrence} {b : ParameterBinding} {vs : List Value}
    (indexed : SlotIndex.build t lookup = .ok c.index) (built : buildPlan c t' store = .ok p)
    (listed : e ∈ t'.entries) (member : o ∈ e.occurrences)
    (known : store.find? e.parameter.key = some b) (several : b.value = .multi vs) :
    vs.length = (t'.expansions o.id).length + 1 ∧ vs.length ≤ (t.expansions o.id).length + 1 := by
  obtain ⟨again, fs, found, ⟨slots, filing, fill⟩, -⟩ := buildPlan_fills built listed member
  obtain rfl := Option.some.inj (known.symm.trans found)
  obtain ⟨-, -, -, -, filed⟩ := SlotIndex.build_filed indexed filing
  have count := filed.count
  obtain ⟨counted, within⟩ := fill.of_multi several
  exact ⟨counted, by omega⟩

/-- Whatever happens between: an index is built from the table of one moment, and a plan through it for
the table and the values of a later one. More values than the index has room for are refused. Fewer are
not: what the index has beyond the table's width is not asked for. As long as the builder's numbers lasted
until the index was built, a plan binds the slots of the index but for those, so it covers the index exactly
where there are none. -/
theorem plan_through_older_index {b : Builder} {os : List Occurrence} {s : Statement}
    {steps later : List BindingStep} {x y : BindingState} {model : Model} {strict : Bool}
    {w w' : Workspace} {l : Lowered} {c : Context} (made : b.Made os)
    (own : ∀ o ∈ s.parameters, o ∈ os ∧ o.expands = none)
    (ran : (BindingState.start s b).run steps = x) (ranLater : x.run later = y)
    (lowered : lowerStatement model strict x.table.expansions s w = .ok l w')
    (indexed : SlotIndex.build x.table l.ledger.groups? = .ok c.index) :
    (∀ e ∈ y.table.entries, ∀ o ∈ e.occurrences, ∀ binding vs,
      y.store.find? e.parameter.key = some binding → binding.value = .multi vs →
      (x.table.expansions o.id).length + 1 < vs.length →
      ∃ error, buildPlan c y.table y.store = .error error) ∧
    (∀ x', c.index.ReadsAlike y.table x' →
      buildPlan c y.table y.store = buildPlan { c with index := x' } y.table y.store) ∧
    (x.builder.InRange → ∀ p, buildPlan c y.table y.store = .ok p → p.slots.Nodup ∧
      (∀ n, n ∈ p.slots ↔ n ∈ c.index.slots ∧ n ∉ unreachedSlots c.index y.table y.store) ∧
      ((∀ n, n ∈ p.slots ↔ n ∈ c.index.slots) ↔ unreachedSlots c.index y.table y.store = [])) := by
  refine ⟨?_, fun x' alike => buildPlan_congr alike, ?_⟩
  · intro e listed o member binding vs known several wider
    cases built : buildPlan c y.table y.store with
    | error error => exact ⟨error, rfl⟩
    | ok p =>
      have width := width_of_plan indexed built listed member known several
      omega
  · intro range p built
    have consistent : x.Consistent s := ran ▸ (BindingState.consistent_start made own).run steps
    have entries : y.table.entries = x.table.entries :=
      ranLater ▸ (consistent.run later).entries.trans consistent.entries.symm
    have prepared := prepared_of_steps made own ran range lowered indexed
    have covers (n : Nat) : n ∈ p.slots ↔
        n ∈ c.index.slots ∧ n ∉ unreachedSlots c.index y.table y.store :=
      prepared.mem_plan_iff_reached entries rfl built
    refine ⟨p.slots_nodup, covers, ?_⟩
    constructor
    · intro all
      refine List.eq_nil_iff_forall_not_mem.mpr fun n unreached => ?_
      exact ((covers n).mp ((all n).mpr (unreached_indexed unreached))).2 unreached
    · intro none n
      rw [covers, none]
      exact and_iff_left List.not_mem_nil

namespace Rebound

theorem made : (builder.occurrence ids none none).2.Made [(builder.occurrence ids none none).1] :=
  (Builder.Made.new .empty .empty).occurrence ids none none

theorem own : ∀ o ∈ statement.parameters,
    o ∈ [(builder.occurrence ids none none).1] ∧ o.expands = none := by
  intro o mem
  obtain rfl := List.mem_singleton.mp mem
  exact ⟨List.mem_singleton_self _, rfl⟩

/-- Three values are bound and expanded. -/
def wider : BindingState :=
  (BindingState.start statement (builder.occurrence ids none none).2).run
    [.bindMulti ids.key [.long 1, .long 2, .long 3], .expand]

/-- Two values take their place, and are expanded too. -/
def narrower : BindingState := wider.run [.bindMulti ids.key [.long 1, .long 2], .expand]

/-- The third slot of the older index is in no plan for the two values. -/
theorem older_index_keeps_a_slot :
    ∃ (l : Lowered) (w : Workspace) (c : Context) (p : Plan),
      lowerStatement model true wider.table.expansions statement .empty = .ok l w ∧
        SlotIndex.build wider.table l.ledger.groups? = .ok c.index ∧
        buildPlan c narrower.table narrower.store = .ok p ∧ p.slots.Nodup ∧
        ¬∀ n, n ∈ p.slots ↔ n ∈ c.index.slots := by
  refine ⟨_, _, ⟨model, .empty, _, .empty⟩, _, rfl, rfl, rfl, ?_⟩
  obtain ⟨-, -, covers⟩ := plan_through_older_index (x := wider) (y := narrower)
    (c := ⟨model, .empty, _, .empty⟩) made own rfl rfl rfl rfl
  refine And.imp_right (fun covered all => ?_) (covers (by decide) _ rfl)
  exact absurd (covered.2.mp all) (by decide)

end Rebound

end SemanticQuery.Binding
