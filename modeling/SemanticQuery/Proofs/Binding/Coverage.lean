import SemanticQuery.Proofs.Binding.Apply
import SemanticQuery.Proofs.Binding.Build
import SemanticQuery.Proofs.Binding.History
import SemanticQuery.Proofs.Binding.SlotIndex
import SemanticQuery.Proofs.Lowering.Owners
import SemanticQuery.Proofs.Lowering.Slots

/-! Which slots a binding plan covers. A plan binds every slot of the index but those of expansions that
stay in the table after their parameter stopped being bound to several values. -/
namespace SemanticQuery.Binding
open Query Lowering

/-- The slots of expansions whose parameter is not bound to several values any more. -/
def leftoverSlots (x : SlotIndex) (t : OccurrenceTable) (s : Store) : List Nat :=
  t.entries.flatMap fun e =>
    if (s.find? e.parameter.key).any ParameterBinding.isMulti then []
    else e.occurrences.flatMap fun o =>
      ((x.occurrence? e.parameter.key o.id).map fun slots =>
        slots.expansions.flatten.flatten.map Slot.number).getD []

theorem mem_leftoverSlots_iff {x : SlotIndex} {t : OccurrenceTable} {s : Store} {n : Nat} :
    n ∈ leftoverSlots x t s ↔ ∃ e ∈ t.entries,
      (s.find? e.parameter.key).any ParameterBinding.isMulti = false ∧ ∃ o ∈ e.occurrences, ∃ slots,
        x.occurrence? e.parameter.key o.id = some slots ∧
          n ∈ slots.expansions.flatten.flatten.map Slot.number := by
  rw [leftoverSlots, List.mem_flatMap]
  refine exists_congr fun e => and_congr_right fun _ => ?_
  cases several : (s.find? e.parameter.key).any ParameterBinding.isMulti with
  | true => simp
  | false =>
    simp only [Bool.false_eq_true, if_false, List.mem_flatMap, true_and]
    refine exists_congr fun o => and_congr_right fun _ => ?_
    cases x.occurrence? e.parameter.key o.id <;> simp

/-- How many expansions of an occurrence a plan reaches: as many as the table has, where the parameter
is bound to several values. -/
def reach (t : OccurrenceTable) (s : Store) (key : ParameterKey) (id : OccurrenceId) : Nat :=
  if (s.find? key).any ParameterBinding.isMulti then (t.expansions id).length else 0

/-- The slots that an index has for expansions beyond those that a plan for the table reaches. -/
def unreachedSlots (x : SlotIndex) (t : OccurrenceTable) (s : Store) : List Nat :=
  t.entries.flatMap fun e => e.occurrences.flatMap fun o =>
    ((x.occurrence? e.parameter.key o.id).map fun slots =>
      (slots.expansions.drop (reach t s e.parameter.key o.id)).flatten.flatten.map Slot.number).getD []

theorem mem_unreachedSlots_iff {x : SlotIndex} {t : OccurrenceTable} {s : Store} {n : Nat} :
    n ∈ unreachedSlots x t s ↔ ∃ e ∈ t.entries, ∃ o ∈ e.occurrences, ∃ slots,
      x.occurrence? e.parameter.key o.id = some slots ∧ n ∈ (slots.expansions.drop
        (reach t s e.parameter.key o.id)).flatten.flatten.map Slot.number := by
  rw [unreachedSlots, List.mem_flatMap]
  refine exists_congr fun e => and_congr_right fun _ => ?_
  rw [List.mem_flatMap]
  refine exists_congr fun o => and_congr_right fun _ => ?_
  cases x.occurrence? e.parameter.key o.id <;> simp

/-- Through an index built from the table itself, a plan reaches all but what is left over. -/
theorem mem_unreached_iff_leftover {x : SlotIndex} {t : OccurrenceTable} {s : Store} {n : Nat}
    {lookup : SlotIndex.Lookup} (indexed : SlotIndex.build t lookup = .ok x) :
    n ∈ unreachedSlots x t s ↔ n ∈ leftoverSlots x t s := by
  rw [mem_unreachedSlots_iff, mem_leftoverSlots_iff]
  refine exists_congr fun e => and_congr_right fun _ => ?_
  cases several : (s.find? e.parameter.key).any ParameterBinding.isMulti with
  | false => simp [reach, several]
  | true =>
    refine iff_of_false ?_ (by simp)
    rintro ⟨o, -, slots, found, numbered⟩
    obtain ⟨-, -, -, -, filed⟩ := SlotIndex.build_filed indexed found
    simp [reach, several, filed.count] at numbered

theorem OccurrenceSlots.mem_slots_iff {slots : OccurrenceSlots} {n : Nat} :
    n ∈ slots.slots.map Slot.number ↔ n ∈ slots.groups.flatten.map Slot.number ∨
      n ∈ slots.expansions.flatten.flatten.map Slot.number := by
  rw [OccurrenceSlots.slots, List.flatten_append, List.map_append, List.mem_append]

theorem leftover_indexed {x : SlotIndex} {t : OccurrenceTable} {s : Store} {n : Nat}
    (left : n ∈ leftoverSlots x t s) : n ∈ x.slots := by
  obtain ⟨e, -, -, o, -, slots, found, numbered⟩ := mem_leftoverSlots_iff.mp left
  have filed := OccurrenceSlots.mem_slots_iff.mpr (.inr numbered)
  exact SlotIndex.mem_slots_iff.mpr ⟨_, _, slots, found, filed⟩

theorem mem_numbers_of_mem {groups : List (List Slot)} {g : List Slot} {n : Nat}
    (mem : g ∈ groups) (numbered : n ∈ g.map Slot.number) : n ∈ groups.flatten.map Slot.number := by
  obtain ⟨slot, member, number⟩ := List.mem_map.mp numbered
  exact List.mem_map.mpr ⟨slot, List.mem_flatten_of_mem mem member, number⟩

theorem exists_group_of_number {groups : List (List Slot)} {n : Nat}
    (numbered : n ∈ groups.flatten.map Slot.number) : ∃ g ∈ groups, n ∈ g.map Slot.number := by
  obtain ⟨slot, mem, number⟩ := List.mem_map.mp numbered
  obtain ⟨g, listed, member⟩ := List.mem_flatten.mp mem
  exact ⟨g, listed, List.mem_map.mpr ⟨slot, member, number⟩⟩

theorem mem_numbers_of_position {all : List (List (List Slot))} {i n : Nat} {groups : List (List Slot)}
    (listed : all[i]? = some groups) (numbered : n ∈ groups.flatten.map Slot.number) :
    n ∈ all.flatten.flatten.map Slot.number := by
  obtain ⟨g, mem, number⟩ := exists_group_of_number numbered
  exact mem_numbers_of_mem (List.mem_flatten_of_mem (List.mem_of_getElem? listed) mem) number

theorem exists_position {all : List (List (List Slot))} {n : Nat}
    (numbered : n ∈ all.flatten.flatten.map Slot.number) :
    ∃ (i : Nat) (groups : List (List Slot)), all[i]? = some groups ∧
      n ∈ groups.flatten.map Slot.number := by
  obtain ⟨g, mem, number⟩ := exists_group_of_number numbered
  obtain ⟨groups, listed, member⟩ := List.mem_flatten.mp mem
  obtain ⟨i, found⟩ := List.mem_iff_getElem?.mp listed
  exact ⟨i, groups, found, mem_numbers_of_mem member number⟩

theorem exists_position_of_take {all : List (List (List Slot))} {width n : Nat}
    (numbered : n ∈ (all.take width).flatten.flatten.map Slot.number) :
    ∃ (i : Nat) (groups : List (List Slot)), i < width ∧ all[i]? = some groups ∧
      n ∈ groups.flatten.map Slot.number := by
  obtain ⟨i, groups, listed, number⟩ := exists_position numbered
  rw [List.getElem?_take] at listed
  split at listed
  next within => exact ⟨i, groups, within, listed, number⟩
  · contradiction

theorem exists_position_of_drop {all : List (List (List Slot))} {width n : Nat}
    (numbered : n ∈ (all.drop width).flatten.flatten.map Slot.number) :
    ∃ (i : Nat) (groups : List (List Slot)), width ≤ i ∧ all[i]? = some groups ∧
      n ∈ groups.flatten.map Slot.number := by
  obtain ⟨i, groups, listed, number⟩ := exists_position numbered
  rw [List.getElem?_drop] at listed
  exact ⟨width + i, groups, Nat.le_add_right _ _, listed, number⟩

/-- A lowered statement with the index of its slots, by a table whose expansions have identities of their
own. -/
structure Prepared (s : Statement) (t : OccurrenceTable) (l : Lowered) (x : SlotIndex) : Prop where
  plain : ∀ o ∈ s.parameters, o.expands = none
  expands : Expands s t
  places : ∃ os, l.Places os ∧ ∀ o ∈ os, ReachedFrom t.expansions s.parameters o
  indexed : SlotIndex.build t l.ledger.groups? = .ok x

namespace Prepared
variable {s : Statement} {t : OccurrenceTable} {l : Lowered} {x : SlotIndex} {n : Nat}

theorem entries (prepared : Prepared s t l x) :
    t.entries = (OccurrenceTable.ofStatement s).entries :=
  prepared.expands.entries

theorem numbers_nodup (prepared : Prepared s t l x) : (numbers l.ledger.entries).Nodup := by
  obtain ⟨os, places, -⟩ := prepared.places
  exact places.numbered ▸ List.nodup_range

theorem owner_unique (prepared : Prepared s t l x) {id other : OccurrenceId}
    (owns : Owns l.ledger.entries id n) (again : Owns l.ledger.entries other n) : id = other :=
  owns.unique prepared.numbers_nodup again

/-- The slots filed for an occurrence belong to it or to one of its expansions. -/
theorem owner_of_slot {id : OccurrenceId} {slots : OccurrenceSlots}
    (filed : SlotIndex.Filed t l.ledger.groups? id slots) :
    (n ∈ slots.groups.flatten.map Slot.number ↔ Owns l.ledger.entries id n) ∧
      (n ∈ slots.expansions.flatten.flatten.map Slot.number ↔
        ∃ e ∈ t.expansions id, Owns l.ledger.entries e.id n) := by
  refine ⟨owns_iff_of_groups? filed.groups, ?_⟩
  have expansions := filed.expansions
  constructor
  · intro mem
    obtain ⟨slot, member, numbered⟩ := List.mem_map.mp mem
    obtain ⟨group, memGroup, member⟩ := List.mem_flatten.mp member
    obtain ⟨groups, memGroups, memGroup⟩ := List.mem_flatten.mp memGroup
    have listed : some groups ∈ (t.expansions id).map fun e => l.ledger.groups? e.id :=
      expansions ▸ List.mem_map_of_mem memGroups
    obtain ⟨e, expansion, found⟩ := List.mem_map.mp listed
    refine ⟨e, expansion, (owns_iff_of_groups? found).mp ?_⟩
    exact List.mem_map.mpr ⟨slot, List.mem_flatten_of_mem memGroup member, numbered⟩
  · rintro ⟨e, expansion, owns⟩
    have listed : l.ledger.groups? e.id ∈ slots.expansions.map some :=
      expansions ▸ List.mem_map_of_mem (f := fun e : Occurrence => l.ledger.groups? e.id) expansion
    obtain ⟨groups, memGroups, found⟩ := List.mem_map.mp listed
    obtain ⟨slot, member, numbered⟩ := List.mem_map.mp ((owns_iff_of_groups? found.symm).mpr owns)
    obtain ⟨group, memGroup, member⟩ := List.mem_flatten.mp member
    refine List.mem_map.mpr ⟨slot, List.mem_flatten_of_mem ?_ member, numbered⟩
    exact List.mem_flatten_of_mem memGroups memGroup

/-- A slot of an expansion belongs to the one at its position. -/
theorem position_of_slot {slots : OccurrenceSlots} {id : OccurrenceId}
    (numbered : (numbers l.ledger.entries).Nodup) (apart : ((t.expansions id).map Occurrence.id).Nodup)
    (filed : SlotIndex.Filed t l.ledger.groups? id slots) {i j : Nat} {gs hs : List (List Slot)}
    (first : slots.expansions[i]? = some gs) (second : slots.expansions[j]? = some hs)
    (mem : n ∈ gs.flatten.map Slot.number) (again : n ∈ hs.flatten.map Slot.number) : i = j := by
  obtain ⟨e, expanded, found⟩ := filed.expansion_at first
  obtain ⟨f, expandedAgain, foundAgain⟩ := filed.expansion_at second
  have same : e.id = f.id := ((owns_iff_of_groups? found).mp mem).unique numbered
    ((owns_iff_of_groups? foundAgain).mp again)
  exact position_unique apart expanded expandedAgain same

/-- Every slot that is allocated is in the index. -/
theorem allocated_indexed (prepared : Prepared s t l x)
    (allocated : n ∈ numbers l.ledger.entries) : n ∈ x.slots := by
  obtain ⟨os, places, reached⟩ := prepared.places
  obtain ⟨id, owns⟩ := mem_numbers_iff.mp allocated
  have ⟨group, mem, _⟩ := owns
  have visited : id ∈ os.map Occurrence.id := places.visited ▸ List.mem_map_of_mem mem
  obtain ⟨o, visit, rfl⟩ := List.mem_map.mp visited
  have record (original : Occurrence) (listed : original ∈ s.parameters) :
      ∃ key slots, x.occurrence? key original.id = some slots ∧
        SlotIndex.Filed t l.ledger.groups? original.id slots := by
    obtain ⟨e, entry, first, member, same⟩ := OccurrenceTable.exists_entry listed prepared.plain
    obtain ⟨slots, filed, found⟩ :=
      SlotIndex.build_files prepared.indexed (prepared.entries ▸ entry) member
    exact ⟨e.parameter.key, slots, same ▸ found, same ▸ filed⟩
  rw [SlotIndex.mem_slots_iff]
  rcases reached o visit with own | ⟨original, listed, expansion⟩
  · obtain ⟨key, slots, found, filed⟩ := record o own
    have listed := (owner_of_slot filed).1.mpr owns
    exact ⟨key, o.id, slots, found, OccurrenceSlots.mem_slots_iff.mpr (.inl listed)⟩
  · obtain ⟨key, slots, found, filed⟩ := record original listed
    have expanded := (owner_of_slot filed).2.mpr ⟨o, expansion, owns⟩
    exact ⟨key, original.id, slots, found, OccurrenceSlots.mem_slots_iff.mpr (.inr expanded)⟩

/-- Every placeholder stands at a slot of the index. -/
theorem rendered_indexed (prepared : Prepared s t l x)
    (rendered : n ∈ l.statement.render.slots) : n ∈ x.slots := by
  obtain ⟨os, places, -⟩ := prepared.places
  have written := l.statement.placeholders_subset rendered
  exact prepared.allocated_indexed (places.slots.mem_iff.mpr written)

variable {c : Context} {store : Store} {p : Plan}

variable {t' : OccurrenceTable}

/-- What a plan fills is not out of its reach: an expansion owns its slots alone, so no occurrence of the
statement shares them, and no expansion at another position. -/
theorem not_unreached (prepared : Prepared s t l x) (entries : t'.entries = t.entries)
    {e : ParameterEntry} {o : Occurrence} {slots : OccurrenceSlots} {b : ParameterBinding}
    (listed : e ∈ t.entries) (member : o ∈ e.occurrences)
    (filing : x.occurrence? e.parameter.key o.id = some slots)
    (known : store.find? e.parameter.key = some b)
    (filled : n ∈ slots.groups.flatten.map Slot.number ∨ b.isMulti = true ∧
      n ∈ (slots.expansions.take (t'.expansions o.id).length).flatten.flatten.map Slot.number) :
    n ∉ unreachedSlots x t' store := by
  intro unreached
  obtain ⟨other, listedOther, twin, memberOther, slots', found, dropped⟩ :=
    mem_unreachedSlots_iff.mp unreached
  obtain ⟨-, -, -, -, filed⟩ := SlotIndex.build_filed prepared.indexed filing
  obtain ⟨-, -, -, -, filedOther⟩ := SlotIndex.build_filed prepared.indexed found
  obtain ⟨j, hs, beyond, at_j, numbered⟩ := exists_position_of_drop dropped
  obtain ⟨expansion, expanded, foundExpansion⟩ := filedOther.expansion_at at_j
  have owns := (owns_iff_of_groups? foundExpansion).mp numbered
  have expansionMem := List.mem_of_getElem? expanded
  rw [entries] at listedOther
  rw [prepared.entries] at listed listedOther
  rcases filled with own | ⟨several, reached⟩
  · have same := prepared.owner_unique ((owner_of_slot filed).1.mp own) owns
    have parameter := OccurrenceTable.mem_parameters_of_mem_entry listed member
    exact prepared.expands.apart expansionMem o parameter same
  · obtain ⟨i, gs, within, at_i, reached⟩ := exists_position_of_take reached
    obtain ⟨again, expandedAgain, foundAgain⟩ := filed.expansion_at at_i
    have same := prepared.owner_unique ((owns_iff_of_groups? foundAgain).mp reached) owns
    have originals := prepared.expands.distinct (List.mem_of_getElem? expandedAgain) expansionMem same
    obtain ⟨rfl, rfl⟩ :=
      OccurrenceTable.entry_unique listed listedOther member memberOther originals
    obtain rfl := Option.some.inj (filing.symm.trans found)
    obtain rfl := position_of_slot prepared.numbers_nodup (prepared.expands.nodup _) filed at_i at_j
      reached numbered
    rw [reach, known, Option.any_some, several, if_pos rfl] at beyond
    exact Nat.lt_irrefl _ (Nat.lt_of_lt_of_le within beyond)

/-- A plan covers the index up to the reach of the table it is built for, which may be another one than
the index was built from. -/
theorem mem_plan_iff_reached (prepared : Prepared s t l x) (entries : t'.entries = t.entries)
    (index : c.index = x) (built : buildPlan c t' store = .ok p) :
    n ∈ p.slots ↔ n ∈ x.slots ∧ n ∉ unreachedSlots x t' store := by
  constructor
  · intro bound
    obtain ⟨b, found⟩ := Plan.mem_slots_iff.mp bound
    obtain ⟨e, listed, o, member, binding, fs, known, ⟨slots, filing, fill⟩, f, mem, write⟩ :=
      buildPlan_filled built found
    rw [index] at filing
    rw [entries] at listed
    have numbered := Filling.number_of_write write
    have filled : n ∈ slots.groups.flatten.map Slot.number ∨ binding.isMulti = true ∧
        n ∈ (slots.expansions.take (t'.expansions o.id).length).flatten.flatten.map Slot.number := by
      rcases fill.group_mem mem with own | ⟨several, expanded⟩
      · exact .inl (mem_numbers_of_mem own numbered)
      · exact .inr ⟨several, mem_numbers_of_mem expanded numbered⟩
    refine ⟨?_, prepared.not_unreached entries listed member filing known filled⟩
    rw [SlotIndex.mem_slots_iff]
    refine ⟨_, o.id, slots, filing, OccurrenceSlots.mem_slots_iff.mpr (filled.imp_right ?_)⟩
    rintro ⟨-, expanded⟩
    obtain ⟨i, gs, -, listed, numbered⟩ := exists_position_of_take expanded
    exact mem_numbers_of_position listed numbered
  · rintro ⟨listed, remains⟩
    obtain ⟨key, id, slots, filing, numbered⟩ := SlotIndex.mem_slots_iff.mp listed
    obtain ⟨e, entry, rfl, ⟨o, member, rfl⟩, -⟩ := SlotIndex.build_filed prepared.indexed filing
    rw [← entries] at entry
    obtain ⟨b, fs, known, ⟨found, filingAgain, fill⟩, written⟩ := buildPlan_fills built entry member
    rw [index, filing] at filingAgain
    obtain rfl := Option.some.inj filingAgain
    have some_filling : ∃ f ∈ fs, n ∈ f.group.map Slot.number := by
      rcases OccurrenceSlots.mem_slots_iff.mp numbered with own | expanded
      · obtain ⟨g, mem, number⟩ := exists_group_of_number own
        obtain ⟨f, filling, rfl⟩ := fill.exists_own mem
        exact ⟨f, filling, number⟩
      have reached : n ∈ (slots.expansions.take (reach t' store e.parameter.key o.id)).flatten.flatten.map
          Slot.number := by
        rw [← List.take_append_drop (reach t' store e.parameter.key o.id) slots.expansions,
          List.flatten_append, List.flatten_append, List.map_append, List.mem_append] at expanded
        refine expanded.resolve_right fun beyond => remains (mem_unreachedSlots_iff.mpr ?_)
        exact ⟨e, entry, o, member, slots, filing, beyond⟩
      cases several : b.isMulti with
      | true =>
        rw [reach, known, Option.any_some, several, if_pos rfl] at reached
        obtain ⟨g, mem, number⟩ := exists_group_of_number reached
        obtain ⟨f, filling, rfl⟩ := fill.exists_expanded several mem
        exact ⟨f, filling, number⟩
      | false => simp [reach, known, several] at reached
    obtain ⟨f, filling, number⟩ := some_filling
    obtain ⟨binding, write⟩ := Filling.exists_write number
    exact Plan.mem_slots_iff.mpr ⟨binding, written f filling _ write⟩

/-- A plan covers the index but for the slots of expansions left behind. -/
theorem mem_plan_iff (prepared : Prepared s t l x) (index : c.index = x)
    (built : buildPlan c t store = .ok p) :
    n ∈ p.slots ↔ n ∈ x.slots ∧ n ∉ leftoverSlots x t store := by
  rw [prepared.mem_plan_iff_reached rfl index built, mem_unreached_iff_leftover prepared.indexed]

end Prepared

/-- Whatever was bound, taken back and expanded before: a statement that is lowered with its table and
indexed by it is prepared, as long as the numbers of its builder last. -/
theorem prepared_of_steps {b : Builder} {os : List Occurrence} {s : Statement}
    {steps : List BindingStep} {x : BindingState} {model : Model} {strict : Bool} {w w' : Workspace}
    {l : Lowered} {i : SlotIndex} (made : b.Made os)
    (own : ∀ o ∈ s.parameters, o ∈ os ∧ o.expands = none)
    (ran : (BindingState.start s b).run steps = x) (range : x.builder.InRange)
    (lowered : lowerStatement model strict x.table.expansions s w = .ok l w')
    (indexed : SlotIndex.build x.table l.ledger.groups? = .ok i) : Prepared s x.table l i where
  plain o mem := (own o mem).2
  expands := ((ran ▸ (BindingState.consistent_start made own).run steps : x.Consistent s)).expands range
  places := ⟨_, lowerStatement_places lowered, fun _ => Statement.reached_of_visits⟩
  indexed

/-- Whatever was bound, taken back and expanded, in whatever order, as long as the builder's numbers last: a
statement lowered with its table and indexed by it has a plan that binds the slots of the index once each,
but for those of expansions left behind. It covers the index exactly where none are left, and its placeholders
are all bound exactly where none of them stands at a slot left behind. -/
theorem plan_covers_index_iff {b : Builder} {os : List Occurrence} {s : Statement}
    {steps : List BindingStep} {x : BindingState} {model : Model} {strict : Bool} {w w' : Workspace}
    {l : Lowered} {c : Context} {p : Plan} (made : b.Made os)
    (own : ∀ o ∈ s.parameters, o ∈ os ∧ o.expands = none)
    (ran : (BindingState.start s b).run steps = x) (range : x.builder.InRange)
    (lowered : lowerStatement model strict x.table.expansions s w = .ok l w')
    (indexed : SlotIndex.build x.table l.ledger.groups? = .ok c.index)
    (built : buildPlan c x.table x.store = .ok p) :
    p.slots.Nodup ∧
      (∀ n, n ∈ p.slots ↔ n ∈ c.index.slots ∧ n ∉ leftoverSlots c.index x.table x.store) ∧
      ((∀ n, n ∈ p.slots ↔ n ∈ c.index.slots) ↔ leftoverSlots c.index x.table x.store = []) ∧
      ((∀ n ∈ l.statement.render.slots, n ∉ leftoverSlots c.index x.table x.store) ↔
        ∀ (σ : Type) (sink : Sink σ), sink.Sound → ∀ st n st',
          p.applyPositional sink l.statement.render.slots st ≠ .error (.unboundSlot n) st') := by
  have prepared := prepared_of_steps made own ran range lowered indexed
  have covers : ∀ n, n ∈ p.slots ↔
      n ∈ c.index.slots ∧ n ∉ leftoverSlots c.index x.table x.store :=
    fun n => prepared.mem_plan_iff rfl built
  refine ⟨p.slots_nodup, covers, ?_, ?_⟩
  · constructor
    · intro all
      refine List.eq_nil_iff_forall_not_mem.mpr fun n left => ?_
      exact ((covers n).mp ((all n).mpr (leftover_indexed left))).2 left
    · intro none n
      rw [covers, none]
      exact and_iff_left List.not_mem_nil
  · constructor
    · intro remains σ sink sound st n st'
      refine Plan.applyFrom_of_bound sound (fun slot mem => ?_) 1 st st'
      exact (covers slot).mpr ⟨prepared.rendered_indexed mem, remains slot mem⟩
    · intro never n mem left
      have unbound : n ∉ p.slots := fun bound => ((covers n).mp bound).2 left
      obtain ⟨slot, st, failed⟩ := Plan.applyFrom_of_unbound ⟨n, mem, unbound⟩ 1 []
      exact never _ _ Sink.record_sound _ _ _ failed

namespace Rebound

def long : BasicType := ⟨"long", .long, .bigInt⟩

def builder : Builder := .new .empty .empty

def ids : Parameter := ⟨.positional 1, some (.basic long), true⟩

/-- A selection of nothing, restricted by a list of one parameter. -/
def statement : Statement :=
  .select ⟨[], [], [], some (.inList (.literal 0 (.long 7) (.basic long))
    [.parameter 1 (builder.occurrence ids none none).1] false)⟩

def model : Model := ⟨.empty, .empty⟩

/-- Three values are bound and expanded, and one value takes their place. -/
def steps : List BindingStep :=
  [.bindMulti ids.key [.long 1, .long 2, .long 3], .expand, .bind ids.key (.long 7)]

def state : BindingState :=
  (BindingState.start statement (builder.occurrence ids none none).2).run steps

/-- The two slots of the expansions stay in the index, and the plan has nothing for them. -/
theorem one_value_leaves_two_slots :
    ∃ (l : Lowered) (w : Workspace) (c : Context) (p : Plan),
      lowerStatement model true state.table.expansions statement .empty = .ok l w ∧
        SlotIndex.build state.table l.ledger.groups? = .ok c.index ∧
        buildPlan c state.table state.store = .ok p ∧ p.slots.Nodup ∧
        ¬∀ n, n ∈ p.slots ↔ n ∈ c.index.slots := by
  have made := (Builder.Made.new .empty .empty).occurrence ids none none
  have own : ∀ o ∈ statement.parameters,
      o ∈ [] ++ [(builder.occurrence ids none none).1] ∧ o.expands = none := by
    intro o mem
    obtain rfl := List.mem_singleton.mp mem
    exact ⟨List.mem_singleton_self _, rfl⟩
  refine ⟨_, _, ⟨model, .empty, _, .empty⟩, _, rfl, rfl, rfl, ?_⟩
  refine And.imp_right (fun covers all => absurd (covers.2.1.mp all) ?_)
    (plan_covers_index_iff (x := state) made own rfl (by decide) rfl rfl rfl)
  decide

end Rebound

end SemanticQuery.Binding
