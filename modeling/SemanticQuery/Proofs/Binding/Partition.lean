import SemanticQuery.Proofs.Binding.Coverage
import SemanticQuery.Proofs.Binding.Recorded
import SemanticQuery.Proofs.Lowering.Order

/-! Where a slot index can be built, and what it is then: the slots of the statement, divided by the
parameters that they were allocated for. -/
namespace SemanticQuery.Binding
open Query Lowering

section
variable {model : Model} {strict : Bool} {s : Statement} {t : OccurrenceTable} {w w' : Workspace}
  {l : Lowered}

theorem allocated_iff_visited (lowered : lowerStatement model strict t.expansions s w = .ok l w')
    {id : OccurrenceId} : l.ledger.groups? id ≠ none ↔ ∃ o ∈ s.visits t.expansions, o.id = id := by
  rw [Ne, groups?_eq_none_iff, not_not, (lowerStatement_places lowered).visited, List.mem_map]

theorem parameter_allocated (lowered : lowerStatement model strict t.expansions s w = .ok l w')
    {o : Occurrence} (mem : o ∈ s.parameters) : l.ledger.groups? o.id ≠ none :=
  (allocated_iff_visited lowered).mpr ⟨o, Statement.mem_visits_iff.mpr (.inl mem), rfl⟩

/-- Slots are allocated for the expansions of the occurrences that are items of lists, and of no others. -/
theorem expansion_allocated_iff (lowered : lowerStatement model strict t.expansions s w = .ok l w')
    (expands : Expands s t) {id : OccurrenceId} {e : Occurrence} (expansion : e ∈ t.expansions id) :
    l.ledger.groups? e.id ≠ none ↔ s.ListsItem id := by
  rw [allocated_iff_visited lowered]
  constructor
  · -- A visit under the identity of the expansion is one of the expansion: neither a parameter nor an
    -- expansion of another occurrence has it.
    rintro ⟨o, visit, same⟩
    rcases Statement.mem_visits_iff.mp visit with own | ⟨other, item, expanded⟩
    · exact absurd same (expands.apart expansion o own)
    · exact expands.distinct expanded expansion same ▸ item
  · intro item
    exact ⟨e, Statement.mem_visits_iff.mpr (.inr ⟨id, item, expansion⟩), rfl⟩

variable (lowered : lowerStatement model strict t.expansions s w = .ok l w')
  (plain : ∀ o ∈ s.parameters, o.expands = none) (expands : Expands s t)
include lowered expands

/-- What a failed build names is an expansion of an occurrence that is an item of no list. -/
theorem unlisted_of_build_error {error : BindingError}
    (failed : SlotIndex.build t l.ledger.groups? = .error error) :
    ∃ o ∈ s.parameters, ∃ e ∈ t.expansions o.id,
      ¬s.ListsItem o.id ∧ error = .missingSlots o.key.text e.id := by
  obtain ⟨entry, listed, o, member, needed, of_o, missing, rfl⟩ := SlotIndex.build_error failed
  rw [expands.entries] at listed
  have mem := OccurrenceTable.mem_parameters_of_mem_entry listed member
  rcases List.mem_cons.mp of_o with rfl | expanded
  · exact absurd missing (parameter_allocated lowered mem)
  · obtain ⟨e, expansion, rfl⟩ := List.mem_map.mp expanded
    refine ⟨o, mem, e, expansion, fun item => ?_, ?_⟩
    · exact (expansion_allocated_iff lowered expands expansion).mpr item missing
    · rw [(OccurrenceTable.mem_entry listed member).2.2.2]

include plain

/-- An index cannot be built exactly where an occurrence has expansions and is an item of no list. -/
theorem build_fails_iff : (∃ error, SlotIndex.build t l.ledger.groups? = .error error) ↔
    ∃ o ∈ s.parameters, t.expansions o.id ≠ [] ∧ ¬s.ListsItem o.id := by
  constructor
  · rintro ⟨error, failed⟩
    obtain ⟨o, mem, e, expansion, unlisted, -⟩ := unlisted_of_build_error lowered expands failed
    exact ⟨o, mem, List.ne_nil_of_mem expansion, unlisted⟩
  · rintro ⟨o, mem, expanded, unlisted⟩
    cases built : SlotIndex.build t l.ledger.groups? with
    | error error => exact ⟨error, rfl⟩
    | ok x =>
      obtain ⟨entry, listed, first, member, same⟩ := OccurrenceTable.exists_entry mem plain
      obtain ⟨slots, filed, -⟩ := SlotIndex.build_files built (expands.entries ▸ listed) member
      obtain ⟨e, rest, expansions⟩ := List.exists_cons_of_ne_nil expanded
      have expansion : e ∈ t.expansions o.id := expansions ▸ List.mem_cons_self
      have allocated : l.ledger.groups? e.id ≠ none := filed.expansion_found (same ▸ expansion)
      exact absurd ((expansion_allocated_iff lowered expands expansion).mp allocated) unlisted

end

/-! The slots of an index, each filed once. -/

/-- An occurrence owns a slot, itself or through one of its expansions. -/
def OwnsThrough (t : OccurrenceTable) (gs : Groups) (id : OccurrenceId) (n : Nat) : Prop :=
  Owns gs id n ∨ ∃ e ∈ t.expansions id, Owns gs e.id n

section
variable {t : OccurrenceTable} {l : Lowered} {x : SlotIndex} {n : Nat} {id : OccurrenceId}
  {slots : OccurrenceSlots} {key : ParameterKey}

theorem mem_slots_iff_owns (filed : SlotIndex.Filed t l.ledger.groups? id slots) :
    n ∈ slots.slots.map Slot.number ↔ OwnsThrough t l.ledger.entries id n := by
  rw [OccurrenceSlots.mem_slots_iff, (Prepared.owner_of_slot filed).1, (Prepared.owner_of_slot filed).2,
    OwnsThrough]

variable (numbered : (numbers l.ledger.entries).Nodup)
include numbered

theorem expansion_slots_nodup (apart : ((t.expansions id).map Occurrence.id).Nodup)
    (filed : SlotIndex.Filed t l.ledger.groups? id slots) :
    (slots.expansions.flatten.flatten.map Slot.number).Nodup := by
  have byPosition : slots.expansions.flatten.flatten.map Slot.number =
      slots.expansions.flatMap fun groups => groups.flatten.map Slot.number := by
    rw [List.flatten_flatten, List.map_flatten, List.map_map, List.flatMap_def]
    rfl
  rw [byPosition, List.nodup_flatMap]
  constructor
  · intro groups mem
    obtain ⟨i, listed⟩ := List.mem_iff_getElem?.mp mem
    obtain ⟨e, -, found⟩ := filed.expansion_at listed
    exact groups_nodup numbered found
  · refine List.pairwise_iff_getElem.mpr fun i j within withinOther before n mem again => ?_
    have same := Prepared.position_of_slot numbered apart filed (List.getElem?_eq_getElem within)
      (List.getElem?_eq_getElem withinOther) mem again
    exact absurd same (Nat.ne_of_lt before)

variable (distinct : t.Distinct)
include distinct

/-- A slot is owned through one of the occurrences listed. -/
theorem ownsThrough_unique {o twin : Occurrence} (listed : o ∈ t.listed) (listedOther : twin ∈ t.listed)
    (owns : OwnsThrough t l.ledger.entries o.id n) (again : OwnsThrough t l.ledger.entries twin.id n) :
    o = twin := by
  obtain ⟨single, -, filing, across⟩ := OccurrenceTable.distinct_iff.mp distinct
  refine List.inj_on_of_nodup_map single listed listedOther ?_
  obtain own | ⟨e, expansion, own⟩ := owns <;> obtain again | ⟨f, expansionOther, again⟩ := again
  · exact own.unique numbered again
  · exact absurd (own.unique numbered again) (across o listed _ f expansionOther)
  · exact absurd (again.unique numbered own) (across twin listedOther _ e expansion)
  · exact filing _ _ e f expansion expansionOther (own.unique numbered again)

variable (indexed : SlotIndex.build t l.ledger.groups? = .ok x)
include indexed

/-- No slot is filed twice for an occurrence. -/
theorem occurrence_slots_nodup (found : x.occurrence? key id = some slots) :
    (slots.slots.map Slot.number).Nodup := by
  obtain ⟨-, apart, -, across⟩ := OccurrenceTable.distinct_iff.mp distinct
  obtain ⟨e, entry, -, ⟨o, member, rfl⟩, filed⟩ := SlotIndex.build_filed indexed found
  rw [OccurrenceSlots.slots, List.flatten_append, List.map_append]
  refine List.Nodup.append (groups_nodup numbered filed.groups)
    (expansion_slots_nodup numbered (apart _) filed) ?_
  intro n own expanded
  obtain ⟨f, expansion, owns⟩ := (Prepared.owner_of_slot filed).2.mp expanded
  exact across o (OccurrenceTable.mem_listed_iff.mpr ⟨e, entry, member⟩) _ f expansion
    (((Prepared.owner_of_slot filed).1.mp own).unique numbered owns)

/-- No slot is filed for two occurrences, under one key or under two. -/
theorem place_of_slot {otherKey : ParameterKey} {other : OccurrenceId} {more : OccurrenceSlots}
    (found : x.occurrence? key id = some slots) (foundOther : x.occurrence? otherKey other = some more)
    (mem : n ∈ slots.slots.map Slot.number) (again : n ∈ more.slots.map Slot.number) :
    key = otherKey ∧ id = other := by
  obtain ⟨e, entry, rfl, ⟨o, member, rfl⟩, filed⟩ := SlotIndex.build_filed indexed found
  obtain ⟨f, entryOther, rfl, ⟨twin, memberOther, rfl⟩, filedOther⟩ :=
    SlotIndex.build_filed indexed foundOther
  obtain rfl := ownsThrough_unique numbered distinct (OccurrenceTable.mem_listed_iff.mpr ⟨e, entry, member⟩)
    (OccurrenceTable.mem_listed_iff.mpr ⟨f, entryOther, memberOther⟩) ((mem_slots_iff_owns filed).mp mem)
    ((mem_slots_iff_owns filedOther).mp again)
  refine ⟨?_, rfl⟩
  -- Identities are listed once, so no two entries have the occurrence.
  obtain ⟨single, -⟩ := OccurrenceTable.distinct_iff.mp distinct
  have symmetric : Std.Symm (Function.onFun List.Disjoint ParameterEntry.occurrences) :=
    ⟨fun _ _ => List.disjoint_symm⟩
  by_contra different
  exact (List.nodup_flatMap.mp single.of_map).2.forall entry entryOther
    (fun same => different (congrArg (fun e => e.parameter.key) same)) member memberOther

/-- An index by a table that records no identity twice has each slot once, under one key. -/
theorem slots_nodup_of_distinct : x.slots.Nodup := by
  have byKey : x.slots = x.parameters.values.flatMap fun occurrences =>
      occurrences.values.flatMap fun slots => slots.slots.map Slot.number := by
    rw [SlotIndex.slots, SlotIndex.keys, KeyedList.keys, KeyedList.values, List.flatMap_map,
      List.flatMap_map]
    refine List.flatMap_congr fun entry listed => ?_
    rw [SlotIndex.slotsFor, KeyedList.mem_entries_iff.mp listed]
    exact List.map_flatMap
  rw [byKey, KeyedList.nodup_flatMap_values]
  have filing {key : ParameterKey} {occurrences : KeyedList OccurrenceId OccurrenceSlots}
      {id : OccurrenceId} {slots : OccurrenceSlots} (known : x.parameters.find? key = some occurrences)
      (found : occurrences.find? id = some slots) : x.occurrence? key id = some slots := by
    rw [SlotIndex.occurrence?, known]
    exact found
  constructor
  · intro key occurrences known
    rw [KeyedList.nodup_flatMap_values]
    constructor
    · intro id slots found
      exact occurrence_slots_nodup numbered distinct indexed (filing known found)
    · intro id other slots more n found foundOther mem again
      exact (place_of_slot numbered distinct indexed (filing known found) (filing known foundOther)
        mem again).2
  · intro key otherKey occurrences more n known knownOther mem again
    obtain ⟨slots, listed, mem⟩ := List.mem_flatMap.mp mem
    obtain ⟨slots', listedOther, again⟩ := List.mem_flatMap.mp again
    obtain ⟨id, found⟩ := KeyedList.mem_values_iff.mp listed
    obtain ⟨other, foundOther⟩ := KeyedList.mem_values_iff.mp listedOther
    exact (place_of_slot numbered distinct indexed (filing known found) (filing knownOther foundOther)
      mem again).1

end

namespace Prepared
variable {s : Statement} {t : OccurrenceTable} {l : Lowered} {x : SlotIndex} {n : Nat}
  {key : ParameterKey}

/-- The table records no identity twice. -/
theorem distinct (prepared : Prepared s t l x) : t.Distinct := by
  refine OccurrenceTable.distinct_iff.mpr ⟨OccurrenceTable.listed_nodup prepared.expands.parameters,
    prepared.expands.nodup, ?_, ?_⟩
  · exact fun id other e f mem memOther same => prepared.expands.distinct mem memOther same
  · intro o listed id e expansion
    obtain ⟨entry, mem, member⟩ := OccurrenceTable.mem_listed_iff.mp listed
    rw [prepared.entries] at mem
    exact prepared.expands.apart expansion o (OccurrenceTable.mem_parameters_of_mem_entry mem member)

/-- A slot is filed under a key where it is owned through an occurrence of the key's parameter. -/
theorem mem_slotsFor_owned (prepared : Prepared s t l x) (mem : n ∈ x.slotsFor key) :
    ∃ o ∈ s.parameters, o.key = key ∧ OwnsThrough t l.ledger.entries o.id n := by
  obtain ⟨id, slots, found, numbered⟩ := SlotIndex.mem_slotsFor_iff.mp mem
  obtain ⟨e, listed, rfl, ⟨o, member, rfl⟩, filed⟩ := SlotIndex.build_filed prepared.indexed found
  rw [prepared.entries] at listed
  exact ⟨o, OccurrenceTable.mem_parameters_of_mem_entry listed member,
    (OccurrenceTable.mem_entry listed member).2.2.2.symm, (mem_slots_iff_owns filed).mp numbered⟩

/-- The slots of the index are the ones allocated. -/
theorem mem_index_iff_allocated (prepared : Prepared s t l x) :
    n ∈ x.slots ↔ n ∈ numbers l.ledger.entries := by
  refine ⟨fun mem => ?_, prepared.allocated_indexed⟩
  obtain ⟨key, -, filed⟩ := List.mem_flatMap.mp mem
  obtain ⟨o, -, -, own | ⟨e, -, own⟩⟩ := prepared.mem_slotsFor_owned filed
  · exact mem_numbers_iff.mpr ⟨o.id, own⟩
  · exact mem_numbers_iff.mpr ⟨e.id, own⟩

/-- A slot is filed under one key. -/
theorem key_of_slot (prepared : Prepared s t l x) {otherKey : ParameterKey}
    (mem : n ∈ x.slotsFor key) (again : n ∈ x.slotsFor otherKey) : key = otherKey := by
  obtain ⟨id, slots, found, numbered⟩ := SlotIndex.mem_slotsFor_iff.mp mem
  obtain ⟨other, more, foundOther, numberedOther⟩ := SlotIndex.mem_slotsFor_iff.mp again
  exact (place_of_slot prepared.numbers_nodup prepared.distinct prepared.indexed found foundOther
    numbered numberedOther).1

/-- The index has the slots that are allocated, each once. -/
theorem slots_perm (prepared : Prepared s t l x) :
    x.slots.Perm (List.range l.ledger.slotCount) := by
  have single := slots_nodup_of_distinct prepared.numbers_nodup prepared.distinct prepared.indexed
  obtain ⟨os, places, -⟩ := prepared.places
  rw [slotCount_eq, ← places.numbered]
  apply (List.perm_ext_iff_of_nodup single prepared.numbers_nodup).mpr
  exact fun n => prepared.mem_index_iff_allocated

theorem mem_slotsFor_iff_owned (prepared : Prepared s t l x) (single : s.Single) :
    n ∈ x.slotsFor key ↔ ∃ o ∈ s.parameters, o.key = key ∧ OwnsThrough t l.ledger.entries o.id n := by
  refine ⟨prepared.mem_slotsFor_owned, ?_⟩
  rintro ⟨o, mem, rfl, owns⟩
  obtain ⟨e, listed, first, member, same⟩ := OccurrenceTable.exists_entry mem prepared.plain
  obtain rfl := single first (OccurrenceTable.mem_parameters_of_mem_entry listed member) o mem same
  obtain ⟨slots, filed, found⟩ :=
    SlotIndex.build_files prepared.indexed (prepared.entries ▸ listed) member
  rw [(OccurrenceTable.mem_entry listed member).2.2.2] at found
  exact SlotIndex.mem_slotsFor_iff.mpr ⟨_, slots, found, (mem_slots_iff_owns filed).mpr owns⟩

end Prepared

/-- Whatever was bound, taken back and expanded: a statement lowered with its table has an index, unless
an occurrence that has expansions is an item of no list, which is then reported. The index has each slot
once, under the key of the parameter that it was allocated for, as an occurrence or an expansion of one. -/
theorem index_partitions_slots {b : Builder} {os : List Occurrence} {s : Statement}
    {steps : List BindingStep} {x : BindingState} {model : Model} {strict : Bool} {w w' : Workspace}
    {l : Lowered} (made : b.Made os) (own : ∀ o ∈ s.parameters, o ∈ os ∧ o.expands = none)
    (ran : (BindingState.start s b).run steps = x) (range : x.builder.InRange)
    (lowered : lowerStatement model strict x.table.expansions s w = .ok l w') :
    ((∃ error, SlotIndex.build x.table l.ledger.groups? = .error error) ↔
      ∃ o ∈ s.parameters, x.table.expansions o.id ≠ [] ∧ ¬s.ListsItem o.id) ∧
    (∀ error, SlotIndex.build x.table l.ledger.groups? = .error error →
      ∃ o ∈ s.parameters, ∃ e ∈ x.table.expansions o.id,
        ¬s.ListsItem o.id ∧ error = .missingSlots o.key.text e.id) ∧
    ∀ i, SlotIndex.build x.table l.ledger.groups? = .ok i →
      (i.keys.flatMap i.slotsFor).Perm (List.range l.ledger.slotCount) ∧
      ∀ key n, n ∈ i.slotsFor key ↔
        ∃ o ∈ s.parameters, o.key = key ∧ OwnsThrough x.table l.ledger.entries o.id n := by
  have plain : ∀ o ∈ s.parameters, o.expands = none := fun o mem => (own o mem).2
  have consistent : x.Consistent s := ran ▸ (BindingState.consistent_start made own).run steps
  have expands := consistent.expands range
  refine ⟨build_fails_iff lowered plain expands, ?_, ?_⟩
  · exact fun error => unlisted_of_build_error lowered expands
  · intro i indexed
    have prepared := prepared_of_steps made own ran range lowered indexed
    exact ⟨prepared.slots_perm, fun key n => prepared.mem_slotsFor_iff_owned (consistent.single range)⟩

namespace Rebound

/-- The list of one parameter, which is the item itself or all there is in a tuple. -/
def listing (item : Expr) : Statement :=
  .select ⟨[], [], [], some (.inList (.literal 0 (.long 7) (.basic long)) [item] false)⟩

def item : Expr := .parameter 1 (builder.occurrence ids none none).1

def expanded (s : Statement) : BindingState :=
  (BindingState.start s (builder.occurrence ids none none).2).run
    [.bindMulti ids.key [.long 1, .long 2, .long 3], .expand]

/-- The expansions of an item have slots of their own, those of a part of a tuple have none. -/
theorem tuple_hides_item :
    (∃ (l : Lowered) (w : Workspace) (i : SlotIndex),
      lowerStatement model true (expanded (listing item)).table.expansions (listing item) .empty =
          .ok l w ∧
        SlotIndex.build (expanded (listing item)).table l.ledger.groups? = .ok i ∧
        (i.keys.flatMap i.slotsFor).Perm [0, 1, 2]) ∧
    ∃ (l : Lowered) (w : Workspace),
      lowerStatement model true (expanded (listing (.tuple 2 [item] .none))).table.expansions
          (listing (.tuple 2 [item] .none)) .empty = .ok l w ∧
        ∃ error, SlotIndex.build (expanded (listing (.tuple 2 [item] .none))).table l.ledger.groups? =
          .error error := by
  have made := (Builder.Made.new .empty .empty).occurrence ids none none
  have own (s : Statement) (only : s.parameters = [(builder.occurrence ids none none).1]) :
      ∀ o ∈ s.parameters, o ∈ [] ++ [(builder.occurrence ids none none).1] ∧ o.expands = none := by
    intro o mem
    rw [only] at mem
    obtain rfl := List.mem_singleton.mp mem
    exact ⟨List.mem_singleton_self _, rfl⟩
  constructor
  · have lowered : lowerStatement model true (expanded (listing item)).table.expansions (listing item)
        .empty = .ok _ _ := rfl
    refine ⟨_, _, _, lowered, rfl, ?_⟩
    exact ((index_partitions_slots made (own _ rfl) rfl (by decide) lowered).2.2 _ rfl).1
  · have lowered : lowerStatement model true (expanded (listing (.tuple 2 [item] .none))).table.expansions
        (listing (.tuple 2 [item] .none)) .empty = .ok _ _ := rfl
    refine ⟨_, _, lowered, (index_partitions_slots made (own _ rfl) rfl (by decide) lowered).1.mpr ?_⟩
    refine ⟨_, List.mem_singleton_self _, List.cons_ne_nil _ _, ?_⟩
    rintro ⟨p, mem, direct, -⟩
    obtain rfl := List.mem_singleton.mp mem
    contradiction

end Rebound

end SemanticQuery.Binding
