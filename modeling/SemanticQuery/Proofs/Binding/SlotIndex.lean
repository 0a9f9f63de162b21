import SemanticQuery.Binding.SlotIndex
import SemanticQuery.Proofs.KeyedList
import SemanticQuery.Proofs.Outcome

/-! What a built slot index files: for every occurrence in the table its slot groups, and for its
expansions theirs by position. -/
namespace SemanticQuery.Binding
open Query

namespace SlotIndex

/-- Every slot number in the index. -/
def slots (x : SlotIndex) : List Nat := x.keys.flatMap x.slotsFor

/-- The groups that a lookup has for an identity and for its expansions. -/
structure Filed (t : OccurrenceTable) (lookup : Lookup) (id : OccurrenceId) (s : OccurrenceSlots) :
    Prop where
  groups : lookup id = some s.groups
  expansions : (t.expansions id).map (fun e => lookup e.id) = s.expansions.map some

variable {t : OccurrenceTable} {lookup : Lookup} {x y : SlotIndex} {key k : ParameterKey}
  {id : OccurrenceId} {s : OccurrenceSlots}

theorem Filed.unique {other : OccurrenceSlots} (filed : Filed t lookup id s)
    (again : Filed t lookup id other) : s = other := by
  have groups : s.groups = other.groups :=
    Option.some.inj (filed.groups.symm.trans again.groups)
  have expansions : s.expansions = other.expansions :=
    (List.map_inj_right fun _ _ => Option.some.inj).mp (filed.expansions.symm.trans again.expansions)
  cases s
  cases other
  cases groups
  cases expansions
  rfl

theorem Filed.count (filed : Filed t lookup id s) : (t.expansions id).length = s.expansions.length := by
  have lengths := congrArg List.length filed.expansions
  rwa [List.length_map, List.length_map] at lengths

theorem Filed.eq_nil_of_unexpanded (filed : Filed t lookup id s) (unexpanded : t.expansions id = []) :
    s.expansions = [] := by
  have count := filed.count
  rw [unexpanded] at count
  exact List.eq_nil_of_length_eq_zero count.symm

/-- What is filed at a position are the groups of the expansion at that position. -/
theorem Filed.expansion_at (filed : Filed t lookup id s) {i : Nat} {groups : List (List Slot)}
    (listed : s.expansions[i]? = some groups) :
    ∃ e, (t.expansions id)[i]? = some e ∧ lookup e.id = some groups := by
  have filing := congrArg (·[i]?) filed.expansions
  simp only [List.getElem?_map, listed, Option.map_some] at filing
  exact Option.map_eq_some_iff.mp filing

theorem Filed.expansion_found (filed : Filed t lookup id s) {e : Occurrence}
    (expansion : e ∈ t.expansions id) : lookup e.id ≠ none := by
  intro missing
  have listed := List.mem_map_of_mem (f := fun e : Occurrence => lookup e.id) expansion
  rw [filed.expansions, missing] at listed
  obtain ⟨groups, -, found⟩ := List.mem_map.mp listed
  contradiction

theorem occurrence?_add (x : SlotIndex) (key k : ParameterKey) (id i : OccurrenceId)
    (s : OccurrenceSlots) :
    (x.add key id s).occurrence? k i = if k = key ∧ i = id then some s else x.occurrence? k i := by
  by_cases sameKey : k = key
  · subst sameKey
    simp only [occurrence?, add, KeyedList.find?_alter_self, Option.bind_some, true_and]
    by_cases same : i = id
    · rw [same, KeyedList.find?_insert_self, if_pos rfl]
    · rw [KeyedList.find?_insert_of_ne same, if_neg same]
      cases x.parameters.find? k <;> rfl
  · simp only [occurrence?, add, KeyedList.find?_alter_of_ne sameKey, sameKey, false_and, if_false]

theorem groupsOf_ok {groups : List (List Slot)} :
    groupsOf lookup key id = .ok groups ↔ lookup id = some groups := by
  unfold groupsOf
  cases lookup id <;> simp

theorem groupsOfAll_ok {os : List Occurrence} {all : List (List (List Slot))} :
    groupsOfAll lookup key os = .ok all ↔ os.map (fun o => lookup o.id) = all.map some := by
  induction os generalizing all with
  | nil => cases all <;> simp [groupsOfAll]
  | cons o rest ih =>
    rw [groupsOfAll, bind_ok]
    simp only [groupsOf_ok, bind_ok, ih, List.map_cons]
    constructor
    · rintro ⟨groups, first, later, rest, built⟩
      cases built
      rw [first, rest, List.map_cons]
    · intro found
      cases all with
      | nil => contradiction
      | cons groups later =>
        rw [List.map_cons, List.cons.injEq] at found
        exact ⟨groups, found.1, later, found.2, rfl⟩

theorem addOccurrences_ok {os : List Occurrence}
    (added : addOccurrences t lookup key os x = .ok y) :
    (∀ {k id s}, x.occurrence? k id = some s → Filed t lookup id s → y.occurrence? k id = some s) ∧
    (∀ o ∈ os, ∃ s, Filed t lookup o.id s ∧ y.occurrence? key o.id = some s) ∧
    ∀ {k id s}, y.occurrence? k id = some s →
      x.occurrence? k id = some s ∨ k = key ∧ (∃ o ∈ os, o.id = id) ∧ Filed t lookup id s := by
  induction os generalizing x with
  | nil =>
    cases added
    exact ⟨fun known _ => known, by simp, .inl⟩
  | cons o rest ih =>
    obtain ⟨groups, known, added⟩ := bind_ok.mp added
    obtain ⟨expansions, knownAll, added⟩ := bind_ok.mp added
    have filed : Filed t lookup o.id ⟨groups, expansions⟩ :=
      ⟨groupsOf_ok.mp known, groupsOfAll_ok.mp knownAll⟩
    obtain ⟨keeps, files, only⟩ := ih added
    refine ⟨?_, ?_, ?_⟩
    · intro k id s before entry
      refine keeps ?_ entry
      rw [occurrence?_add]
      split
      next same =>
        obtain ⟨rfl, rfl⟩ := same
        rw [filed.unique entry]
      · exact before
    · refine List.forall_mem_cons.mpr ⟨⟨_, filed, keeps ?_ filed⟩, files⟩
      rw [occurrence?_add, if_pos ⟨rfl, rfl⟩]
    · intro k id s after
      rcases only after with before | ⟨rfl, ⟨other, mem, rfl⟩, entry⟩
      · rw [occurrence?_add] at before
        split at before
        next same =>
          obtain ⟨rfl, rfl⟩ := same
          cases before
          exact .inr ⟨rfl, ⟨o, List.mem_cons_self, rfl⟩, filed⟩
        · exact .inl before
      · exact .inr ⟨rfl, ⟨other, List.mem_cons_of_mem _ mem, rfl⟩, entry⟩

theorem addEntries_ok {es : List ParameterEntry} (added : addEntries t lookup es x = .ok y) :
    (∀ {k id s}, x.occurrence? k id = some s → Filed t lookup id s → y.occurrence? k id = some s) ∧
    (∀ e ∈ es, ∀ o ∈ e.occurrences, ∃ s, Filed t lookup o.id s ∧
      y.occurrence? e.parameter.key o.id = some s) ∧
    ∀ {k id s}, y.occurrence? k id = some s → x.occurrence? k id = some s ∨
      ∃ e ∈ es, e.parameter.key = k ∧ (∃ o ∈ e.occurrences, o.id = id) ∧ Filed t lookup id s := by
  induction es generalizing x with
  | nil =>
    cases added
    exact ⟨fun known _ => known, by simp, .inl⟩
  | cons e rest ih =>
    obtain ⟨next, first, later⟩ := bind_ok.mp added
    obtain ⟨keeps, files, only⟩ := addOccurrences_ok first
    obtain ⟨keepsLater, filesLater, onlyLater⟩ := ih later
    refine ⟨fun known filed => keepsLater (keeps known filed) filed, ?_, ?_⟩
    · refine List.forall_mem_cons.mpr ⟨?_, filesLater⟩
      intro o mem
      obtain ⟨s, filed, found⟩ := files o mem
      exact ⟨s, filed, keepsLater found filed⟩
    · intro k id s after
      rcases onlyLater after with before | ⟨other, mem, same, listed, filed⟩
      · rcases only before with before | ⟨rfl, listed, filed⟩
        · exact .inl before
        · exact .inr ⟨e, List.mem_cons_self, rfl, listed, filed⟩
      · exact .inr ⟨other, List.mem_cons_of_mem _ mem, same, listed, filed⟩

theorem occurrence?_empty (key : ParameterKey) (id : OccurrenceId) :
    empty.occurrence? key id = none := rfl

/-- Every occurrence in the table is filed under its parameter's key. -/
theorem build_files (built : build t lookup = .ok x) {e : ParameterEntry} {o : Occurrence}
    (listed : e ∈ t.entries) (mem : o ∈ e.occurrences) :
    ∃ s, Filed t lookup o.id s ∧ x.occurrence? e.parameter.key o.id = some s :=
  (addEntries_ok built).2.1 e listed o mem

/-- Nothing is filed but what the table lists. -/
theorem build_filed (built : build t lookup = .ok x) (found : x.occurrence? key id = some s) :
    ∃ e ∈ t.entries, e.parameter.key = key ∧ (∃ o ∈ e.occurrences, o.id = id) ∧
      Filed t lookup id s := by
  rcases (addEntries_ok built).2.2 found with before | listed
  · rw [occurrence?_empty] at before
    contradiction
  · exact listed

section
variable {error : BindingError}

theorem groupsOf_error (failed : groupsOf lookup key id = .error error) :
    lookup id = none ∧ error = .missingSlots key.text id := by
  unfold groupsOf at failed
  split at failed
  · contradiction
  next missing => exact ⟨missing, (Except.error.inj failed).symm⟩

theorem groupsOfAll_error {os : List Occurrence} (failed : groupsOfAll lookup key os = .error error) :
    ∃ o ∈ os, lookup o.id = none ∧ error = .missingSlots key.text o.id := by
  induction os with
  | nil => contradiction
  | cons o rest ih =>
    rcases bind_error.mp failed with first | ⟨groups, -, failed⟩
    · exact ⟨o, List.mem_cons_self, groupsOf_error first⟩
    rcases bind_error.mp failed with later | ⟨all, -, done⟩
    · obtain ⟨other, mem, missing⟩ := ih later
      exact ⟨other, List.mem_cons_of_mem _ mem, missing⟩
    · contradiction

theorem addOccurrences_error {os : List Occurrence}
    (failed : addOccurrences t lookup key os x = .error error) :
    ∃ o ∈ os, ∃ needed ∈ o.id :: (t.expansions o.id).map Occurrence.id,
      lookup needed = none ∧ error = .missingSlots key.text needed := by
  induction os generalizing x with
  | nil => contradiction
  | cons o rest ih =>
    rcases bind_error.mp failed with own | ⟨groups, -, failed⟩
    · exact ⟨o, List.mem_cons_self, o.id, List.mem_cons_self, groupsOf_error own⟩
    rcases bind_error.mp failed with expanded | ⟨expansions, -, failed⟩
    · obtain ⟨e, mem, missing⟩ := groupsOfAll_error expanded
      exact ⟨o, List.mem_cons_self, e.id, List.mem_cons_of_mem _ (List.mem_map_of_mem mem), missing⟩
    · obtain ⟨other, mem, missing⟩ := ih failed
      exact ⟨other, List.mem_cons_of_mem _ mem, missing⟩

theorem addEntries_error {es : List ParameterEntry} (failed : addEntries t lookup es x = .error error) :
    ∃ e ∈ es, ∃ o ∈ e.occurrences, ∃ needed ∈ o.id :: (t.expansions o.id).map Occurrence.id,
      lookup needed = none ∧ error = .missingSlots e.parameter.key.text needed := by
  induction es generalizing x with
  | nil => contradiction
  | cons e rest ih =>
    rcases bind_error.mp failed with first | ⟨next, -, failed⟩
    · exact ⟨e, List.mem_cons_self, addOccurrences_error first⟩
    · obtain ⟨other, mem, missing⟩ := ih failed
      exact ⟨other, List.mem_cons_of_mem _ mem, missing⟩

/-- A build fails only for slots that an occurrence of the table or an expansion of it does not have. -/
theorem build_error (failed : build t lookup = .error error) :
    ∃ e ∈ t.entries, ∃ o ∈ e.occurrences, ∃ needed ∈ o.id :: (t.expansions o.id).map Occurrence.id,
      lookup needed = none ∧ error = .missingSlots e.parameter.key.text needed :=
  addEntries_error failed

end

section
variable {t' : OccurrenceTable} {lookup' : Lookup}

/-- Lookups, each with its own table, that have the same groups for an occurrence and for its expansions
by position. -/
def SameGroups (t : OccurrenceTable) (lookup : Lookup) (t' : OccurrenceTable) (lookup' : Lookup)
    (id : OccurrenceId) : Prop :=
  lookup id = lookup' id ∧
    (t.expansions id).map (fun e => lookup e.id) = (t'.expansions id).map fun e => lookup' e.id

theorem addOccurrences_congr {os : List Occurrence}
    (same : ∀ o ∈ os, SameGroups t lookup t' lookup' o.id) :
    addOccurrences t lookup key os x = .ok y ↔ addOccurrences t' lookup' key os x = .ok y := by
  induction os generalizing x with
  | nil => exact Iff.rfl
  | cons o rest ih =>
    rw [List.forall_mem_cons] at same
    rw [addOccurrences, addOccurrences]
    simp only [bind_ok, groupsOf_ok, groupsOfAll_ok, same.1.1, same.1.2, ih same.2]

theorem addEntries_congr {es : List ParameterEntry}
    (same : ∀ e ∈ es, ∀ o ∈ e.occurrences, SameGroups t lookup t' lookup' o.id) :
    addEntries t lookup es x = .ok y ↔ addEntries t' lookup' es x = .ok y := by
  induction es generalizing x with
  | nil => exact Iff.rfl
  | cons e rest ih =>
    rw [List.forall_mem_cons] at same
    rw [addEntries, addEntries]
    simp only [bind_ok, addOccurrences_congr same.1, ih same.2]

/-- An index is built from the groups of the occurrences listed and of their expansions alone. -/
theorem build_congr (entries : t.entries = t'.entries)
    (same : ∀ e ∈ t.entries, ∀ o ∈ e.occurrences, SameGroups t lookup t' lookup' o.id) :
    build t lookup = .ok x ↔ build t' lookup' = .ok x := by
  rw [build, build, ← entries]
  exact addEntries_congr same

end

theorem mem_slotsFor_iff {n : Nat} : n ∈ x.slotsFor key ↔
    ∃ id s, x.occurrence? key id = some s ∧ n ∈ s.slots.map Slot.number := by
  unfold slotsFor occurrence?
  cases x.parameters.find? key with
  | none => simp
  | some occurrences =>
    simp only [List.mem_map, List.mem_flatMap, KeyedList.mem_values_iff, Option.bind_some]
    constructor
    · rintro ⟨slot, ⟨s, ⟨id, found⟩, mem⟩, number⟩
      exact ⟨id, s, found, slot, mem, number⟩
    · rintro ⟨id, s, found, slot, mem, number⟩
      exact ⟨slot, ⟨s, ⟨id, found⟩, mem⟩, number⟩

theorem mem_slots_iff {n : Nat} : n ∈ x.slots ↔
    ∃ key id s, x.occurrence? key id = some s ∧ n ∈ s.slots.map Slot.number := by
  simp only [slots, List.mem_flatMap, mem_slotsFor_iff]
  constructor
  · rintro ⟨key, -, found⟩
    exact ⟨key, found⟩
  · rintro ⟨key, id, s, found, mem⟩
    refine ⟨key, ?_, id, s, found, mem⟩
    obtain ⟨occurrences, known, -⟩ := Option.bind_eq_some_iff.mp found
    exact KeyedList.mem_keys_iff.mpr ⟨occurrences, known⟩

end SlotIndex

end SemanticQuery.Binding
