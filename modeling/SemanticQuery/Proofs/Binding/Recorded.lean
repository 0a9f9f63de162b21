import Mathlib.Data.Set.Card
import SemanticQuery.Proofs.Binding.Occurrences
import SemanticQuery.Proofs.Query.Reach

/-! All that an occurrence table has, and what its operations add. A statement's table has the occurrences
reached in the statement, each identity once by its first visit. -/
namespace SemanticQuery.Binding
open Query

/-- First visits are the visits without those of an identity that was visited before. -/
theorem firstVisits_eq (os : List Occurrence) (seen : List OccurrenceId) : firstVisits seen os =
    (os.filter fun o => o.id ∉ seen).eraseDupsBy fun o other => o.id == other.id := by
  induction os generalizing seen with
  | nil => rfl
  | cons o rest ih =>
    rw [firstVisits]
    by_cases known : o.id ∈ seen
    · rw [if_pos (List.contains_iff_mem.mpr known), ih, List.filter_cons_of_neg (by simpa using known)]
    · rw [if_neg (mt List.contains_iff_mem.mp known), ih, List.filter_cons_of_pos (by simpa using known),
        List.eraseDupsBy_cons, List.filter_filter]
      congr 3
      funext other
      simp

theorem mem_firstVisits_ids {os : List Occurrence} {id : OccurrenceId} :
    id ∈ (firstVisits [] os).map Occurrence.id ↔ ∃ o ∈ os, o.id = id := by
  rw [List.mem_map]
  constructor
  · rintro ⟨o, visit, same⟩
    exact ⟨o, (firstVisits_sublist _ _).subset visit, same⟩
  · rintro ⟨o, mem, rfl⟩
    exact (exists_firstVisit [] mem).resolve_left List.not_mem_nil

namespace OccurrenceTable

/-- The occurrences listed for parameters, by key. -/
def listed (t : OccurrenceTable) : List Occurrence := t.entries.flatMap ParameterEntry.occurrences

/-- Every occurrence that the table has, listed or as an expansion. -/
def recorded (t : OccurrenceTable) : List Occurrence := t.listed ++ t.expanded.values.flatten

variable {t t' : OccurrenceTable} {o : Occurrence} {id : OccurrenceId}

theorem occurrenceCount_eq (t : OccurrenceTable) : t.occurrenceCount = t.recorded.length :=
  List.length_append.symm

theorem recorded_addExpansion (t : OccurrenceTable) (id : OccurrenceId) (o : Occurrence) :
    (t.addExpansion id o).recorded.Perm (t.recorded ++ [o]) := by
  have grown : ((t.addExpansion id o).expanded.values.flatMap fun os => os).Perm
      ((t.expanded.values.flatMap fun os => os) ++ [o]) := by
    refine KeyedList.flatMap_values_alter ?_
    cases t.expanded.find? id <;> exact List.Perm.refl _
  rw [List.flatMap_id', List.flatMap_id'] at grown
  rw [recorded, recorded, List.append_assoc]
  exact grown.append_left _

theorem recorded_addOccurrence (t : OccurrenceTable) (o : Occurrence) :
    (t.addOccurrence o).recorded.Perm (t.recorded ++ [o]) := by
  have grown : (t.addOccurrence o).listed.Perm (t.listed ++ [o]) := by
    refine KeyedList.flatMap_values_alter ?_
    cases t.parameters.find? o.key <;> exact List.Perm.refl _
  rw [recorded, recorded, List.append_assoc]
  exact (grown.append_right _).trans (by
    rw [List.append_assoc]
    exact List.perm_append_comm.append_left _)

theorem recorded_record (t : OccurrenceTable) (o : Occurrence) :
    (t.record o).recorded.Perm (t.recorded ++ [o]) := by
  rw [record]
  split
  · exact recorded_addExpansion ..
  · exact recorded_addOccurrence ..

theorem recorded_foldl_record (os : List Occurrence) (t : OccurrenceTable) :
    (os.foldl record t).recorded.Perm (t.recorded ++ os) := by
  induction os generalizing t with
  | nil => rw [List.append_nil, List.foldl_nil]
  | cons o rest ih =>
    rw [List.foldl_cons, List.append_cons]
    exact (ih _).trans ((recorded_record t o).append_right rest)

/-- A statement's table has its first visits and nothing else. -/
theorem recorded_ofStatement (s : Statement) :
    (ofStatement s).recorded.Perm (firstVisits [] s.parameters) :=
  recorded_foldl_record _ empty

theorem mem_expansions_iff : o ∈ t.expansions id ↔ ∃ os, t.expanded.find? id = some os ∧ o ∈ os := by
  rw [expansions]
  cases t.expanded.find? id <;> simp

theorem mem_listed_iff : o ∈ t.listed ↔ ∃ e ∈ t.entries, o ∈ e.occurrences := List.mem_flatMap

/-- No identity is recorded twice. -/
def Distinct (t : OccurrenceTable) : Prop := (t.recorded.map Occurrence.id).Nodup

theorem distinct_ofStatement (s : Statement) : (ofStatement s).Distinct :=
  ((recorded_ofStatement s).map Occurrence.id).nodup_iff.mpr (firstVisits_nodup _ _)

theorem listed_nodup {s : Statement} (parameters : t.parameters = (ofStatement s).parameters) :
    (t.listed.map Occurrence.id).Nodup := by
  have same : t.listed = (ofStatement s).listed := by
    rw [listed, listed, entries, entries, parameters]
  exact same ▸ (distinct_ofStatement s).sublist ((List.sublist_append_left _ _).map _)

/-- Identities are recorded once where that holds of those listed, and of those filed under each identity, and
none of these is listed or filed elsewhere. -/
theorem distinct_iff : t.Distinct ↔ (t.listed.map Occurrence.id).Nodup ∧
    (∀ id, ((t.expansions id).map Occurrence.id).Nodup) ∧
    (∀ id other e f, e ∈ t.expansions id → f ∈ t.expansions other → e.id = f.id → id = other) ∧
    ∀ o ∈ t.listed, ∀ id, ∀ e ∈ t.expansions id, o.id ≠ e.id := by
  have filed : (t.expanded.values.flatten.map Occurrence.id).Nodup ↔
      (∀ id, ((t.expansions id).map Occurrence.id).Nodup) ∧
        ∀ id other e f, e ∈ t.expansions id → f ∈ t.expansions other → e.id = f.id → id = other := by
    rw [List.map_flatten, ← List.flatMap_def, KeyedList.nodup_flatMap_values]
    refine and_congr ⟨fun each id => ?_, fun each id os found => ?_⟩ ⟨?_, ?_⟩
    · cases found : t.expanded.find? id with
      | none => simp [expansions, found]
      | some os => simpa [expansions, found] using each id os found
    · simpa [expansions, found] using each id
    · intro apart id other e f mem memOther same
      obtain ⟨os, found, mem⟩ := mem_expansions_iff.mp mem
      obtain ⟨more, foundOther, memOther⟩ := mem_expansions_iff.mp memOther
      exact apart id other os more e.id found foundOther (List.mem_map_of_mem mem)
        (same ▸ List.mem_map_of_mem memOther)
    · intro apart id other os more n found foundOther mem memOther
      obtain ⟨e, expansion, rfl⟩ := List.mem_map.mp mem
      obtain ⟨f, expansionOther, same⟩ := List.mem_map.mp memOther
      exact apart id other e f (mem_expansions_iff.mpr ⟨os, found, expansion⟩)
        (mem_expansions_iff.mpr ⟨more, foundOther, expansionOther⟩) same.symm
  have across : ((t.listed.map Occurrence.id).Disjoint (t.expanded.values.flatten.map Occurrence.id)) ↔
      ∀ o ∈ t.listed, ∀ id, ∀ e ∈ t.expansions id, o.id ≠ e.id := by
    simp only [List.disjoint_left, List.mem_map, List.mem_flatten, KeyedList.mem_values_iff,
      mem_expansions_iff]
    constructor
    · rintro apart o mem id e ⟨os, found, expansion⟩ same
      exact apart ⟨o, mem, same⟩ ⟨e, ⟨os, ⟨id, found⟩, expansion⟩, rfl⟩
    · rintro apart n ⟨o, mem, rfl⟩ ⟨e, ⟨os, ⟨id, found⟩, expansion⟩, same⟩
      exact apart o mem id e ⟨os, found, expansion⟩ same.symm
  rw [Distinct, recorded, List.map_append, List.nodup_append', filed, across, and_assoc]

/-- The table of a statement loses no occurrence and has none twice. What is reached in the statement are
its visits. Each identity visited is recorded once, by its first visit: plain occurrences under their key and
expansions under the identity they expand, both in the order of these visits. Nothing else is recorded, and
the count is the number of identities reached. -/
theorem records_first_visits (s : Statement) :
    let visits := s.parameters.eraseDupsBy fun o other => o.id == other.id
    (∀ o, o ∈ s.parameters ↔ s.Reaches o) ∧
      (∀ key, entry? (ofStatement s) key =
        entryOf (visits.filter fun o => o.expands = none ∧ o.key = key)) ∧
      (∀ id, (ofStatement s).expansions id = visits.filter fun o => o.expands = some id) ∧
      (ofStatement s).recorded.Perm visits ∧ ((ofStatement s).recorded.map Occurrence.id).Nodup ∧
      (∀ id, id ∈ (ofStatement s).recorded.map Occurrence.id ↔ ∃ o, s.Reaches o ∧ o.id = id) ∧
      (ofStatement s).occurrenceCount = {id | ∃ o, s.Reaches o ∧ o.id = id}.ncard := by
  intro visits
  have first : firstVisits [] s.parameters = visits := by
    rw [firstVisits_eq]
    simp [visits]
  have recorded := recorded_ofStatement s
  have distinct := distinct_ofStatement s
  have reached (id : OccurrenceId) :
      id ∈ (ofStatement s).recorded.map Occurrence.id ↔ ∃ o, s.Reaches o ∧ o.id = id := by
    rw [(recorded.map _).mem_iff, mem_firstVisits_ids]
    simp only [Statement.mem_parameters_iff]
  refine ⟨fun o => Statement.mem_parameters_iff, ?_, ?_, first ▸ recorded, distinct, reached, ?_⟩
  · exact fun key => first ▸ entry?_foldl_record _ key
  · exact fun id => first ▸ expansions_foldl_record _ id
  · have identities : {id | ∃ o, s.Reaches o ∧ o.id = id} =
        ((ofStatement s).recorded.map Occurrence.id).toFinset := by
      ext id
      rw [List.coe_toFinset]
      exact (reached id).symm
    rw [identities, Set.ncard_coe_finset, List.toFinset_card_of_nodup distinct, List.length_map,
      occurrenceCount_eq]

end OccurrenceTable

end SemanticQuery.Binding
