import Mathlib.Data.List.Induction
import Mathlib.Data.List.Nodup
import SemanticQuery.Binding.Occurrences
import SemanticQuery.Proofs.KeyedList

/-! What an occurrence table records of a statement: each occurrence once, under its own key. -/
namespace SemanticQuery.Binding
open Query

theorem firstVisits_sublist (os : List Occurrence) (seen : List OccurrenceId) :
    (firstVisits seen os).Sublist os := by
  induction os generalizing seen with
  | nil => exact .slnil
  | cons o rest ih =>
    rw [firstVisits]
    split
    · exact (ih seen).cons o
    · exact (ih _).cons_cons o

theorem not_seen_of_mem_firstVisits {os : List Occurrence} {seen : List OccurrenceId} {o : Occurrence}
    (mem : o ∈ firstVisits seen os) : o.id ∉ seen := by
  induction os generalizing seen with
  | nil => contradiction
  | cons first rest ih =>
    rw [firstVisits] at mem
    split at mem
    · exact ih mem
    next unseen =>
      cases List.mem_cons.mp mem with
      | inl same => simpa [same] using unseen
      | inr later => exact fun before => ih later (List.mem_cons_of_mem _ before)

theorem firstVisits_nodup (os : List Occurrence) (seen : List OccurrenceId) :
    ((firstVisits seen os).map Occurrence.id).Nodup := by
  induction os generalizing seen with
  | nil => exact List.nodup_nil
  | cons o rest ih =>
    rw [firstVisits]
    split
    · exact ih seen
    · refine List.nodup_cons.mpr ⟨?_, ih _⟩
      intro again
      obtain ⟨later, mem, same⟩ := List.mem_map.mp again
      exact not_seen_of_mem_firstVisits mem (same ▸ List.mem_cons_self)

theorem exists_firstVisit {os : List Occurrence} (seen : List OccurrenceId) {o : Occurrence}
    (mem : o ∈ os) : o.id ∈ seen ∨ ∃ first ∈ firstVisits seen os, first.id = o.id := by
  induction os generalizing seen with
  | nil => contradiction
  | cons next rest ih =>
    rw [firstVisits]
    cases List.mem_cons.mp mem with
    | inl same =>
      subst same
      by_cases known : seen.contains o.id
      · exact .inl (by simpa using known)
      · rw [if_neg known]
        exact .inr ⟨o, List.mem_cons_self, rfl⟩
    | inr later =>
      by_cases known : seen.contains next.id
      · rw [if_pos known]
        exact ih seen later
      · rw [if_neg known]
        rcases ih (next.id :: seen) later with before | ⟨first, visit, same⟩
        · cases List.mem_cons.mp before with
          | inl same => exact .inr ⟨next, List.mem_cons_self, same.symm⟩
          | inr before => exact .inl before
        · exact .inr ⟨first, List.mem_cons_of_mem _ visit, same⟩

/-- Occurrences that are numbered each for itself stand at one position each. -/
theorem position_unique {es : List Occurrence} (numbered : (es.map Occurrence.id).Nodup) {i j : Nat}
    {e f : Occurrence} (left : es[i]? = some e) (right : es[j]? = some f) (same : e.id = f.id) :
    i = j := by
  have first : (es.map Occurrence.id)[i]? = some e.id := by rw [List.getElem?_map, left]; rfl
  have second : (es.map Occurrence.id)[j]? = some f.id := by rw [List.getElem?_map, right]; rfl
  have within : i < (es.map Occurrence.id).length := (List.getElem?_eq_some_iff.mp first).1
  exact (List.getElem?_inj within numbered).mp (by rw [first, second, same])

namespace OccurrenceTable

/-- An entry is known by its occurrences; the first of them gives the parameter. -/
def entryOf : List Occurrence → Option ParameterEntry
  | [] => none
  | o :: rest => some ⟨o.parameter, o :: rest⟩

/-- An occurrence of that identity is listed for the parameter. -/
def Owns (t : OccurrenceTable) (key : ParameterKey) (id : OccurrenceId) : Prop :=
  ∃ e, t.entry? key = some e ∧ ∃ o ∈ e.occurrences, o.id = id

theorem entry?_addExpansion (t : OccurrenceTable) (id : OccurrenceId) (o : Occurrence)
    (key : ParameterKey) : entry? (t.addExpansion id o) key = t.entry? key := rfl

theorem expansions_addOccurrence (t : OccurrenceTable) (o : Occurrence) (id : OccurrenceId) :
    (t.addOccurrence o).expansions id = t.expansions id := rfl

theorem expansions_addExpansion (t : OccurrenceTable) (expanded id : OccurrenceId) (o : Occurrence) :
    (t.addExpansion expanded o).expansions id =
      t.expansions id ++ if expanded = id then [o] else [] := by
  by_cases same : expanded = id
  · subst same
    simp [expansions, addExpansion]
  · simp [expansions, addExpansion, KeyedList.find?_alter_of_ne (Ne.symm same), same]

/-- The plain occurrences of a key, in the order they were recorded, are its entry. -/
theorem entry?_foldl_record (os : List Occurrence) (key : ParameterKey) :
    entry? (os.foldl record empty) key =
      entryOf (os.filter fun o => o.expands = none ∧ o.key = key) := by
  induction os using List.reverseRecOn with
  | nil => rfl
  | append_singleton os o ih =>
    rw [List.foldl_concat, List.filter_append, record]
    cases expands : o.expands with
    | some id => simp [expands, entry?_addExpansion, ih]
    | none =>
      by_cases same : o.key = key
      · subst same
        simp only [addOccurrence, entry?, KeyedList.find?_alter_self] at ih ⊢
        rw [ih]
        cases os.filter fun other => decide (other.expands = none ∧ other.key = o.key) with
        | nil => simp [expands, entryOf]
        | cons first rest => simp [expands, entryOf]
      · simp only [addOccurrence, entry?, KeyedList.find?_alter_of_ne (Ne.symm same)] at ih ⊢
        simp [ih, same]

/-- The occurrences that name one they expand are its expansions, in the order they were recorded. -/
theorem expansions_foldl_record (os : List Occurrence) (id : OccurrenceId) :
    (os.foldl record empty).expansions id = os.filter fun o => o.expands = some id := by
  induction os using List.reverseRecOn with
  | nil => rfl
  | append_singleton os o ih =>
    rw [List.foldl_concat, List.filter_append, record]
    cases expands : o.expands with
    | none => simp [expands, expansions_addOccurrence, ih]
    | some expanded =>
      rw [expansions_addExpansion, ih]
      by_cases same : expanded = id <;> simp [expands, same]

variable {s : Statement}

theorem expansions_of_plain (plain : ∀ o ∈ s.parameters, o.expands = none) (id : OccurrenceId) :
    (ofStatement s).expansions id = [] := by
  rw [ofStatement, expansions_foldl_record, List.filter_eq_nil_iff]
  intro o visit
  simp [plain o ((firstVisits_sublist _ _).subset visit)]

/-- An entry of a statement's table lists occurrences of the statement, filed under their key. -/
theorem mem_entry {e : ParameterEntry} {o : Occurrence} (listed : e ∈ (ofStatement s).entries)
    (mem : o ∈ e.occurrences) : o ∈ firstVisits [] s.parameters ∧ o.expands = none ∧
      entry? (ofStatement s) o.key = some e ∧ e.parameter.key = o.key := by
  obtain ⟨key, found⟩ := KeyedList.mem_values_iff.mp listed
  have filing := entry?_foldl_record (firstVisits [] s.parameters) key
  have entry := filing.symm.trans found
  cases filed : (firstVisits [] s.parameters).filter fun o => o.expands = none ∧ o.key = key with
  | nil =>
    rw [filed] at entry
    contradiction
  | cons first rest =>
    rw [filed] at entry
    obtain rfl := Option.some.inj entry
    have all : ∀ o ∈ first :: rest,
        o ∈ firstVisits [] s.parameters ∧ o.expands = none ∧ o.key = key := by
      intro o mem
      rw [← filed, List.mem_filter] at mem
      simpa using mem
    obtain ⟨visited, plain, rfl⟩ := all o mem
    exact ⟨visited, plain, found, (all first List.mem_cons_self).2.2⟩

theorem mem_parameters_of_mem_entry {e : ParameterEntry} {o : Occurrence}
    (listed : e ∈ (ofStatement s).entries) (mem : o ∈ e.occurrences) : o ∈ s.parameters :=
  (firstVisits_sublist _ _).subset (mem_entry listed mem).1

/-- No identity is recorded twice. -/
theorem entry_unique {e other : ParameterEntry} {o twin : Occurrence}
    (listed : e ∈ (ofStatement s).entries) (listedOther : other ∈ (ofStatement s).entries)
    (mem : o ∈ e.occurrences) (memOther : twin ∈ other.occurrences) (same : o.id = twin.id) :
    e = other ∧ o = twin := by
  obtain ⟨visited, _, found, _⟩ := mem_entry listed mem
  obtain ⟨visitedOther, _, foundOther, _⟩ := mem_entry listedOther memOther
  obtain rfl := List.inj_on_of_nodup_map (firstVisits_nodup _ _) visited visitedOther same
  exact ⟨Option.some.inj (found.symm.trans foundOther), rfl⟩

/-- An entry lists its key's first visits. -/
theorem entry_visits {e : ParameterEntry} {key : ParameterKey}
    (found : entry? (ofStatement s) key = some e) : e.parameter.key = key ∧
      e.occurrences.Sublist (firstVisits [] s.parameters) := by
  have entry := (entry?_foldl_record (firstVisits [] s.parameters) key).symm.trans found
  cases filed : (firstVisits [] s.parameters).filter fun o => o.expands = none ∧ o.key = key with
  | nil =>
    rw [filed] at entry
    contradiction
  | cons first rest =>
    rw [filed] at entry
    obtain rfl := Option.some.inj entry
    have mem := List.mem_filter.mp (filed ▸ List.mem_cons_self (a := first))
    simp only [decide_eq_true_eq] at mem
    refine ⟨mem.2.2, ?_⟩
    rw [← filed]
    exact List.filter_sublist

theorem entries_nodup (s : Statement) : (ofStatement s).entries.Nodup :=
  KeyedList.values_nodup (fun e => e.parameter.key) fun found => (entry_visits found).1

theorem occurrences_nodup {e : ParameterEntry} (listed : e ∈ (ofStatement s).entries) :
    e.occurrences.Nodup := by
  obtain ⟨key, found⟩ := KeyedList.mem_values_iff.mp listed
  exact ((firstVisits_nodup _ _).of_map _).sublist (entry_visits found).2

/-- Every identity that a plain occurrence of the statement has is recorded. -/
theorem exists_entry {o : Occurrence} (mem : o ∈ s.parameters)
    (plain : ∀ o ∈ s.parameters, o.expands = none) :
    ∃ e ∈ (ofStatement s).entries, ∃ first ∈ e.occurrences, first.id = o.id := by
  obtain seen | ⟨first, visit, same⟩ := exists_firstVisit [] mem
  · contradiction
  have filed : first ∈ (firstVisits [] s.parameters).filter
      fun o => o.expands = none ∧ o.key = first.key := by
    have unexpanded := plain first ((firstVisits_sublist _ _).subset visit)
    simp [visit, unexpanded]
  have entry := entry?_foldl_record (firstVisits [] s.parameters) first.key
  generalize (firstVisits [] s.parameters).filter _ = occurrences at filed entry
  cases occurrences with
  | nil => contradiction
  | cons head rest =>
    exact ⟨_, KeyedList.mem_values_iff.mpr ⟨_, entry⟩, first, filed, same⟩

end OccurrenceTable

end SemanticQuery.Binding
