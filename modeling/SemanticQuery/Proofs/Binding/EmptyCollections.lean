import SemanticQuery.Proofs.Binding.Coverage
import SemanticQuery.Proofs.Binding.Expand
import SemanticQuery.Proofs.Binding.Recorded

/-! Expansion is refused for empty collections and for nothing else. Refused, it leaves a table without
expansions; done, it leaves every occurrence with one expansion for each value after the first. -/
namespace SemanticQuery.Binding
open Query

theorem mem_of_mem_repeated {count : Occurrence → Nat} {os : List Occurrence} {o : Occurrence}
    (mem : o ∈ repeated count os) : o ∈ os := by
  obtain ⟨other, listed, mem⟩ := List.mem_flatMap.mp mem
  exact List.eq_of_mem_replicate mem ▸ listed

theorem length_repeated (count : Occurrence → Nat) (os : List Occurrence) :
    (repeated count os).length = (os.map count).sum := by
  rw [repeated, List.length_flatMap]
  simp

/-- Those that stand in for one identity. -/
def placesOf (id : OccurrenceId) (xs : List Occurrence) : List Occurrence :=
  xs.filter fun x => x.expands = some id

theorem placesOf_append (id : OccurrenceId) (xs more : List Occurrence) :
    placesOf id (xs ++ more) = placesOf id xs ++ placesOf id more := List.filter_append ..

theorem placesOf_missing {id : OccurrenceId} {first : Nat} {os : List Occurrence}
    (missing : ∀ o ∈ os, o.id ≠ id) : placesOf id (standIns first os) = [] := by
  refine List.filter_eq_nil_iff.mpr fun x mem => ?_
  obtain ⟨o, listed, same⟩ := mem_standIns mem
  rw [same]
  simpa [standIn] using missing o listed

theorem placesOf_own {first : Nat} {n : Nat} {o : Occurrence} :
    placesOf o.id (standIns first (List.replicate n o)) = standIns first (List.replicate n o) := by
  refine List.filter_eq_self.mpr fun x mem => ?_
  obtain ⟨other, listed, same⟩ := mem_standIns mem
  obtain rfl := List.eq_of_mem_replicate listed
  rw [same]
  simp [standIn]

section
variable {count : Occurrence → Nat} {os : List Occurrence}

/-- An occurrence has as many stand-ins as it is counted, where its identity is its own. -/
theorem length_placesOf (distinct : (os.map Occurrence.id).Nodup) {o : Occurrence} (mem : o ∈ os)
    (first : Nat) : (placesOf o.id (standIns first (repeated count os))).length = count o := by
  induction os generalizing first with
  | nil => contradiction
  | cons head rest ih =>
    obtain ⟨apart, distinct⟩ := List.nodup_cons.mp distinct
    rw [repeated, List.flatMap_cons, ← repeated, standIns_append, placesOf_append]
    obtain rfl | later := List.mem_cons.mp mem
    · rw [placesOf_own, placesOf_missing, List.append_nil, standIns_length, List.length_replicate]
      intro other listed same
      exact apart (same ▸ List.mem_map_of_mem (mem_of_mem_repeated listed))
    · rw [placesOf_missing, List.nil_append, ih distinct later]
      intro other listed same
      rw [List.eq_of_mem_replicate listed] at same
      exact apart (same ▸ List.mem_map_of_mem later)

/-- Taken by the occurrences they stand in for, stand-ins are all there, in the order they were made. -/
theorem flatMap_placesOf (distinct : (os.map Occurrence.id).Nodup) (first : Nat) :
    (os.flatMap fun o => placesOf o.id (standIns first (repeated count os))) =
      standIns first (repeated count os) := by
  induction os generalizing first with
  | nil => rfl
  | cons head rest ih =>
    obtain ⟨apart, distinct⟩ := List.nodup_cons.mp distinct
    rw [List.flatMap_cons, repeated, List.flatMap_cons, ← repeated, standIns_append]
    simp only [placesOf_append, placesOf_own]
    rw [placesOf_missing, List.append_nil]
    · congr 1
      refine Eq.trans (List.flatMap_congr fun o mem => ?_) (ih distinct _)
      rw [placesOf_missing, List.nil_append]
      intro other listed same
      rw [List.eq_of_mem_replicate listed] at same
      exact apart (same ▸ List.mem_map_of_mem mem)
    · intro other listed same
      exact apart (same ▸ List.mem_map_of_mem (mem_of_mem_repeated listed))

end

namespace OccurrenceTable

theorem recorded_registerAll {t t' : OccurrenceTable} {os : List Occurrence}
    (registered : registerAll t os = .ok t') : t'.recorded.Perm (t.recorded ++ os) := by
  induction os generalizing t with
  | nil =>
    cases registered
    rw [List.append_nil]
  | cons o rest ih =>
    obtain ⟨next, first, later⟩ := bind_ok.mp registered
    obtain ⟨id, -, -, rfl⟩ := register_ok_iff.mp first
    rw [List.append_cons]
    exact (ih later).trans ((recorded_addExpansion t id o).append_right rest)

theorem recorded_clear (t : OccurrenceTable) : t.clear.recorded = t.listed := List.append_nil _

variable {s : Statement} {t : OccurrenceTable}

section
variable (parameters : t.parameters = (ofStatement s).parameters)
include parameters

/-- What an entry lists is filed under the entry's key. -/
theorem key_of_mem {e : ParameterEntry} {o : Occurrence} (entry : e ∈ t.entries)
    (mem : o ∈ e.occurrences) : e.parameter.key = o.key ∧ t.Owns o.key o.id := by
  have entries : t.entries = (ofStatement s).entries := congrArg KeyedList.values parameters
  obtain ⟨-, -, found, key⟩ := mem_entry (entries ▸ entry) mem
  rw [Owns, entry?, parameters]
  exact ⟨key, e, found, o, mem, rfl⟩

/-- The places for stand-ins are those of the listed occurrences, in their order. -/
theorem places_eq (store : Store) :
    store.places t.entries = repeated (fun o => store.further o.key) t.listed := by
  rw [Store.places, repeated, listed, List.flatMap_assoc]
  refine List.flatMap_congr fun e entry => List.flatMap_congr fun o mem => ?_
  rw [(key_of_mem parameters entry mem).1]

/-- Stand-ins made for the table are none that it refuses. -/
theorem standIns_owned (store : Store) (first : Nat) :
    ∀ x ∈ standIns first (store.places t.entries), ∃ id, x.expands = some id ∧ t.clear.Owns x.key id := by
  intro x mem
  obtain ⟨e, entry, o, listed, stands⟩ := standsIn_of_mem mem
  have key : x.key = o.key := congrArg Parameter.key stands.parameter
  exact ⟨o.id, stands.expands, key ▸ (key_of_mem parameters entry listed).2⟩

end

end OccurrenceTable

/-- A table expanded for a store. Each listed occurrence has one expansion for each value after the first;
nothing else has any. An expansion is the listed occurrence under a new number, which names it. Numbers are
given in the order of the listed occurrences, on from where the builder stood and in 32 bits: as long as they
last they increase, and are behind all that the builder had made. -/
structure ExpandedFor (store : Store) (before after : Expanding) : Prop where
  parameters : after.table.parameters = before.table.parameters
  length : ∀ o ∈ before.table.listed, (after.table.expansions o.id).length = store.further o.key
  standIn : ∀ id, ∀ x ∈ after.table.expansions id,
    ∃ o ∈ before.table.listed, o.id = id ∧ x = standIn x.id o
  numbered : (before.table.listed.flatMap fun o => (after.table.expansions o.id).map Occurrence.id) =
    (List.range' before.builder.made (before.table.listed.map fun o => store.further o.key).sum).map
      UInt32.ofNat
  increasing : after.builder.InRange →
    (before.table.listed.flatMap fun o => (after.table.expansions o.id).map fun x => x.id.toNat) =
      List.range' before.builder.made (before.table.listed.map fun o => store.further o.key).sum
  fresh : after.builder.InRange → ∀ made, before.builder.Made made →
    ∀ id, ∀ x ∈ after.table.expansions id, ∀ o ∈ made, o.id < x.id
  next : after.builder.made =
    before.builder.made + (before.table.listed.map fun o => store.further o.key).sum
  count : after.table.occurrenceCount =
    before.table.listed.length + (before.table.listed.map fun o => store.further o.key).sum

section
variable {s : Statement} {store : Store} {before : Expanding}

theorem expandedFor_of_registered {t : OccurrenceTable} {b : Builder}
    (parameters : before.table.parameters = (OccurrenceTable.ofStatement s).parameters)
    (next : b.made = before.builder.made +
      (standIns before.builder.made (store.places before.table.entries)).length)
    (registered : registerAll before.table.clear
      (standIns before.builder.made (store.places before.table.entries)) = .ok t) :
    ExpandedFor store before ⟨t, b⟩ := by
  have distinct := OccurrenceTable.listed_nodup parameters
  obtain ⟨kept, expansions⟩ := registerAll_ok registered
  have recorded := OccurrenceTable.recorded_registerAll registered
  rw [OccurrenceTable.places_eq parameters] at next expansions recorded
  rw [standIns_length] at next
  replace expansions (id : OccurrenceId) : t.expansions id = placesOf id
      (standIns before.builder.made
        (repeated (fun o => store.further o.key) before.table.listed)) := expansions id
  refine ⟨kept, fun o mem => ?_, fun id x mem => ?_, ?_, fun range => ?_,
    fun range made known id x mem o old => ?_, by rw [next, length_repeated], ?_⟩
  · rw [expansions, length_placesOf distinct mem]
  · rw [expansions] at mem
    obtain ⟨made, expands⟩ := List.mem_filter.mp mem
    obtain ⟨o, place, same⟩ := mem_standIns made
    have own : some o.id = some id := by
      rw [← of_decide_eq_true expands, same]
      rfl
    exact ⟨o, mem_of_mem_repeated place, Option.some.inj own, same⟩
  · simp only [expansions]
    rw [← List.map_flatMap, flatMap_placesOf distinct, standIns_ids, length_repeated]
  · simp only [expansions]
    rw [← List.map_flatMap, flatMap_placesOf distinct, standIns_numbers (next ▸ range), length_repeated]
  · rw [expansions] at mem
    have behind := (standIns_between (next ▸ range) (List.mem_of_mem_filter mem)).1
    exact UInt32.lt_iff_toNat_lt.mpr (Nat.lt_of_lt_of_le (known.id_lt old) behind)
  · rw [OccurrenceTable.occurrenceCount_eq, recorded.length_eq, List.length_append,
      OccurrenceTable.recorded_clear, standIns_length, length_repeated]

/-- A statement's table refuses none of the stand-ins made for it, so its expansion ends in one of two ways:
an empty collection is reported, or the stand-ins for all further values are registered. -/
theorem expandMultiValued_ends (store : Store)
    (parameters : before.table.parameters = (OccurrenceTable.ofStatement s).parameters) :
    (∃ p b, before.table.entries.find? (fun p => store.width? p.parameter.key = some 0) = some p ∧
      expandMultiValued store before =
        .error (.emptyMultiValued p.parameter.key.text) ⟨before.table.clear, b⟩) ∨
    before.table.entries.find? (fun p => store.width? p.parameter.key = some 0) = none ∧
      ∃ made t b, made = standIns before.builder.made (store.places before.table.entries) ∧
        b.made = before.builder.made + made.length ∧
        registerAll before.table.clear made = .ok t ∧ expandMultiValued store before = .ok () ⟨t, b⟩ := by
  obtain ⟨p, b, first, -, ended⟩ | ⟨full, made, b, rfl, next, ⟨t, registered, ended⟩ | ⟨e, refused, -⟩⟩ :=
    expandMultiValued_cases store before
  · exact .inl ⟨p, b, first, ended⟩
  · exact .inr ⟨full, _, t, b, rfl, next, registered, ended⟩
  · obtain ⟨t, registered⟩ := registerAll_total (OccurrenceTable.standIns_owned parameters store _)
    rw [refused] at registered
    contradiction

/-- Expansion of a statement's table, whatever expansions it has, is refused exactly where a parameter is
bound to an empty collection. The first such parameter is reported, and the table is left with the
occurrences it listed and without expansions. Otherwise the table is expanded for the store, under numbers
that are new as long as the builder's numbers last. -/
theorem expansion_all_or_nothing
    (parameters : before.table.parameters = (OccurrenceTable.ofStatement s).parameters) :
    ((∃ e after, expandMultiValued store before = .error e after) ↔
        ∃ p ∈ before.table.entries, store.width? p.parameter.key = some 0) ∧
      (∀ e after, expandMultiValued store before = .error e after →
        (∃ p, before.table.entries.find? (fun p => store.width? p.parameter.key = some 0) = some p ∧
          e = .emptyMultiValued p.parameter.key.text) ∧
        after.table.parameters = before.table.parameters ∧ ∀ id, after.table.expansions id = []) ∧
      ∀ after, expandMultiValued store before = .ok () after → ExpandedFor store before after := by
  obtain ⟨p, b, first, ended⟩ | ⟨full, made, t, b, rfl, next, registered, ended⟩ :=
    expandMultiValued_ends store parameters
  · have empty : store.width? p.parameter.key = some 0 := by simpa using List.find?_some first
    rw [ended]
    refine ⟨⟨fun _ => ⟨p, List.mem_of_find?_eq_some first, empty⟩, fun _ => ⟨_, _, rfl⟩⟩, ?_, ?_⟩
    · rintro e after ⟨⟩
      exact ⟨⟨p, first, rfl⟩, rfl, fun id => rfl⟩
    · intro after ran
      contradiction
  · rw [ended]
    refine ⟨⟨?_, ?_⟩, ?_, ?_⟩
    · rintro ⟨e, after, ran⟩
      contradiction
    · rintro ⟨p, listed, empty⟩
      exact absurd empty (by simpa using List.find?_eq_none.mp full p listed)
    · intro e after ran
      contradiction
    · rintro after ⟨⟩
      exact expandedFor_of_registered parameters next registered

end

namespace Rebound

/-- Expanded for three values before, the table is expanded for none and for two. -/
theorem expanded_again :
    (∃ e after, expandMultiValued (state.step (.bindMulti ids.key [])).store
        ⟨state.table, state.builder⟩ = .error e after ∧ ∀ id, after.table.expansions id = []) ∧
      ∃ after, expandMultiValued (state.step (.bindMulti ids.key [.long 1, .long 2])).store
          ⟨state.table, state.builder⟩ = .ok () after ∧
        ExpandedFor (state.step (.bindMulti ids.key [.long 1, .long 2])).store
          ⟨state.table, state.builder⟩ after ∧
        after.builder.InRange ∧
        (state.table.expansions 0).map Occurrence.id = [1, 2] ∧
        (after.table.expansions 0).map Occurrence.id = [3] := by
  constructor
  · obtain ⟨-, refused, -⟩ := @expansion_all_or_nothing statement
      (state.step (.bindMulti ids.key [])).store ⟨state.table, state.builder⟩ rfl
    exact ⟨_, _, rfl, (refused _ _ rfl).2.2⟩
  · obtain ⟨-, -, done⟩ := @expansion_all_or_nothing statement
      (state.step (.bindMulti ids.key [.long 1, .long 2])).store ⟨state.table, state.builder⟩ rfl
    exact ⟨_, rfl, done _ rfl, by decide, rfl, rfl⟩

/-- Behind the last number in 32 bits comes the first, which is that of the occurrence expanded here. -/
theorem numbers_start_over :
    ∃ after, expandMultiValued (state.step (.bindMulti ids.key [.long 1, .long 2, .long 3])).store
        ⟨state.table, { state.builder with made := 4294967295 }⟩ = .ok () after ∧
      ¬ after.builder.InRange ∧
      state.table.listed.map Occurrence.id = [0] ∧
      (after.table.expansions 0).map Occurrence.id = [4294967295, 0] :=
  ⟨_, rfl, by decide, rfl, rfl⟩

end Rebound

end SemanticQuery.Binding
