import SemanticQuery.Proofs.Binding.Filling

/-! What a built plan holds: the fillings of every occurrence in the table, and nothing besides. -/
namespace SemanticQuery.Binding
open Query Filling

/-- How the groups of an occurrence are filled. Without a value its own are held open; a single value
goes to each of its own; of several values each goes to one group, its own groups first and those of
its expansions behind. Only several values reach the expansions. -/
inductive OccurrenceFill (c : Context) (b : ParameterBinding) (o : Occurrence) (expansions : Nat)
    (s : OccurrenceSlots) : List Filling → Prop
  | unbound (value : b.value = .unbound) :
      OccurrenceFill c b o expansions s (s.groups.map unfilled)
  | single {fs : List Filling} {v : Value} (value : b.value = .single v)
      (groups : fs.map group = s.groups) (holds : ∀ f ∈ fs, f.Holds c b o v) :
      OccurrenceFill c b o expansions s fs
  | multi {fs : List Filling} {vs : List Value} (value : b.value = .multi vs)
      (counted : vs.length = expansions + 1) (within : expansions ≤ s.expansions.length)
      (groups : fs.map group = s.groups ++ (s.expansions.take expansions).flatten)
      (holds : List.Forall₂ (Holds c b o) vs fs) :
      OccurrenceFill c b o expansions s fs

namespace OccurrenceFill
variable {c : Context} {b : ParameterBinding} {o : Occurrence} {expansions : Nat}
  {s : OccurrenceSlots} {fs : List Filling}

/-- Groups of expansions are filled for several values only, and up to the width of the table. -/
theorem group_mem (fill : OccurrenceFill c b o expansions s fs) {f : Filling} (mem : f ∈ fs) :
    f.group ∈ s.groups ∨
      b.isMulti = true ∧ f.group ∈ (s.expansions.take expansions).flatten := by
  have listed := List.mem_map_of_mem (f := group) mem
  cases fill with
  | unbound value =>
    obtain ⟨group, own, rfl⟩ := List.mem_map.mp mem
    exact .inl own
  | single value groups holds => exact .inl (groups ▸ listed)
  | multi value counted within groups holds =>
    rw [groups, List.mem_append] at listed
    exact listed.imp_right fun expanded => ⟨by rw [ParameterBinding.isMulti, value], expanded⟩

theorem exists_own (fill : OccurrenceFill c b o expansions s fs) {g : List Slot} (mem : g ∈ s.groups) :
    ∃ f ∈ fs, f.group = g := by
  cases fill with
  | unbound value => exact ⟨unfilled g, List.mem_map_of_mem mem, rfl⟩
  | single value groups holds => exact List.mem_map.mp (groups ▸ mem)
  | multi value counted within groups holds =>
    exact List.mem_map.mp (groups ▸ List.mem_append_left _ mem)

theorem exists_expanded (fill : OccurrenceFill c b o expansions s fs) (several : b.isMulti = true)
    {g : List Slot} (mem : g ∈ (s.expansions.take expansions).flatten) : ∃ f ∈ fs, f.group = g := by
  cases fill with
  | unbound value => simp [ParameterBinding.isMulti, value] at several
  | single value groups holds => simp [ParameterBinding.isMulti, value] at several
  | multi value counted within groups holds =>
    exact List.mem_map.mp (groups ▸ List.mem_append_right _ mem)

theorem of_single (fill : OccurrenceFill c b o expansions s fs) {v : Value}
    (value : b.value = .single v) : fs.map Filling.group = s.groups ∧ ∀ f ∈ fs, f.Holds c b o v := by
  cases fill with
  | unbound none =>
    rw [value] at none
    contradiction
  | multi several =>
    rw [value] at several
    contradiction
  | single same groups holds =>
    rw [value] at same
    cases same
    exact ⟨groups, holds⟩

theorem of_multi (fill : OccurrenceFill c b o expansions s fs) {vs : List Value}
    (value : b.value = .multi vs) : vs.length = expansions + 1 ∧ expansions ≤ s.expansions.length := by
  cases fill with
  | unbound none =>
    rw [value] at none
    contradiction
  | single one =>
    rw [value] at one
    contradiction
  | multi same counted within =>
    rw [value] at same
    cases same
    exact ⟨counted, within⟩

end OccurrenceFill

/-- The fillings of one occurrence of a parameter that has a binding and slots in the index. -/
def Fills (c : Context) (t : OccurrenceTable) (key : ParameterKey) (b : ParameterBinding)
    (o : Occurrence) (fs : List Filling) : Prop :=
  ∃ s, c.index.occurrence? key o.id = some s ∧
    OccurrenceFill c b o (t.expansions o.id).length s fs

theorem groups_ok {c : Context} {key : ParameterKey} {o : Occurrence} {groups : List (List Slot)} :
    c.groups key o = .ok groups ↔
      ∃ s, c.index.occurrence? key o.id = some s ∧ s.groups = groups := by
  rw [← Option.map_eq_some_iff, Context.groups, SlotIndex.groups?]
  cases (c.index.occurrence? key o.id).map OccurrenceSlots.groups <;> simp

theorem bindOccurrence_ok {c : Context} {t : OccurrenceTable} {key : ParameterKey}
    {b : ParameterBinding} {o : Occurrence} {p q : Plan}
    (bound : bindOccurrence c t key b o p = .ok q) :
    ∃ fs, Fills c t key b o fs ∧ p.addAll (writesOf fs) = .ok q := by
  obtain ⟨groups, known, bound⟩ := bind_ok.mp bound
  obtain ⟨s, filed, rfl⟩ := groups_ok.mp known
  split at bound
  next value =>
    obtain ⟨mapping, -, bound⟩ := bind_ok.mp bound
    exact ⟨_, ⟨s, filed, .unbound value⟩, bindUnbound_ok bound⟩
  next vs value =>
    obtain ⟨mapping, typed, bound⟩ := bind_ok.mp bound
    obtain ⟨fs, counted, within, groups, holds, added⟩ := bindMulti_ok typed filed bound
    exact ⟨fs, ⟨s, filed, .multi value counted within groups holds⟩, added⟩
  next v value =>
    cases isNull : v.isNull with
    | true =>
      rw [if_pos isNull] at bound
      obtain ⟨fs, groups, holds, added⟩ := bindNullGroups_pass.fills (bindNulls_ok isNull) bound
      exact ⟨fs, ⟨s, filed, .single value groups holds⟩, added⟩
    | false =>
      rw [if_neg (by simp [isNull])] at bound
      obtain ⟨mapping, typed, bound⟩ := bind_ok.mp bound
      obtain ⟨fs, groups, holds, added⟩ := bindSingle_ok typed isNull bound
      exact ⟨fs, ⟨s, filed, .single value groups holds⟩, added⟩

theorem bindOccurrences_ok {c : Context} {t : OccurrenceTable} {key : ParameterKey}
    {b : ParameterBinding} {os : List Occurrence} {p q : Plan}
    (bound : bindOccurrences c t key b os p = .ok q) :
    ∃ fss, List.Forall₂ (Fills c t key b) os fss ∧ p.addAll (writesOf fss.flatten) = .ok q := by
  induction os generalizing p with
  | nil => exact ⟨[], .nil, bound⟩
  | cons o rest ih =>
    obtain ⟨next, first, later⟩ := bind_ok.mp bound
    obtain ⟨fs, fills, added⟩ := bindOccurrence_ok first
    obtain ⟨fss, fillsLater, addedLater⟩ := ih later
    refine ⟨fs :: fss, .cons fills fillsLater, ?_⟩
    rw [List.flatten_cons, writesOf, List.flatMap_append]
    exact Plan.addAll_append added addedLater

/-- The fillings of all occurrences of a parameter, under the binding it has in the store. -/
def EntryFills (c : Context) (t : OccurrenceTable) (s : Store) (e : ParameterEntry)
    (fss : List (List Filling)) : Prop :=
  ∃ b, s.find? e.parameter.key = some b ∧
    List.Forall₂ (Fills c t e.parameter.key b) e.occurrences fss

theorem known_ok {s : Store} {key : ParameterKey} {b : ParameterBinding} :
    s.known key = .ok b ↔ s.find? key = some b := by
  unfold Store.known
  cases s.find? key <;> simp

theorem bindEntries_ok {c : Context} {t : OccurrenceTable} {s : Store} {es : List ParameterEntry}
    {p q : Plan} (bound : bindEntries c t s es p = .ok q) :
    ∃ fsss, List.Forall₂ (EntryFills c t s) es fsss ∧
      p.addAll (writesOf fsss.flatten.flatten) = .ok q := by
  induction es generalizing p with
  | nil => exact ⟨[], .nil, bound⟩
  | cons e rest ih =>
    obtain ⟨b, known, bound⟩ := bind_ok.mp bound
    obtain ⟨next, first, later⟩ := bind_ok.mp bound
    obtain ⟨fss, fills, added⟩ := bindOccurrences_ok first
    obtain ⟨fsss, fillsLater, addedLater⟩ := ih later
    refine ⟨fss :: fsss, .cons ⟨b, known_ok.mp known, fills⟩ fillsLater, ?_⟩
    rw [List.flatten_cons, List.flatten_append, writesOf, List.flatMap_append]
    exact Plan.addAll_append added addedLater

theorem forall₂_mem {α β : Type} {R : α → β → Prop} {as : List α} {bs : List β} {a : α}
    (related : List.Forall₂ R as bs) (mem : a ∈ as) : ∃ b ∈ bs, R a b := by
  induction related with
  | nil => contradiction
  | cons first _ ih =>
    cases List.mem_cons.mp mem with
    | inl same => exact ⟨_, List.mem_cons_self, same ▸ first⟩
    | inr later =>
      obtain ⟨b, listed, holds⟩ := ih later
      exact ⟨b, List.mem_cons_of_mem _ listed, holds⟩

theorem bindOccurrences_filled {c : Context} {t : OccurrenceTable} {key : ParameterKey}
    {b : ParameterBinding} {os : List Occurrence} {p q : Plan} {n : Nat} {slot : SlotBinding}
    (bound : bindOccurrences c t key b os p = .ok q) (found : q.find? n = some slot) :
    p.find? n = some slot ∨
      ∃ o ∈ os, ∃ fs, Fills c t key b o fs ∧ ∃ f ∈ fs, (n, slot) ∈ f.writes := by
  obtain ⟨fss, fills, added⟩ := bindOccurrences_ok bound
  rw [Plan.find?_addAll added, writesOf, List.mem_flatMap] at found
  refine found.imp_right ?_
  rintro ⟨f, mem, write⟩
  obtain ⟨fs, memFill, memFills⟩ := List.mem_flatten.mp mem
  obtain ⟨o, member, filled⟩ := forall₂_mem fills.flip memFill
  exact ⟨o, member, fs, filled, f, memFills, write⟩

/-- A run over entries adds nothing but fillings of their occurrences. -/
theorem bindEntries_filled {c : Context} {t : OccurrenceTable} {s : Store} {es : List ParameterEntry}
    {p q : Plan} {n : Nat} {slot : SlotBinding} (bound : bindEntries c t s es p = .ok q)
    (found : q.find? n = some slot) : p.find? n = some slot ∨
      ∃ e ∈ es, ∃ o ∈ e.occurrences, ∃ b fs, s.find? e.parameter.key = some b ∧
        Fills c t e.parameter.key b o fs ∧ ∃ f ∈ fs, (n, slot) ∈ f.writes := by
  induction es generalizing p with
  | nil =>
    cases bound
    exact .inl found
  | cons e rest ih =>
    obtain ⟨b, known, bound⟩ := bind_ok.mp bound
    obtain ⟨next, first, later⟩ := bind_ok.mp bound
    rcases ih later with before | ⟨other, listed, filled⟩
    · refine (bindOccurrences_filled first before).imp_right ?_
      rintro ⟨o, member, fs, fills⟩
      exact ⟨e, List.mem_cons_self, o, member, b, fs, known_ok.mp known, fills⟩
    · exact .inr ⟨other, List.mem_cons_of_mem _ listed, filled⟩

/-- Every occurrence in the table is filled, and the plan holds its fillings. -/
theorem buildPlan_fills {c : Context} {t : OccurrenceTable} {s : Store} {p : Plan}
    {e : ParameterEntry} {o : Occurrence} (built : buildPlan c t s = .ok p) (listed : e ∈ t.entries)
    (member : o ∈ e.occurrences) :
    ∃ b fs, s.find? e.parameter.key = some b ∧ Fills c t e.parameter.key b o fs ∧
      ∀ f ∈ fs, ∀ w ∈ f.writes, p.find? w.1 = some w.2 := by
  obtain ⟨fsss, fills, added⟩ := bindEntries_ok built
  obtain ⟨fss, memEntry, b, known, fillsEntry⟩ := forall₂_mem fills listed
  obtain ⟨fs, memFills, filled⟩ := forall₂_mem fillsEntry member
  refine ⟨b, fs, known, filled, ?_⟩
  intro f mem w write
  have all : f ∈ fsss.flatten.flatten :=
    List.mem_flatten_of_mem (List.mem_flatten_of_mem memEntry memFills) mem
  exact (Plan.find?_addAll added).mpr (.inr (List.mem_flatMap.mpr ⟨f, all, write⟩))

/-- The plan holds nothing but the fillings of occurrences in the table. -/
theorem buildPlan_filled {c : Context} {t : OccurrenceTable} {s : Store} {p : Plan} {n : Nat}
    {slot : SlotBinding} (built : buildPlan c t s = .ok p) (found : p.find? n = some slot) :
    ∃ e ∈ t.entries, ∃ o ∈ e.occurrences, ∃ b fs, s.find? e.parameter.key = some b ∧
      Fills c t e.parameter.key b o fs ∧ ∃ f ∈ fs, (n, slot) ∈ f.writes := by
  refine (bindEntries_filled built found).resolve_left fun held => ?_
  contradiction

end SemanticQuery.Binding
