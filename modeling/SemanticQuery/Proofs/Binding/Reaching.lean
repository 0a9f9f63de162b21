import SemanticQuery.Proofs.Binding.Coverage
import SemanticQuery.Proofs.Mapping.Columns

/-! One occurrence within a run. When the run comes to an occurrence none of its slots is bound yet, so a
single value is refused for its own sake alone; and an occurrence that refuses ends the run. The plan at
the end has the column values of the occurrence at each of its groups. -/
namespace SemanticQuery.Binding
open Query Lowering

section
variable {c : Context} {t : OccurrenceTable} {store : Store}

theorem bindOccurrences_append (key : ParameterKey) (b : ParameterBinding) (os more : List Occurrence)
    (p : Plan) : bindOccurrences c t key b (os ++ more) p =
      bindOccurrences c t key b os p >>= bindOccurrences c t key b more := by
  induction os generalizing p with
  | nil => rfl
  | cons o rest ih =>
    simp only [List.cons_append, bindOccurrences]
    cases bindOccurrence c t key b o p with
    | error e => rfl
    | ok q => exact ih q

theorem bindEntries_append (es more : List ParameterEntry) (p : Plan) :
    bindEntries c t store (es ++ more) p =
      bindEntries c t store es p >>= bindEntries c t store more := by
  induction es generalizing p with
  | nil => rfl
  | cons e rest ih =>
    simp only [List.cons_append, bindEntries]
    cases store.known e.parameter.key with
    | error e => rfl
    | ok b =>
      change (bindOccurrences c t e.parameter.key b e.occurrences p >>= _) =
        (bindOccurrences c t e.parameter.key b e.occurrences p >>= _) >>= _
      cases bindOccurrences c t e.parameter.key b e.occurrences p with
      | error e => rfl
      | ok q => exact ih q

/-- The plan as it stands when the run comes to an occurrence in the table. -/
def Reaches (c : Context) (t : OccurrenceTable) (store : Store) (e : ParameterEntry)
    (b : ParameterBinding) (o : Occurrence) (q : Plan) : Prop :=
  ∃ es es' os os' start, t.entries = es ++ e :: es' ∧ e.occurrences = os ++ o :: os' ∧
    store.find? e.parameter.key = some b ∧ bindEntries c t store es .empty = .ok start ∧
    bindOccurrences c t e.parameter.key b os start = .ok q

namespace Reaches
variable {e : ParameterEntry} {b : ParameterBinding} {o : Occurrence} {q : Plan}

theorem known (reaches : Reaches c t store e b o q) : store.find? e.parameter.key = some b := by
  obtain ⟨-, -, -, -, -, -, -, known, -, -⟩ := reaches
  exact known

/-- An error at the occurrence is the error of the run. -/
theorem buildPlan_error (reaches : Reaches c t store e b o q) {error : BindingError}
    (failed : bindOccurrence c t e.parameter.key b o q = .error error) :
    buildPlan c t store = .error error := by
  obtain ⟨es, es', os, os', start, entries, occurrences, known, ran, ranWithin⟩ := reaches
  have entry : bindOccurrences c t e.parameter.key b e.occurrences start = .error error := by
    rw [occurrences, bindOccurrences_append, ranWithin]
    change bindOccurrences c t e.parameter.key b (o :: os') q = .error error
    rw [bindOccurrences, failed]
    rfl
  rw [buildPlan, entries, bindEntries_append, ran]
  change bindEntries c t store (e :: es') start = .error error
  rw [bindEntries, known_ok.mpr known]
  change bindOccurrences c t e.parameter.key b e.occurrences start >>= _ = .error error
  rw [entry]
  rfl

/-- What is bound by then was bound for other occurrences. -/
theorem bound_elsewhere {s : Statement} (reaches : Reaches c t store e b o q)
    (entries : t.entries = (OccurrenceTable.ofStatement s).entries) {n : Nat} {slot : SlotBinding}
    (found : q.find? n = some slot) :
    ∃ e' ∈ t.entries, ∃ o' ∈ e'.occurrences, o'.id ≠ o.id ∧ ∃ b' fs,
      store.find? e'.parameter.key = some b' ∧ Fills c t e'.parameter.key b' o' fs ∧
        ∃ f ∈ fs, n ∈ f.group.map Slot.number := by
  obtain ⟨es, es', os, os', start, split, occurrences, known, ran, ranWithin⟩ := reaches
  have listed : e ∈ t.entries := by simp [split]
  have member : o ∈ e.occurrences := by simp [occurrences]
  have distinct : (es ++ e :: es').Nodup := split ▸ entries ▸ OccurrenceTable.entries_nodup s
  have distinctWithin : (os ++ o :: os').Nodup :=
    occurrences ▸ OccurrenceTable.occurrences_nodup (entries ▸ listed)
  -- an occurrence that was come to before differs from this one, and so does its identity
  have other {e' : ParameterEntry} {o' : Occurrence} (listed' : e' ∈ t.entries)
      (member' : o' ∈ e'.occurrences) (before : e' ≠ e ∨ o' ≠ o) : o'.id ≠ o.id := by
    intro same
    have one := OccurrenceTable.entry_unique (entries ▸ listed') (entries ▸ listed) member' member same
    rcases before with different | different
    · exact different one.1
    · exact different one.2
  rcases bindOccurrences_filled ranWithin found with held | ⟨o', mem, fs, filled, f, filling, write⟩
  · rcases bindEntries_filled ran held with none | ⟨e', mem, o', member', b', fs, known', filled, f,
      filling, write⟩
    · contradiction
    · have before : e' ≠ e := by
        rintro rfl
        exact (List.nodup_cons.mp (List.nodup_middle.mp distinct)).1 (List.mem_append_left _ mem)
      have listed' : e' ∈ t.entries := by simp [split, mem]
      exact ⟨e', listed', o', member', other listed' member' (.inl before), b', fs, known', filled, f,
        filling, Filling.number_of_write write⟩
  · have before : o' ≠ o := by
      rintro rfl
      exact (List.nodup_cons.mp (List.nodup_middle.mp distinctWithin)).1 (List.mem_append_left _ mem)
    have member' : o' ∈ e.occurrences := by simp [occurrences, mem]
    exact ⟨e, listed, o', member', other listed member' (.inr before), b, fs, known, filled, f, filling,
      Filling.number_of_write write⟩

end Reaches

section
variable {e : ParameterEntry} {b : ParameterBinding} {es es' : List ParameterEntry} {start : Plan}

/-- A run that every occurrence lets through when it is come to goes on to the end of the entry. -/
theorem bindOccurrences_total (split : t.entries = es ++ e :: es')
    (known : store.find? e.parameter.key = some b) (ran : bindEntries c t store es .empty = .ok start)
    (passes : ∀ o ∈ e.occurrences, ∀ q, Reaches c t store e b o q →
      ∃ next, bindOccurrence c t e.parameter.key b o q = .ok next) {os os' : List Occurrence} {q : Plan}
    (occurrences : e.occurrences = os ++ os')
    (ranWithin : bindOccurrences c t e.parameter.key b os start = .ok q) :
    ∃ last, bindOccurrences c t e.parameter.key b os' q = .ok last := by
  induction os' generalizing os q with
  | nil => exact ⟨q, rfl⟩
  | cons o rest ih =>
    obtain ⟨next, bound⟩ := passes o (by simp [occurrences]) q
      ⟨es, es', os, rest, start, split, occurrences, known, ran, ranWithin⟩
    have further : bindOccurrences c t e.parameter.key b (os ++ [o]) start = .ok next := by
      rw [bindOccurrences_append, bind_ok]
      exact ⟨q, ranWithin, bind_ok.mpr ⟨next, bound, rfl⟩⟩
    obtain ⟨last, later⟩ := ih (by rw [occurrences, List.append_assoc, List.singleton_append]) further
    exact ⟨last, bind_ok.mpr ⟨next, bound, later⟩⟩

theorem bindEntries_total (known : ∀ e ∈ t.entries, ∃ b, store.find? e.parameter.key = some b)
    (passes : ∀ e ∈ t.entries, ∀ b, ∀ o ∈ e.occurrences, ∀ q, Reaches c t store e b o q →
      ∃ next, bindOccurrence c t e.parameter.key b o q = .ok next)
    (split : t.entries = es ++ es') (ran : bindEntries c t store es .empty = .ok start) :
    ∃ p, bindEntries c t store es' start = .ok p := by
  induction es' generalizing es start with
  | nil => exact ⟨start, rfl⟩
  | cons e rest ih =>
    have listed : e ∈ t.entries := by simp [split]
    obtain ⟨b, found⟩ := known e listed
    have begun : bindOccurrences c t e.parameter.key b [] start = .ok start := rfl
    obtain ⟨next, bound⟩ := bindOccurrences_total split found ran (passes e listed b)
      (List.nil_append _).symm begun
    have entry : bindEntries c t store [e] start = .ok next :=
      bind_ok.mpr ⟨b, known_ok.mpr found, bind_ok.mpr ⟨next, bound, rfl⟩⟩
    have further : bindEntries c t store (es ++ [e]) .empty = .ok next := by
      rw [bindEntries_append, bind_ok]
      exact ⟨start, ran, entry⟩
    obtain ⟨p, later⟩ := ih (by rw [split, List.append_assoc, List.singleton_append]) further
    exact ⟨p, bind_ok.mpr ⟨b, known_ok.mpr found, bind_ok.mpr ⟨next, bound, later⟩⟩⟩

/-- A plan is built where every parameter is known and every occurrence lets the run through. -/
theorem buildPlan_total (known : ∀ e ∈ t.entries, ∃ b, store.find? e.parameter.key = some b)
    (passes : ∀ e ∈ t.entries, ∀ b, ∀ o ∈ e.occurrences, ∀ q, Reaches c t store e b o q →
      ∃ next, bindOccurrence c t e.parameter.key b o q = .ok next) :
    ∃ p, buildPlan c t store = .ok p := by
  have ran : bindEntries c t store [] .empty = .ok .empty := rfl
  exact bindEntries_total known passes (List.nil_append _).symm ran

end

end

/-- Groups of slots that are all different and not bound yet. -/
structure Free (q : Plan) (groups : List (List Slot)) : Prop where
  distinct : (groups.flatten.map Slot.number).Nodup
  unbound : ∀ n ∈ groups.flatten.map Slot.number, q.find? n = none

namespace Free
variable {q next : Plan} {group : List Slot} {rest : List (List Slot)}

theorem exists_addAll (free : Free q (group :: rest)) {writes : List (Nat × SlotBinding)}
    (slots : writes.map Prod.fst = group.map Slot.number) : ∃ next, q.addAll writes = .ok next := by
  have distinct := free.distinct
  rw [List.flatten_cons, List.map_append] at distinct
  refine Plan.exists_addAll (slots ▸ (List.nodup_append.mp distinct).1) fun n mem => ?_
  refine free.unbound n ?_
  rw [List.flatten_cons, List.map_append]
  exact List.mem_append_left _ (slots ▸ mem)

/-- Once a group is bound the others are still free. -/
theorem later (free : Free q (group :: rest)) {writes : List (Nat × SlotBinding)}
    (slots : writes.map Prod.fst = group.map Slot.number) (added : q.addAll writes = .ok next) :
    Free next rest := by
  obtain ⟨distinct, unbound⟩ := free
  rw [List.flatten_cons, List.map_append] at distinct unbound
  obtain ⟨-, distinctLater, apart⟩ := List.nodup_append.mp distinct
  refine ⟨distinctLater, fun n mem => ?_⟩
  cases found : next.find? n with
  | none => rfl
  | some slot =>
    rcases (Plan.find?_addAll added).mp found with held | write
    · rw [unbound n (List.mem_append_right _ mem)] at held
      contradiction
    · have own : n ∈ group.map Slot.number := slots ▸ List.mem_map_of_mem (f := Prod.fst) write
      exact absurd rfl (apart n own n mem)

end Free

/-- A pass over free groups goes through where each step only writes to the slots of its group. -/
theorem Pass.total {step : Plan → List Slot → Except BindingError Plan}
    {run : List (List Slot) → Plan → Except BindingError Plan} (pass : Pass step run)
    {groups : List (List Slot)} {q : Plan}
    (writes : ∀ g ∈ groups, ∃ written : List (Nat × SlotBinding),
      written.map Prod.fst = g.map Slot.number ∧ ∀ p, step p g = p.addAll written)
    (free : Free q groups) : ∃ next, run groups q = .ok next := by
  induction groups generalizing q with
  | nil => exact ⟨q, pass.nil q⟩
  | cons group rest ih =>
    obtain ⟨⟨written, slots, same⟩, later⟩ := List.forall_mem_cons.mp writes
    obtain ⟨next, added⟩ := free.exists_addAll slots
    obtain ⟨last, ran⟩ := ih later (free.later slots added)
    exact ⟨last, (pass.cons ..).trans (bind_ok.mpr ⟨next, (same q).trans added, ran⟩)⟩

/-- When the run comes to an occurrence whose identity no expansion has, the slots it was given are free. -/
theorem Reaches.free {s : Statement} {t t' : OccurrenceTable} {l : Lowered} {c : Context} {store : Store}
    {e : ParameterEntry} {b : ParameterBinding} {o : Occurrence} {q : Plan} {groups : List (List Slot)}
    (reaches : Reaches c t' store e b o q) (entries : t'.entries = (OccurrenceTable.ofStatement s).entries)
    (numbered : (numbers l.ledger.entries).Nodup)
    (indexed : SlotIndex.build t l.ledger.groups? = .ok c.index)
    (apart : ∀ id, ∀ x ∈ t.expansions id, x.id ≠ o.id) (found : l.ledger.groups? o.id = some groups) :
    Free q groups := by
  refine ⟨groups_nodup numbered found, fun n mem => ?_⟩
  have owns := (owns_iff_of_groups? found).mp mem
  cases bound : q.find? n with
  | none => rfl
  | some slot =>
    obtain ⟨e', listed, o', member', different, b', fs, -, ⟨slots, filing, fill⟩, f, filling, numberedThere⟩ :=
      reaches.bound_elsewhere entries bound
    obtain ⟨-, -, -, -, filed⟩ := SlotIndex.build_filed indexed filing
    rcases fill.group_mem filling with own | ⟨-, expanded⟩
    · have ownsToo := (Prepared.owner_of_slot filed).1.mp (mem_numbers_of_mem own numberedThere)
      exact absurd (ownsToo.unique numbered owns) different
    · obtain ⟨i, gs, -, listed, numberedThere⟩ :=
        exists_position_of_take (mem_numbers_of_mem expanded numberedThere)
      obtain ⟨expansion, expandedBy, allocated⟩ := filed.expansion_at listed
      have same := ((owns_iff_of_groups? allocated).mp numberedThere).unique numbered owns
      exact absurd same (apart _ _ (List.mem_of_getElem? expandedBy))

section
variable {key : ParameterKey} {m : Mapping} {v : Value}

theorem bindOccurrence_single {c : Context} {t : OccurrenceTable} {b : ParameterBinding}
    {o : Occurrence} {q : Plan} {mapping : Option Mapping} {groups : List (List Slot)}
    (slots : c.groups key o = .ok groups) (value : b.value = .single v) (notNull : v.isNull = false)
    (typed : c.mapping (bindType b o c.catalog) = .ok mapping) :
    bindOccurrence c t key b o q = bindSingle key mapping v groups q := by
  rw [bindOccurrence, slots, value]
  change (if v.isNull then _ else _) = _
  rw [if_neg (by simp [notNull]), typed]
  rfl

/-- A value that does not fit the mapping is refused with the mapping's own error. -/
theorem bindSingle_error {error : MappingError} {groups : List (List Slot)} {q : Plan}
    (notNull : v.isNull = false) (some_group : groups ≠ []) (refused : m.decompose v = .error error) :
    bindSingle key (some m) v groups q = .error (.mapping error) := by
  have each : bindEach key (some m) v groups q = .error (.mapping error) := by
    cases groups with
    | nil => contradiction
    | cons group rest => simp [bindEach, bindValue, notNull, refused, liftMapping, bind, Except.bind]
  cases m with
  | converted converter relational =>
    rw [Mapping.decompose] at refused
    have unconverted : converter.toRelational v = .error error := by
      cases stored : converter.toRelational v with
      | error e =>
        rw [stored] at refused
        exact congrArg Except.error (Except.error.inj refused)
      | ok a =>
        rw [stored] at refused
        contradiction
    rw [bindSingle, unconverted]
    rfl
  | basic | embedded | identifier | foreignKey => exact each

theorem bindEach_total {values : List ColumnValue} {groups : List (List Slot)} {q : Plan}
    (notNull : v.isNull = false) (parts : m.decompose v = .ok values)
    (fits : ∀ g ∈ groups, g.length = values.length) (free : Free q groups) :
    ∃ next, bindEach key (some m) v groups q = .ok next := by
  refine (bindEach_pass ..).total (fun g mem => ?_) free
  refine ⟨(g.zip values).map fun p => (p.1.number, ⟨some p.2.type, p.2.value⟩), ?_, fun p => ?_⟩
  · have first : (g.zip values).map Prod.fst = g := List.map_fst_zip (Nat.le_of_eq (fits g mem))
    rw [List.map_map, ← congrArg (List.map Slot.number) first, List.map_map]
    rfl
  · simp only [bindValue, notNull, Bool.false_eq_true, if_false, parts, liftMapping]
    exact if_pos (fits g mem).symm

theorem bindStored_total (key : ParameterKey) (type : ColumnType) (stored : Value)
    {groups : List (List Slot)} {q : Plan} (fits : ∀ g ∈ groups, g.length = 1) (free : Free q groups) :
    ∃ next, bindStored key type stored groups q = .ok next := by
  refine (bindStored_pass ..).total (fun g mem => ?_) free
  obtain ⟨slot, rfl⟩ := List.length_eq_one_iff.mp (fits g mem)
  exact ⟨[(slot.number, ⟨some type, stored⟩)], rfl, fun _ => rfl⟩

/-- A value that fits the mapping is bound where the groups have the columns of the mapping. -/
theorem bindSingle_total {values : List ColumnValue} {groups : List (List Slot)} {q : Plan}
    (notNull : v.isNull = false) (parts : m.decompose v = .ok values)
    (fits : ∀ g ∈ groups, g.length = values.length) (free : Free q groups) :
    ∃ next, bindSingle key (some m) v groups q = .ok next := by
  cases m with
  | converted converter relational =>
    rw [Mapping.decompose] at parts
    obtain ⟨stored, converted, made⟩ := bind_ok.mp parts
    cases made
    obtain ⟨next, bound⟩ := bindStored_total key relational.column stored fits free
    exact ⟨next, bind_ok.mpr ⟨stored, liftMapping_ok.mpr converted, bound⟩⟩
  | basic | embedded | identifier | foreignKey => exact bindEach_total notNull parts fits free

end

/-- The slots of a group have column values, in order, under the types of the columns. -/
def Plan.FilledWith (p : Plan) (group : List Slot) (values : List ColumnValue) : Prop :=
  group.map (fun slot => p.find? slot.number) = values.map fun cv => some ⟨some cv.type, cv.value⟩

namespace Plan.FilledWith
variable {p : Plan} {g : List Slot}

/-- Each slot of a group holds one value under one type. -/
theorem eq {values others : List ColumnValue} (filled : p.FilledWith g values)
    (again : p.FilledWith g others) : values = others := by
  have same := filled.symm.trans again
  refine (List.map_inj_right ?_).mp same
  rintro ⟨type, value⟩ ⟨type', value'⟩ equal
  cases equal
  rfl

theorem single {cv : ColumnValue} (filled : p.FilledWith g [cv]) :
    ∃ slot, g = [slot] ∧ p.find? slot.number = some ⟨some cv.type, cv.value⟩ := by
  have lengths := congrArg List.length filled
  rw [List.length_map, List.length_map] at lengths
  obtain ⟨slot, rfl⟩ := List.length_eq_one_iff.mp lengths
  exact ⟨slot, rfl, (List.cons.inj filled).1⟩

end Plan.FilledWith

/-- A plan has a single value at each group of an occurrence, decomposed by the type it is bound by. -/
theorem single_filled {c : Context} {t : OccurrenceTable} {store : Store} {p : Plan}
    {e : ParameterEntry} {o : Occurrence} {b : ParameterBinding} {v : Value} {slots : OccurrenceSlots}
    {g : List Slot} (built : buildPlan c t store = .ok p) (listed : e ∈ t.entries)
    (member : o ∈ e.occurrences) (known : store.find? e.parameter.key = some b)
    (value : b.value = .single v) (notNull : v.isNull = false)
    (filing : c.index.occurrence? e.parameter.key o.id = some slots) (mem : g ∈ slots.groups) :
    ∃ m values, c.mapping (bindType b o c.catalog) = .ok (some m) ∧ m.decompose v = .ok values ∧
      p.FilledWith g values := by
  obtain ⟨again, fs, found, ⟨slots', filingAgain, fill⟩, written⟩ :=
    buildPlan_fills built listed member
  obtain rfl := Option.some.inj (known.symm.trans found)
  obtain rfl := Option.some.inj (filing.symm.trans filingAgain)
  obtain ⟨allGroups, holds⟩ := fill.of_single value
  obtain ⟨f, filling, rfl⟩ := List.mem_map.mp (allGroups ▸ mem)
  cases holds f filling with
  | null isNull =>
    rw [notNull] at isNull
    contradiction
  | @value m values _ typed parts bindings =>
    refine ⟨m, values, typed, parts, ?_⟩
    rw [Plan.FilledWith, Filling.find?_of_writes (written f filling), bindings, List.map_map]
    rfl

end SemanticQuery.Binding
