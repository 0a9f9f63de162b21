import SemanticQuery.Proofs.Binding.ContextTypes

/-! A value bound by itself and as the only one of several. Each has its own way to the slots: by itself, a
value of a converted type is converted once for all groups, and among several it is decomposed for the
group it is bound to. For one group the two come to the same plan, and where they are refused it may be
for another reason. -/
namespace SemanticQuery.Binding
open Query Lowering

/-- Runs that come to the same results. An error on both sides need not be the same one. -/
def EndAlike {ε α : Type} (x y : Except ε α) : Prop := ∀ a, x = .ok a ↔ y = .ok a

namespace EndAlike
variable {ε α β : Type}

theorem refl (x : Except ε α) : EndAlike x x := fun _ => Iff.rfl

theorem errors (e e' : ε) : EndAlike (.error e : Except ε α) (.error e') := by
  intro a
  constructor
  · intro ended
    contradiction
  · intro ended
    contradiction

theorem bind {x y : Except ε α} {f g : α → Except ε β} (first : EndAlike x y)
    (later : ∀ a, EndAlike (f a) (g a)) : EndAlike (x >>= f) (y >>= g) := by
  intro b
  rw [bind_ok, bind_ok]
  constructor
  · rintro ⟨a, ran, ranLater⟩
    exact ⟨a, (first a).mp ran, (later a b).mp ranLater⟩
  · rintro ⟨a, ran, ranLater⟩
    exact ⟨a, (first a).mpr ran, (later a b).mpr ranLater⟩

end EndAlike

/-- Stores that differ in how one parameter has one value: by itself, or as the only one of several. -/
structure HeldAlone (key : ParameterKey) (v : Value) (type : Option ExprType) (s s' : Store) :
    Prop where
  apart : ∀ other, other ≠ key → s.find? other = s'.find? other
  single : ∃ parameter, s.find? key = some ⟨parameter, .single v, type⟩
  several : ∃ parameter, s'.find? key = some ⟨parameter, .multi [v], type⟩

theorem Store.find?_put_self (s : Store) (key : ParameterKey) (b : ParameterBinding) :
    (s.put key b).find? key = some b := KeyedList.find?_insert_self ..

theorem Store.find?_put_of_ne {s : Store} {key other : ParameterKey} {b : ParameterBinding}
    (different : other ≠ key) : (s.put key b).find? other = s.find? other :=
  KeyedList.find?_insert_of_ne different

/-- A value that is bound either way keeps the type given before. -/
theorem heldAlone_of_bind {store s s' : Store} {key : ParameterKey} {v : Value}
    {b : ParameterBinding} (known : store.known key = .ok b) (single : store.bind key v = .ok s)
    (several : store.bindMulti key [v] = .ok s') : HeldAlone key v b.type s s' := by
  simp only [Store.bind, known] at single
  cases single
  obtain ⟨again, same, several⟩ := bind_ok.mp several
  rw [known] at same
  cases same
  split at several
  · cases several
    refine ⟨fun other different => ?_, ⟨_, Store.find?_put_self ..⟩, ⟨_, Store.find?_put_self ..⟩⟩
    rw [Store.find?_put_of_ne different, Store.find?_put_of_ne different]
  · contradiction

section
variable {c : Context} {key : ParameterKey} {v : Value} {type : Option ExprType}

/-- For one group, converting a value and decomposing it come to the same bindings. -/
theorem bindSingle_converted_alike (notNull : v.isNull = false) (converter : Converter)
    (relational : BasicType) (group : List Slot) (p : Plan) :
    EndAlike (bindSingle key (some (.converted converter relational)) v [group] p)
      (bindValue key (some (.converted converter relational)) p group v) := by
  simp only [bindSingle, bindValue, notNull, Mapping.decompose]
  cases converter.toRelational v with
  | error e => exact .refl _
  | ok stored =>
    -- both refuse a group that is not a single slot, with errors of their own
    cases group with
    | nil => exact .errors _ _
    | cons slot rest =>
      cases rest with
      | nil => exact .refl _
      | cons second rest => exact .errors _ _

theorem bindEach_one (mapping : Option Mapping) (group : List Slot) (p : Plan) :
    bindEach key mapping v [group] p = bindValue key mapping p group v := bind_pure _

theorem bindSingle_alike (notNull : v.isNull = false) (mapping : Option Mapping)
    (group : List Slot) (p : Plan) :
    EndAlike (bindSingle key mapping v [group] p) (bindValue key mapping p group v) := by
  match mapping with
  | some (.converted converter relational) =>
    exact bindSingle_converted_alike notNull converter relational group p
  | none | some (.basic _) | some (.embedded ..) | some (.identifier ..) | some (.foreignKey ..) =>
    rw [← bindEach_one]
    exact .refl _

/-- One value of several, without expansions, goes to the one group. -/
theorem bindMulti_one (mapping : Option Mapping) (o : Occurrence) (group : List Slot) (p : Plan) :
    bindMulti c key mapping o [] [group] [v] p = bindValue key mapping p group v := by
  simp only [bindMulti, bindNext, bindExpansions]
  cases bindValue key mapping p group v <;> rfl

/-- The first value that is not null is the same one. -/
theorem bindType_alike (notNull : v.isNull = false) (parameter again : Parameter) (o : Occurrence)
    (catalog : Catalog) : bindType ⟨parameter, .single v, type⟩ o catalog =
      bindType ⟨again, .multi [v], type⟩ o catalog := by
  simp [bindType, ParameterBinding.representative?, notNull]

variable {t : OccurrenceTable}

theorem bindOccurrence_alike (notNull : v.isNull = false) (parameter again : Parameter)
    {o : Occurrence} {group : List Slot} (own : c.index.groups? key o.id = some [group])
    (unexpanded : t.expansions o.id = []) (p : Plan) :
    EndAlike (bindOccurrence c t key ⟨parameter, .single v, type⟩ o p)
      (bindOccurrence c t key ⟨again, .multi [v], type⟩ o p) := by
  have groups : c.groups key o = .ok [group] := by rw [Context.groups, own]
  rw [bindOccurrence, bindOccurrence, groups]
  change EndAlike (if v.isNull then _ else _) (_ >>= fun mapping => _)
  rw [if_neg (by simp [notNull]), bindType_alike notNull parameter again]
  refine .bind (.refl _) fun mapping => ?_
  rw [unexpanded, bindMulti_one]
  exact bindSingle_alike notNull mapping group p

/-- Whether an occurrence has one group of slots and nothing that stands in for further values. -/
def Alone (c : Context) (t : OccurrenceTable) (key : ParameterKey) (o : Occurrence) : Prop :=
  (∃ group, c.index.groups? key o.id = some [group]) ∧ t.expansions o.id = []

theorem bindOccurrences_alike (notNull : v.isNull = false) (parameter again : Parameter)
    {os : List Occurrence} (alone : ∀ o ∈ os, Alone c t key o) (p : Plan) :
    EndAlike (bindOccurrences c t key ⟨parameter, .single v, type⟩ os p)
      (bindOccurrences c t key ⟨again, .multi [v], type⟩ os p) := by
  induction os generalizing p with
  | nil => exact .refl _
  | cons o rest ih =>
    rw [List.forall_mem_cons] at alone
    obtain ⟨⟨group, own⟩, unexpanded⟩ := alone.1
    exact .bind (bindOccurrence_alike notNull parameter again own unexpanded p) (ih alone.2)

variable {s s' : Store}

/-- Entries of other parameters have the same bindings in both stores. -/
theorem bindEntries_alike (held : HeldAlone key v type s s') (notNull : v.isNull = false)
    {es : List ParameterEntry}
    (alone : ∀ e ∈ es, e.parameter.key = key → ∀ o ∈ e.occurrences, Alone c t key o) (p : Plan) :
    EndAlike (bindEntries c t s es p) (bindEntries c t s' es p) := by
  induction es generalizing p with
  | nil => exact .refl _
  | cons e rest ih =>
    rw [List.forall_mem_cons] at alone
    rw [bindEntries, bindEntries]
    by_cases same : e.parameter.key = key
    · obtain ⟨parameter, single⟩ := held.single
      obtain ⟨again, several⟩ := held.several
      have entry : EndAlike
          (bindOccurrences c t key ⟨parameter, .single v, type⟩ e.occurrences p)
          (bindOccurrences c t key ⟨again, .multi [v], type⟩ e.occurrences p) :=
        bindOccurrences_alike notNull parameter again (alone.1 same) p
      have both := entry.bind (ih alone.2)
      rw [same, known_ok.mpr single, known_ok.mpr several]
      exact both
    · have known : s.known e.parameter.key = s'.known e.parameter.key := by
        rw [Store.known, Store.known, held.apart _ same]
      rw [known]
      refine .bind (.refl _) fun b => ?_
      exact .bind (.refl _) (ih alone.2)

/-- One value that is not null is bound alike by itself and as the only one of several, under the same
type or without one, where every occurrence of the parameter has one group of slots and no expansions:
the two are refused together, or they come to the same plan. So do the two ways of a value that is
converted, whatever the width of the group. -/
theorem one_value_binds_alike (held : HeldAlone key v type s s') (notNull : v.isNull = false)
    (alone : ∀ e ∈ t.entries, e.parameter.key = key → ∀ o ∈ e.occurrences, Alone c t key o) :
    EndAlike (buildPlan c t s) (buildPlan c t s') ∧
      ∀ (converter : Converter) (relational : BasicType) (group : List Slot) (p : Plan),
        EndAlike (bindSingle key (some (.converted converter relational)) v [group] p)
          (bindValue key (some (.converted converter relational)) p group v) :=
  ⟨bindEntries_alike held notNull alone .empty, bindSingle_converted_alike notNull⟩

end

/-! One parameter in a list, given a type that stores a flag as a letter. -/
namespace Rebound
open Bare (letter)

def lettered : BindingState :=
  (BindingState.start statement (builder.occurrence ids none none).2).step
    (.bindTyped ids.key (.bool false) (.mapped letter))

theorem flag_binds_alike :
    ∃ (l : Lowered) (w : Workspace) (c : Context) (s s' : Store) (p : Plan),
      lowerStatement model true lettered.table.expansions statement .empty = .ok l w ∧
        SlotIndex.build lettered.table l.ledger.groups? = .ok c.index ∧
        lettered.store.bind ids.key (.bool true) = .ok s ∧
        lettered.store.bindMulti ids.key [.bool true] = .ok s' ∧
        buildPlan c lettered.table s = .ok p ∧ buildPlan c lettered.table s' = .ok p ∧
        p.find? 0 = some ⟨some .char, .char 'Y'⟩ := by
  have held := @heldAlone_of_bind lettered.store _ _ ids.key (.bool true) _ rfl rfl rfl
  refine ⟨_, _, ⟨model, .empty, _, .empty⟩, _, _, _, rfl, rfl, rfl, rfl, rfl, ?_, rfl⟩
  refine ((one_value_binds_alike held rfl ?_).1 _).mp rfl
  intro e listed _ o member
  obtain rfl := List.mem_singleton.mp listed
  obtain rfl := List.mem_singleton.mp member
  exact ⟨⟨_, rfl⟩, rfl⟩

end Rebound

end SemanticQuery.Binding
