import SemanticQuery.Binding.Expand
import SemanticQuery.Proofs.Binding.Occurrences
import SemanticQuery.Proofs.Outcome

/-! Expansions: new occurrences in the places of those whose parameters are bound to several values, numbered
on from where the builder stands and filed under what they expand. -/
namespace SemanticQuery.Binding
open Query

namespace Store

/-- How many values a parameter is bound to, where it is bound to several. -/
def width? (s : Store) (key : ParameterKey) : Option Nat :=
  match (s.find? key).map ParameterBinding.value with
  | some (.multi vs) => some vs.length
  | some .unbound | some (.single _) | none => none

/-- How many values a parameter is bound to after the first. -/
def further (s : Store) (key : ParameterKey) : Nat := (s.width? key).getD 0 - 1

theorem isMulti_of_width {s : Store} {key : ParameterKey} {n : Nat} (wide : s.width? key = some n) :
    ∃ b, s.find? key = some b ∧ b.isMulti = true := by
  rw [width?] at wide
  split at wide
  next vs value =>
    obtain ⟨b, found, values⟩ := Option.map_eq_some_iff.mp value
    exact ⟨b, found, by rw [ParameterBinding.isMulti, values]⟩
  all_goals contradiction

end Store

/-- A new occurrence in the place of another. -/
def standIn (id : OccurrenceId) (o : Occurrence) : Occurrence :=
  ⟨id, o.parameter, o.anticipated, some o.id⟩

/-- New occurrences in the places of others, numbered on from a count. -/
def standIns (first : Nat) : List Occurrence → List Occurrence
  | [] => []
  | o :: rest => standIn (UInt32.ofNat first) o :: standIns (first + 1) rest

theorem standIns_append (first : Nat) (os more : List Occurrence) :
    standIns first (os ++ more) = standIns first os ++ standIns (first + os.length) more := by
  induction os generalizing first with
  | nil => rfl
  | cons o rest ih =>
    have further : first + 1 + rest.length = first + (o :: rest).length := by
      rw [List.length_cons, Nat.add_assoc, Nat.add_comm 1]
    rw [List.cons_append, standIns, standIns, ih, further, List.cons_append]

theorem standIns_ids (first : Nat) (os : List Occurrence) :
    (standIns first os).map Occurrence.id = (List.range' first os.length).map UInt32.ofNat := by
  induction os generalizing first with
  | nil => rfl
  | cons o rest ih =>
    rw [standIns, List.map_cons, ih, List.length_cons, List.range'_succ, List.map_cons, standIn]

theorem standIns_length (first : Nat) (os : List Occurrence) :
    (standIns first os).length = os.length := by
  rw [← List.length_map Occurrence.id, standIns_ids, List.length_map, List.length_range']

/-- As long as the numbers last, stand-ins are numbered one by one. -/
theorem standIns_numbers {first : Nat} {os : List Occurrence}
    (range : first + os.length ≤ UInt32.size) :
    (standIns first os).map (fun x => x.id.toNat) = List.range' first os.length := by
  induction os generalizing first with
  | nil => rfl
  | cons o rest ih =>
    rw [List.length_cons] at range
    have fits : first < UInt32.size := by omega
    rw [standIns, List.map_cons, ih (by omega), List.length_cons, List.range'_succ, standIn,
      UInt32.toNat_ofNat_of_lt' fits]

theorem standIns_between {first : Nat} {os : List Occurrence} {x : Occurrence}
    (range : first + os.length ≤ UInt32.size) (mem : x ∈ standIns first os) :
    first ≤ x.id.toNat ∧ x.id.toNat < first + os.length := by
  have numbered := List.mem_map_of_mem (f := fun o : Occurrence => o.id.toNat) mem
  rwa [standIns_numbers range, List.mem_range'_1] at numbered

theorem standIns_nodup {first : Nat} {os : List Occurrence}
    (range : first + os.length ≤ UInt32.size) : ((standIns first os).map Occurrence.id).Nodup := by
  have distinct : ((standIns first os).map fun x => x.id.toNat).Nodup :=
    standIns_numbers range ▸ List.nodup_range'
  refine List.Nodup.of_map UInt32.toNat ?_
  rwa [List.map_map]

/-- Also where the numbers start over, those of stand-ins stay below where the builder stands in the end. -/
theorem standIns_below {first : Nat} {os : List Occurrence} {x : Occurrence}
    (mem : x ∈ standIns first os) : x.id.toNat < first + os.length := by
  have numbered := List.mem_map_of_mem (f := Occurrence.id) mem
  rw [standIns_ids] at numbered
  obtain ⟨n, between, same⟩ := List.mem_map.mp numbered
  rw [← same, UInt32.toNat_ofNat']
  exact Nat.lt_of_le_of_lt (Nat.mod_le _ _) (List.mem_range'_1.mp between).2

theorem mem_standIns {first : Nat} {os : List Occurrence} {x : Occurrence}
    (mem : x ∈ standIns first os) : ∃ o ∈ os, x = standIn x.id o := by
  induction os generalizing first with
  | nil => contradiction
  | cons o rest ih =>
    obtain rfl | later := List.mem_cons.mp mem
    · exact ⟨o, List.mem_cons_self, rfl⟩
    · obtain ⟨other, mem, same⟩ := ih later
      exact ⟨other, List.mem_cons_of_mem _ mem, same⟩

/-- Each occurrence as often as it is counted. -/
def repeated (count : Occurrence → Nat) (os : List Occurrence) : List Occurrence :=
  os.flatMap fun o => List.replicate (count o) o

/-- The occurrences of parameters, each as often as its parameter is bound to a further value. -/
def Store.places (store : Store) (es : List ParameterEntry) : List Occurrence :=
  es.flatMap fun e => repeated (fun _ => store.further e.parameter.key) e.occurrences

/-- A run that makes stand-ins for given occurrences, numbered on from where the builder stands. -/
def Makes (os : List Occurrence) (m : EStateM BindingError Builder (List Occurrence)) : Prop :=
  ∀ b, m b = .ok (standIns b.made os) { b with made := b.made + os.length }

namespace Makes
variable {os more : List Occurrence} {m n : EStateM BindingError Builder (List Occurrence)}

theorem none : Makes [] (pure []) := fun _ => rfl

theorem append (first : Makes os m) (later : Makes more n) :
    Makes (os ++ more) (do let os ← m; let more ← n; return os ++ more) := by
  intro b
  refine run_bind_ok.mpr ⟨_, _, first b, run_bind_ok.mpr ⟨_, _, later _, ?_⟩⟩
  rw [standIns_append, List.length_append, ← Nat.add_assoc]
  rfl

end Makes

/-- One expansion of an occurrence. -/
def makeExpansion (o : Occurrence) : EStateM BindingError Builder (List Occurrence) := do
  let (x, b) := (← get).expansionOf o
  set b
  return [x]

theorem makeExpansions_makes (o : Occurrence) (n : Nat) :
    Makes (List.replicate n o) (makeExpansions o n) := by
  induction n with
  | zero => exact .none
  | succ n ih =>
    have one : Makes [o] (makeExpansion o) := fun b => rfl
    exact one.append ih

theorem expandOccurrences_makes (n : Nat) (os : List Occurrence) :
    Makes (repeated (fun _ => n) os) (expandOccurrences n os) := by
  induction os with
  | nil => exact .none
  | cons o rest ih => exact (makeExpansions_makes o n).append ih

section
variable {store : Store}

theorem expandEntry_makes {e : ParameterEntry} (full : store.width? e.parameter.key ≠ some 0) :
    Makes (repeated (fun _ => store.further e.parameter.key) e.occurrences) (expandEntry store e) := by
  unfold expandEntry
  simp only [Store.further, Store.width?] at full ⊢
  generalize (store.find? e.parameter.key).map ParameterBinding.value = bound at full ⊢
  match bound with
  | some (.multi []) => exact absurd rfl full
  | some (.multi (first :: later)) => exact expandOccurrences_makes later.length e.occurrences
  | some .unbound | some (.single _) | none =>
    have nothing : repeated (fun _ => 0) e.occurrences = [] := by simp [repeated]
    exact nothing ▸ .none

theorem expandEntry_refused {e : ParameterEntry} (empty : store.width? e.parameter.key = some 0)
    (b : Builder) : expandEntry store e b = .error (.emptyMultiValued e.parameter.key.text) b := by
  unfold expandEntry
  simp only [Store.width?] at empty
  generalize (store.find? e.parameter.key).map ParameterBinding.value = bound at empty ⊢
  match bound with
  | some (.multi []) => rfl
  | some (.multi (first :: later)) => exact absurd (Option.some.inj empty) (Nat.succ_ne_zero _)
  | some .unbound | some (.single _) | none => contradiction

theorem expandEntries_makes {es : List ParameterEntry}
    (full : es.find? (fun e => store.width? e.parameter.key = some 0) = none) :
    Makes (store.places es) (expandEntries store es) := by
  induction es with
  | nil => exact .none
  | cons e rest ih =>
    rw [List.find?_eq_none] at full
    have first : store.width? e.parameter.key ≠ some 0 := by simpa using full e List.mem_cons_self
    refine (expandEntry_makes first).append (ih ?_)
    exact List.find?_eq_none.mpr fun other mem => full other (List.mem_cons_of_mem _ mem)

/-- The first parameter bound to an empty collection is reported. -/
theorem expandEntries_refused {es : List ParameterEntry} {e : ParameterEntry}
    (first : es.find? (fun e => store.width? e.parameter.key = some 0) = some e) (b : Builder) :
    ∃ b', b.made ≤ b'.made ∧
      expandEntries store es b = .error (.emptyMultiValued e.parameter.key.text) b' := by
  induction es generalizing b with
  | nil => contradiction
  | cons head rest ih =>
    rw [expandEntries]
    by_cases empty : store.width? head.parameter.key = some 0
    · rw [List.find?_cons_of_pos (by simpa using empty)] at first
      obtain rfl := Option.some.inj first
      exact ⟨b, Nat.le_refl _, by simp only [bind, EStateM.bind, expandEntry_refused empty]⟩
    · rw [List.find?_cons_of_neg (by simpa using empty)] at first
      obtain ⟨os, b₁, next, made⟩ : ∃ os b₁, b.made ≤ b₁.made ∧
          expandEntry store head b = .ok os b₁ :=
        ⟨_, _, Nat.le_add_right _ _, expandEntry_makes empty b⟩
      obtain ⟨b', later, refused⟩ := ih first b₁
      exact ⟨b', Nat.le_trans next later, by simp only [bind, EStateM.bind, made, refused]⟩

end

/-- An expansion is registered under the occurrence it names, which its own parameter must have. -/
theorem register_ok_iff {t t' : OccurrenceTable} {o : Occurrence} : t.register o = .ok t' ↔
    ∃ id, o.expands = some id ∧ t.Owns o.key id ∧ t' = t.addExpansion id o := by
  unfold OccurrenceTable.register
  split
  next plain => simp [plain]
  next id expands =>
    have owned : ((t.entry? o.key).any fun e => e.occurrences.any fun known => known.id == id) = true ↔
        t.Owns o.key id := by
      rw [OccurrenceTable.Owns]
      cases t.entry? o.key <;> simp
    split
    next known =>
      constructor
      · intro registered
        exact ⟨id, expands, owned.mp known, (Except.ok.inj registered).symm⟩
      · rintro ⟨other, same, -, rfl⟩
        rw [← Option.some.inj (expands.symm.trans same)]
    next unknown =>
      constructor
      · intro registered
        contradiction
      · rintro ⟨other, same, known, -⟩
        rw [← Option.some.inj (expands.symm.trans same)] at known
        exact absurd (owned.mpr known) unknown

theorem registerAll_ok {t t' : OccurrenceTable} {os : List Occurrence}
    (registered : registerAll t os = .ok t') : t'.parameters = t.parameters ∧
      ∀ id, t'.expansions id = t.expansions id ++ os.filter fun o => o.expands = some id := by
  induction os generalizing t with
  | nil =>
    cases registered
    exact ⟨rfl, by simp⟩
  | cons o rest ih =>
    obtain ⟨next, first, later⟩ := bind_ok.mp registered
    obtain ⟨expanded, expands, -, rfl⟩ := register_ok_iff.mp first
    obtain ⟨parameters, expansions⟩ := ih later
    refine ⟨parameters, fun id => ?_⟩
    rw [expansions, OccurrenceTable.expansions_addExpansion, List.append_assoc]
    by_cases same : expanded = id <;> simp [expands, same]

/-- Expansions of occurrences that their parameters have are all registered. -/
theorem registerAll_total {t : OccurrenceTable} {os : List Occurrence}
    (owned : ∀ o ∈ os, ∃ id, o.expands = some id ∧ t.Owns o.key id) :
    ∃ t', registerAll t os = .ok t' := by
  induction os generalizing t with
  | nil => exact ⟨t, rfl⟩
  | cons o rest ih =>
    obtain ⟨⟨id, expands, owns⟩, later⟩ := List.forall_mem_cons.mp owned
    have first := register_ok_iff.mpr ⟨id, expands, owns, rfl⟩
    obtain ⟨t', ran⟩ := ih (t := t.addExpansion id o) later
    exact ⟨t', bind_ok.mpr ⟨_, first, ran⟩⟩

variable {store : Store}

/-- An occurrence that stands in for a later value of another one, whose parameter is bound to
several. -/
structure StandsIn (store : Store) (e : ParameterEntry) (o x : Occurrence) : Prop where
  expands : x.expands = some o.id
  parameter : x.parameter = o.parameter
  anticipated : x.anticipated = o.anticipated
  several : ∃ b, store.find? e.parameter.key = some b ∧ b.isMulti = true

theorem standsIn_of_mem {es : List ParameterEntry} {first : Nat} {x : Occurrence}
    (mem : x ∈ standIns first (store.places es)) :
    ∃ e ∈ es, ∃ o ∈ e.occurrences, StandsIn store e o x := by
  obtain ⟨o, place, same⟩ := mem_standIns mem
  obtain ⟨e, listed, place⟩ := List.mem_flatMap.mp place
  obtain ⟨other, member, copy⟩ := List.mem_flatMap.mp place
  obtain ⟨counted, rfl⟩ := List.mem_replicate.mp copy
  refine ⟨e, listed, o, member, ?_⟩
  cases wide : store.width? e.parameter.key with
  | none => simp [Store.further, wide] at counted
  | some n =>
    rw [same]
    exact ⟨rfl, rfl, rfl, Store.isMulti_of_width wide⟩

/-- Expansion comes to an end in one of three ways: an empty collection is reported, the stand-ins for all
further values are registered, or one of these is refused. -/
theorem expandMultiValued_cases (store : Store) (x : Expanding) :
    (∃ e b, x.table.entries.find? (fun e => store.width? e.parameter.key = some 0) = some e ∧
      x.builder.made ≤ b.made ∧
      expandMultiValued store x = .error (.emptyMultiValued e.parameter.key.text) ⟨x.table.clear, b⟩) ∨
    x.table.entries.find? (fun e => store.width? e.parameter.key = some 0) = none ∧
      ∃ made b, made = standIns x.builder.made (store.places x.table.entries) ∧
        b.made = x.builder.made + made.length ∧
        ((∃ t, registerAll x.table.clear made = .ok t ∧ expandMultiValued store x = .ok () ⟨t, b⟩) ∨
          ∃ e, registerAll x.table.clear made = .error e ∧
            expandMultiValued store x = .error e ⟨x.table.clear, b⟩) := by
  have entries : x.table.clear.entries = x.table.entries := rfl
  simp only [expandMultiValued, entries]
  cases first : x.table.entries.find? (fun e => store.width? e.parameter.key = some 0) with
  | some e =>
    obtain ⟨b, later, refused⟩ := expandEntries_refused first x.builder
    exact .inl ⟨e, b, rfl, later, by rw [refused]⟩
  | none =>
    obtain ⟨made, b, places, next, ran⟩ : ∃ made b,
        made = standIns x.builder.made (store.places x.table.entries) ∧
        b.made = x.builder.made + made.length ∧
        expandEntries store x.table.entries x.builder = .ok made b :=
      ⟨_, _, rfl, congrArg _ (standIns_length ..).symm, expandEntries_makes first x.builder⟩
    refine .inr ⟨rfl, made, b, places, next, ?_⟩
    rw [ran]
    cases registered : registerAll x.table.clear made with
    | ok t => exact .inl ⟨t, rfl, by simp only [registered]⟩
    | error e => exact .inr ⟨e, rfl, by simp only [registered]⟩

/-- What expansion leaves: the parameters as they were, and new occurrences filed under those they
stand in for. -/
theorem expandMultiValued_ok {before after : Expanding}
    (run : expandMultiValued store before = .ok () after) :
    after.table.parameters = before.table.parameters ∧
      ∃ made : List Occurrence,
        made = standIns before.builder.made (store.places before.table.entries) ∧
        after.builder.made = before.builder.made + made.length ∧
        (∀ x ∈ made, ∃ e ∈ before.table.entries, ∃ o ∈ e.occurrences, StandsIn store e o x) ∧
        ∀ id, after.table.expansions id = made.filter fun x => x.expands = some id := by
  obtain ⟨e, b, -, -, ended⟩ | ⟨-, made, b, rfl, next, ⟨t, registered, ended⟩ | ⟨e, -, ended⟩⟩ :=
    expandMultiValued_cases store before
  · rw [run] at ended
    contradiction
  · rw [run] at ended
    cases ended
    obtain ⟨parameters, expansions⟩ := registerAll_ok registered
    exact ⟨parameters, _, rfl, next, fun x mem => standsIn_of_mem mem, expansions⟩
  · rw [run] at ended
    contradiction

/-- A failed expansion leaves no expansions. -/
theorem expandMultiValued_error {before after : Expanding} {e : BindingError}
    (run : expandMultiValued store before = .error e after) :
    after.table = before.table.clear ∧
      before.builder.made ≤ after.builder.made := by
  obtain ⟨e, b, -, later, ended⟩ | ⟨-, made, b, -, next, ⟨t, -, ended⟩ | ⟨e, -, ended⟩⟩ :=
    expandMultiValued_cases store before
  · rw [run] at ended
    cases ended
    exact ⟨rfl, later⟩
  · rw [run] at ended
    contradiction
  · rw [run] at ended
    cases ended
    exact ⟨rfl, next ▸ Nat.le_add_right _ _⟩

end SemanticQuery.Binding
