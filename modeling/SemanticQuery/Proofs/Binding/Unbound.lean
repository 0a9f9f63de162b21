import SemanticQuery.Proofs.Binding.Execution
import SemanticQuery.Proofs.Binding.OwnTypes
import SemanticQuery.Proofs.Binding.Partition
import SemanticQuery.Proofs.Lowering.Sources

/-! Plans for statements without values. The type of an occurrence is resolved once while its slots are
allocated, against the sources so far, and again when they are held open, against all of them. The columns
are the same both times, so nothing can go wrong and every slot gets a placeholder. -/
namespace SemanticQuery.Binding
open Query Lowering

section
variable {c : Context} {key : ParameterKey} {mapping : Option Mapping} {groups : List (List Slot)}
  {q : Plan}

theorem bindUnbound_total (fits : ∀ m, mapping = some m → ∀ g ∈ groups, m.columnTypes.length = g.length)
    (free : Free q groups) : ∃ next, bindUnbound key mapping groups q = .ok next := by
  refine (bindUnbound_pass ..).total (fun g mem => ?_) free
  refine ⟨_, (Filling.unfilled g).numbers_writes, bindUnboundGroup_eq ?_⟩
  exact fun m same => fits m same g mem

theorem bindOccurrence_unbound {t : OccurrenceTable} {b : ParameterBinding} {o : Occurrence}
    (slots : c.groups key o = .ok groups) (value : b.value = .unbound)
    (typed : c.mapping o.type? = .ok mapping) :
    bindOccurrence c t key b o q = bindUnbound key mapping groups q := by
  rw [bindOccurrence, slots, value]
  change (c.mapping o.type? >>= _) = _
  rw [typed]
  rfl

/-- A type that settled the slots of a group settles as many columns once all sources are there. -/
theorem mapping_of_typedBy {source : Sql.FromClause} {o : Occurrence} {types : List (Option ColumnType)}
    (rooted : c.source.Rooted) (grown : source.roots <+: c.source.roots)
    (typed : TypedBy c.model source o types) : ∃ mapping, c.mapping o.type? = .ok mapping ∧
      ∀ m, mapping = some m → m.columnTypes.length = types.length := by
  have bare (unmapped : ∀ type, o.type? = some type → c.model.resolveMapping source type = .ok none) :
      c.mapping o.type? = .ok none := by
    cases own : o.type? with
    | none => rfl
    | some type =>
      exact liftMapping_ok.mpr (Model.resolveMapping_of_grown (rooted.grown grown) (unmapped type own))
  cases typed with
  | @own type m own resolved =>
    refine ⟨some m, ?_, ?_⟩
    · rw [own]
      exact liftMapping_ok.mpr (Model.resolveMapping_of_grown (rooted.grown grown) resolved)
    · rintro _ ⟨⟩
      exact (List.length_map _).symm
  | context _ unmapped | untyped unmapped =>
    refine ⟨none, bare unmapped, ?_⟩
    intro m same
    contradiction

/-- The groups of an occurrence all have the columns that its type comes to when it is bound. -/
theorem mapping_of_groups {s : Statement} {strict : Bool} {expansions : OccurrenceId → List Occurrence}
    {w w' : Workspace} {l : Lowered} {o : Occurrence}
    (lowered : lowerStatement c.model strict expansions s w = .ok l w') (source : c.source = l.source)
    (rooted : l.source.Rooted)
    (alike : ∀ visited ∈ s.visits expansions, visited.id = o.id → visited.type? = o.type?)
    (found : l.ledger.groups? o.id = some groups) : ∃ mapping, c.mapping o.type? = .ok mapping ∧
      ∀ m, mapping = some m → ∀ g ∈ groups, m.columnTypes.length = g.length := by
  have each : ∀ g ∈ groups, ∃ mapping, c.mapping o.type? = .ok mapping ∧
      ∀ m, mapping = some m → m.columnTypes.length = g.length := by
    intro g mem
    obtain ⟨before, visited, visit, owner, typed⟩ := scene_of_owner lowered found mem
    have reached : visited ∈ s.visits expansions := by
      rw [← scenes_occurrences expansions l.source s]
      exact List.mem_map_of_mem (f := Prod.snd) visit
    obtain ⟨mapping, resolved, columns⟩ :=
      mapping_of_typedBy (source ▸ rooted) (source ▸ scenes_grown visit) typed
    rw [alike visited reached owner] at resolved
    rw [List.length_map] at columns
    exact ⟨mapping, resolved, columns⟩
  -- Every group comes to a mapping on its own, and it is one mapping that all of them come to.
  obtain ⟨first, mem⟩ := List.exists_mem_of_ne_nil _ (groups?_ne_nil found)
  obtain ⟨mapping, resolved, -⟩ := each first mem
  refine ⟨mapping, resolved, fun m same g mem => ?_⟩
  obtain ⟨again, resolvedAgain, columns⟩ := each g mem
  obtain rfl := Except.ok.inj (resolved.symm.trans resolvedAgain)
  exact columns m same

end

/-- A store without a value for any parameter of a table. -/
def Store.Unbound (store : Store) (t : OccurrenceTable) : Prop :=
  ∀ e ∈ t.entries, ∃ b, store.find? e.parameter.key = some b ∧ b.value = .unbound

/-- Before anything is bound, nothing has a value. -/
theorem Store.Unbound.ofTable (s : Statement) :
    (Store.ofTable (.ofStatement s)).Unbound (.ofStatement s) := by
  intro e listed
  obtain ⟨key, found⟩ := KeyedList.mem_values_iff.mp listed
  obtain rfl := (OccurrenceTable.entry_visits found).1
  refine ⟨⟨e.parameter, .unbound, none⟩, KeyedList.mem_entries_iff.mp ?_, rfl⟩
  exact List.mem_map.mpr ⟨(e.parameter.key, e), KeyedList.mem_entries_iff.mpr found, rfl⟩

/-- What a plan for unbound parameters binds a slot to is a placeholder. -/
theorem placeholder_of_unbound {c : Context} {t : OccurrenceTable} {store : Store} {p : Plan} {n : Nat}
    {slot : SlotBinding} (unbound : store.Unbound t) (built : buildPlan c t store = .ok p)
    (found : p.find? n = some slot) : slot = .placeholder := by
  obtain ⟨e, listed, o, -, b, fs, known, ⟨slots, -, fill⟩, f, mem, write⟩ := buildPlan_filled built found
  obtain ⟨again, knownAgain, value⟩ := unbound e listed
  obtain rfl := Option.some.inj (known.symm.trans knownAgain)
  cases fill with
  | unbound _ =>
    obtain ⟨group, -, rfl⟩ := List.mem_map.mp mem
    rw [Filling.unfilled, Filling.writes_ofSlots] at write
    obtain ⟨_, -, same⟩ := List.mem_map.mp write
    cases same
    rfl
  | single bound | multi bound =>
    rw [value] at bound
    contradiction

theorem leftover_of_unexpanded {x : SlotIndex} {t : OccurrenceTable} {store : Store}
    {lookup : SlotIndex.Lookup} (indexed : SlotIndex.build t lookup = .ok x)
    (unexpanded : ∀ id, t.expansions id = []) : leftoverSlots x t store = [] := by
  refine List.eq_nil_iff_forall_not_mem.mpr fun n left => ?_
  obtain ⟨e, -, -, o, -, slots, found, numbered⟩ := mem_leftoverSlots_iff.mp left
  obtain ⟨-, -, -, -, filed⟩ := SlotIndex.build_filed indexed found
  rw [filed.eq_nil_of_unexpanded (unexpanded o.id)] at numbered
  contradiction

section
variable {v : Interpretation.Services} {s : Statement} {w w' : Workspace} {i : Interpretation}
  {c : Context} (plain : ∀ o ∈ s.parameters, o.expands = none)
  (alike : ∀ o ∈ s.parameters, ∀ other ∈ s.parameters, o.id = other.id → o.type? = other.type?)
  (single : ∀ path ∈ s.paths, path.isRoot = true)
  (built : Interpretation.build v s (.ofStatement s) w = .ok i w')
  (model : c.model = v.model) (source : c.source = i.lowered.source)
include plain alike single built model source

/-- The copy that was lowered has the statement's occurrences and the paths of its sources. -/
theorem mapping_of_build {o : Occurrence} {groups : List (List Slot)} (member : o ∈ s.parameters)
    (found : i.lowered.ledger.groups? o.id = some groups) : ∃ mapping, c.mapping o.type? = .ok mapping ∧
      ∀ m, mapping = some m → ∀ g ∈ groups, m.columnTypes.length = g.length := by
  obtain ⟨⟨_, _, lowered⟩, -, -⟩ := Interpretation.build_ok built
  have rooted : i.lowered.source.Rooted :=
    lowerStatement_rooted lowered fun path mem => single path (copy_paths s w ▸ mem)
  refine mapping_of_groups (model ▸ lowered) source rooted (fun visited visit same => ?_) found
  rcases Statement.reached_of_visits visit with own | ⟨original, -, expansion⟩
  · exact alike visited (copy_parameters s w visited own) o member same
  · rw [OccurrenceTable.expansions_of_plain plain] at expansion
    contradiction

/-- Nothing stands in the way of a plan: whatever was held open before, the slots of an occurrence are
free and as many as the columns of its type. -/
theorem unbound_buildPlan {store : Store} (index : c.index = i.index)
    (prepared : Prepared s (.ofStatement s) i.lowered i.index)
    (unbound : store.Unbound (.ofStatement s)) : ∃ p, buildPlan c (.ofStatement s) store = .ok p := by
  refine buildPlan_total (fun e listed => ?_) fun e listed b o member q reaches => ?_
  · obtain ⟨b, known, -⟩ := unbound e listed
    exact ⟨b, known⟩
  · obtain ⟨again, known, value⟩ := unbound e listed
    obtain rfl := Option.some.inj (reaches.known.symm.trans known)
    obtain ⟨slots, filed, filing⟩ := SlotIndex.build_files prepared.indexed listed member
    have groups : c.groups e.parameter.key o = .ok slots.groups :=
      groups_ok.mpr ⟨slots, index ▸ filing, rfl⟩
    have parameter := OccurrenceTable.mem_parameters_of_mem_entry listed member
    obtain ⟨mapping, typed, fits⟩ :=
      mapping_of_build plain alike single built model source parameter filed.groups
    rw [bindOccurrence_unbound groups value typed]
    refine bindUnbound_total fits ?_
    exact reaches.free rfl prepared.numbers_nodup (index ▸ prepared.indexed)
      (fun _ _ expansion => (prepared.expands.apart expansion o parameter).symm) filed.groups

end

/-- A statement without expansions is interpreted by its own table. Each of its sources has a path of one
segment, and occurrences of one identity have one type, as they do where identities are their own. Then with
no parameter bound its plan can be built whatever the state of the workspace, and holds every slot that
was allocated open, once. -/
theorem unbound_plan_holds_slots_open {v : Interpretation.Services} {s : Statement}
    {w w' : Workspace} {i : Interpretation} {store : Store}
    (plain : ∀ o ∈ s.parameters, o.expands = none)
    (alike : ∀ o ∈ s.parameters, ∀ other ∈ s.parameters, o.id = other.id → o.type? = other.type?)
    (single : ∀ path ∈ s.paths, path.isRoot = true)
    (built : Interpretation.build v s (.ofStatement s) w = .ok i w')
    (unbound : store.Unbound (.ofStatement s)) :
    ∃ p, (∀ x, i.createBindings v.model store (.ofStatement s) x =
        .ok p (x.report (.planBuilt p.size))) ∧
      p.slots.Perm (List.range i.lowered.ledger.slotCount) ∧
      ∀ n < i.lowered.ledger.slotCount, p.find? n = some .placeholder := by
  have prepared : Prepared s (.ofStatement s) i.lowered i.index :=
    prepared_of_build plain (.of_statement plain) built
  obtain ⟨p, planned⟩ : ∃ p, buildPlan ⟨v.model, i.lowered.source, i.index, v.model.catalog⟩
      (.ofStatement s) store = .ok p :=
    unbound_buildPlan plain alike single built rfl rfl rfl prepared unbound
  have slots : ∀ n, n ∈ p.slots ↔ n < i.lowered.ledger.slotCount := by
    intro n
    have nothing : leftoverSlots i.index (.ofStatement s) store = [] :=
      leftover_of_unexpanded prepared.indexed (OccurrenceTable.expansions_of_plain plain)
    rw [prepared.mem_plan_iff rfl planned, nothing, prepared.mem_index_iff_allocated]
    obtain ⟨os, places, -⟩ := prepared.places
    rw [places.numbered, slotCount_eq, places.numbered, List.length_range]
    simp
  refine ⟨p, fun x => ?_, ?_, fun n allocated => ?_⟩
  · rw [Interpretation.createBindings, Interpretation.classify, createPlan, planned]
  · apply (List.perm_ext_iff_of_nodup p.slots_nodup List.nodup_range).mpr
    intro n
    rw [slots, List.mem_range]
  · obtain ⟨slot, found⟩ := Plan.mem_slots_iff.mp ((slots n).mpr allocated)
    rw [found, placeholder_of_unbound unbound planned found]

/-! Parameters of two sources of rows, one of them typed by a column of the other. -/
namespace Held
open Rebound (long model builder)
open Compared (paid price five numberedAlike)

/-- A price takes two slots and a count one. Under one number they are filed together, and the table has the
first of them alone: to hold its two columns open, two slots are asked for where there is one. -/
theorem numbered_alike_is_refused :
    ∃ (i : Interpretation) (w : Workspace),
      numberedAlike.parameters.map Occurrence.expands = [none, none] ∧ numberedAlike.paths = [] ∧
        Interpretation.build ⟨model, .default⟩ numberedAlike (.ofStatement numberedAlike) .empty = .ok i w ∧
        i.lowered.ledger.groups? 0 = some [[⟨0, some .bigInt⟩, ⟨1, some .char⟩], [⟨2, some .smallInt⟩]] ∧
        i.createBindings model (.ofTable (.ofStatement numberedAlike)) (.ofStatement numberedAlike) w =
          .error (BindingError.toFailure (.slotCountMismatch ":price" 1 2)) w :=
  ⟨_, _, rfl, rfl, rfl, rfl, rfl⟩

def amounts : Path := ⟨["amounts"], by simp, by decide⟩

def copies : Path := ⟨["copies"], by simp, by decide⟩

/-- Of the type that the amounts have. -/
def amount : Occurrence :=
  (builder.occurrence ⟨.named "amount", none, false⟩
    (some (.path ⟨⟨["amounts", "c"], by simp, by decide⟩, .long⟩)) none).1

def due : Occurrence :=
  ((builder.occurrence ⟨.named "amount", none, false⟩ none none).2.occurrence price
    (some (.mapped paid)) none).1

/-- When the amount is lowered in its row only the first rows are there, and all of them when it is
lowered again in the restriction. -/
def statement : Statement :=
  .select ⟨[], [⟨amounts, ["c"], [[.literal 0 (.long 7) (.basic long)]]⟩,
      ⟨copies, ["d"], [[.parameter 1 amount]]⟩], [],
    some (.and [.comparison (.literal 2 (.long 5) (.basic long)) .equal (.parameter 3 amount),
      .comparison (.literal 4 five (.mapped paid)) .equal (.parameter 5 due)])⟩

theorem four_slots_held_open :
    ∃ (i : Interpretation) (p : Plan) (w w' : Workspace),
      Interpretation.build ⟨model, .default⟩ statement (.ofStatement statement) .empty = .ok i w ∧
      i.createBindings model (.ofTable (.ofStatement statement)) (.ofStatement statement) w =
        .ok p w' ∧
      p.slots.Perm [0, 1, 2, 3] ∧ ∀ n < 4, p.find? n = some ⟨none, .null⟩ := by
  have parameters : statement.parameters = [amount, amount, due] := rfl
  have paths : statement.paths = [amounts, copies] := rfl
  have listed : ∀ o ∈ statement.parameters, o = amount ∨ o = due := by simp [parameters]
  have plain : ∀ o ∈ statement.parameters, o.expands = none := by
    intro o mem
    rcases listed o mem with rfl | rfl <;> rfl
  have single : ∀ path ∈ statement.paths, path.isRoot = true := by
    rw [paths]
    decide
  have alike : ∀ o ∈ statement.parameters, ∀ other ∈ statement.parameters,
      o.id = other.id → o.type? = other.type? := by
    intro o mem other memOther same
    rcases listed o mem with rfl | rfl <;> rcases listed other memOther with rfl | rfl
    · rfl
    · cases same
    · cases same
    · rfl
  have built : Interpretation.build ⟨model, .default⟩ statement (.ofStatement statement) .empty =
    .ok _ _ := rfl
  obtain ⟨p, planned, slots, held⟩ :=
    unbound_plan_holds_slots_open plain alike single built (.ofTable statement)
  exact ⟨_, p, _, _, built, planned _, slots, held⟩

end Held

end SemanticQuery.Binding
