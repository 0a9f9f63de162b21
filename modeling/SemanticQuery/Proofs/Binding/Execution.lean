import SemanticQuery.Proofs.Binding.Calls
import SemanticQuery.Proofs.Query.Copies

/-! Executing an interpretation. Its parts come of one lowering, and after expansion for the values bound
every placeholder gets the call for its column. -/
namespace SemanticQuery
open Query Lowering Binding

namespace Interpretation
variable {v : Services} {s : Statement} {t : OccurrenceTable} {w w' : Workspace} {i : Interpretation}

theorem classify_ok {ε α : Type} {toFailure : ε → Failure} {x : EStateM ε Workspace α} {a : α}
    (ran : classify toFailure x w = .ok a w') : x w = .ok a w' := by
  unfold classify at ran
  split at ran
  next outcome =>
    cases ran
    exact outcome
  · contradiction

/-- A statement's interpretation comes of lowering a copy of it. -/
theorem build_ok (built : build v s t w = .ok i w') :
    (∃ w₁ w₂, lowerStatement v.model v.settings.strictParameterTyping t.expansions
      (copyInto s.copy .empty w).1 w₁ = .ok i.lowered w₂) ∧
    SlotIndex.build t i.lowered.ledger.groups? = .ok i.index ∧
    i.rendered = i.lowered.statement.render := by
  obtain ⟨lowered, w₂, ran, built⟩ := run_bind_ok.mp built
  have copied := classify_ok ran
  cases outcome : SlotIndex.build t lowered.ledger.groups? with
  | error e =>
    rw [outcome] at built
    contradiction
  | ok index =>
    rw [outcome] at built
    cases built
    exact ⟨⟨_, _, copied⟩, outcome, rfl⟩

theorem createBindings_ok {model : Model} {store : Store} {p : Plan}
    (planned : i.createBindings model store t w = .ok p w') :
    buildPlan ⟨model, i.lowered.source, i.index, model.catalog⟩ t store = .ok p := by
  have ran := classify_ok planned
  unfold createPlan at ran
  split at ran
  next built =>
    cases ran
    exact built
  · contradiction

end Interpretation

namespace Binding
variable {s : Statement} {t t₀ : OccurrenceTable} {store : Store} {b b' : Builder}

/-- The copy that is lowered has the statement's occurrences, so an interpretation is prepared where
the statement is. -/
theorem prepared_of_build {v : Interpretation.Services} {w w' : Workspace} {i : Interpretation}
    (plain : ∀ o ∈ s.parameters, o.expands = none) (expands : Expands s t)
    (built : Interpretation.build v s t w = .ok i w') : Prepared s t i.lowered i.index := by
  obtain ⟨⟨_, _, lowered⟩, indexed, -⟩ := Interpretation.build_ok built
  refine ⟨plain, expands, ⟨_, lowerStatement_places lowered, fun o visit => ?_⟩, indexed⟩
  exact (Statement.reached_of_visits visit).mono (copy_parameters s w)

/-- Right after expansion nothing is left of expansions for values bound before. -/
theorem leftover_of_expansion {x : SlotIndex} {lookup : SlotIndex.Lookup}
    (parameters : t₀.parameters = (OccurrenceTable.ofStatement s).parameters)
    (expanded : expandMultiValued store ⟨t₀, b⟩ = .ok () ⟨t, b'⟩)
    (indexed : SlotIndex.build t lookup = .ok x) : leftoverSlots x t store = [] := by
  obtain ⟨kept, made, -, -, stands, expansions⟩ := expandMultiValued_ok expanded
  have entriesBefore : t₀.entries = (OccurrenceTable.ofStatement s).entries :=
    congrArg KeyedList.values parameters
  have entries : t.entries = (OccurrenceTable.ofStatement s).entries :=
    congrArg KeyedList.values (kept.trans parameters)
  refine List.eq_nil_iff_forall_not_mem.mpr fun n left => ?_
  obtain ⟨e, listed, left, o, member, slots, found, numbered⟩ := mem_leftoverSlots_iff.mp left
  obtain ⟨-, -, -, -, filed⟩ := SlotIndex.build_filed indexed found
  have none : t.expansions o.id = [] := by
    refine List.eq_nil_iff_forall_not_mem.mpr fun expansion mem => ?_
    rw [expansions, List.mem_filter] at mem
    obtain ⟨other, listedOther, twin, memberOther, standsIn⟩ := stands expansion mem.1
    have same : some twin.id = some o.id := standsIn.expands.symm.trans (of_decide_eq_true mem.2)
    rw [entries] at listed
    rw [entriesBefore] at listedOther
    obtain ⟨rfl, -⟩ :=
      OccurrenceTable.entry_unique listedOther listed memberOther member (Option.some.inj same)
    obtain ⟨binding, known, several⟩ := standsIn.several
    simp [known, several] at left
  rw [filed.eq_nil_of_unexpanded none] at numbered
  contradiction

theorem groups_nonempty {l : Ledger} {id : OccurrenceId} {slots : OccurrenceSlots}
    (filed : SlotIndex.Filed t l.groups? id slots) :
    ∀ g ∈ slots.groups :: slots.expansions, g ≠ [] := by
  refine List.forall_mem_cons.mpr ⟨groups?_ne_nil filed.groups, fun groups mem => ?_⟩
  have found : some groups ∈ (t.expansions id).map fun e => l.groups? e.id :=
    filed.expansions ▸ List.mem_map_of_mem mem
  obtain ⟨e, -, allocated⟩ := List.mem_map.mp found
  exact groups?_ne_nil allocated

section
variable {c : Context} {l : Ledger} {p : Plan}

/-- Every slot that a plan binds is a column of a group that takes some value. -/
theorem exists_column {n : Nat} (indexed : SlotIndex.build t l.groups? = .ok c.index)
    (built : buildPlan c t store = .ok p) (bound : n ∈ p.slots) :
    ∃ binding o group value j slot,
      BoundColumn t l store binding o group value j slot ∧ slot.number = n := by
  obtain ⟨sb, found⟩ := Plan.mem_slots_iff.mp bound
  obtain ⟨e, listed, o, member, binding, fs, known, ⟨slots, filing, fill⟩, f, mem, write⟩ :=
    buildPlan_filled built found
  obtain ⟨-, -, -, -, filed⟩ := SlotIndex.build_filed indexed filing
  rw [filed.count] at fill
  obtain ⟨value, takes⟩ := fill.exists_takes (groups_nonempty filed) mem
  obtain ⟨slot, column, numbered⟩ := List.mem_map.mp (Filling.number_of_write write)
  obtain ⟨j, column⟩ := List.mem_iff_getElem?.mp column
  exact ⟨binding, o, f.group, value, j, slot,
    ⟨⟨e, listed, member, known⟩, ⟨slots, filed, takes⟩, column⟩, numbered⟩

/-- The plan binds a column to what makes the call for the value its group takes. -/
theorem BoundColumn.columnCall {binding : ParameterBinding} {o : Occurrence} {group : List Slot}
    {value : Option Value} {j : Nat} {slot : Slot} (catalog : c.catalog = c.model.catalog)
    (indexed : SlotIndex.build t l.groups? = .ok c.index) (built : buildPlan c t store = .ok p)
    (bound : BoundColumn t l store binding o group value j slot) (target : Target) :
    ∃ sb, p.find? slot.number = some sb ∧
      ColumnCall c.model c.source binding o target group j value (callFor target sb) := by
  obtain ⟨⟨e, listed, member, known⟩, ⟨slots, filed, takes⟩, column⟩ := bound
  obtain ⟨again, fs, knownAgain, ⟨found, filing, fill⟩, written⟩ :=
    buildPlan_fills built listed member
  obtain rfl := Option.some.inj (known.symm.trans knownAgain)
  obtain ⟨-, -, -, -, filedAgain⟩ := SlotIndex.build_filed indexed filing
  obtain rfl := filed.unique filedAgain
  rw [filed.count] at fill
  obtain ⟨f, mem, rfl, fits⟩ := fill.fits (groups_nonempty filed) takes
  obtain ⟨sb, filling, write⟩ := Filling.write_of_column column
  exact ⟨sb, written f mem _ write, fits.columnCall catalog column filling target⟩

end

/-- Whatever is bound: after expansion for it, which leaves the builder's numbers in range, a statement that is
interpreted and planned for is bound with one call for each placeholder, in order. Every placeholder stands
for a column of a slot group, and its call is the one for that column and the value that the group takes. -/
theorem calls_follow_values {os : List Occurrence} {v : Interpretation.Services} {w x y z : Workspace}
    {i : Interpretation} {p : Plan} (made : b.Made os)
    (own : ∀ o ∈ s.parameters, o ∈ os ∧ o.expands = none)
    (parameters : t₀.parameters = (OccurrenceTable.ofStatement s).parameters)
    (expanded : expandMultiValued store ⟨t₀, b⟩ = .ok () ⟨t, b'⟩) (range : b'.InRange)
    (built : Interpretation.build v s t w = .ok i x)
    (planned : i.createBindings v.model store t y = .ok p z) :
    ∃ calls : List Call, (∀ (σ : Type) (sink : Sink σ), i.bind p sink = sink.feed calls) ∧
      calls.map Call.target = (List.range' 1 i.rendered.slots.length).map .position ∧
      (∀ n ∈ i.rendered.slots, ∃ binding o group value j slot,
        BoundColumn t i.lowered.ledger store binding o group value j slot ∧ slot.number = n) ∧
      ∀ {binding o group value j slot k},
        BoundColumn t i.lowered.ledger store binding o group value j slot →
        i.rendered.slots[k]? = some slot.number → ∃ call, calls[k]? = some call ∧
          ColumnCall v.model i.lowered.source binding o (.position (1 + k)) group j value call := by
  have plan := Interpretation.createBindings_ok planned
  obtain ⟨-, indexed, rendered⟩ := Interpretation.build_ok built
  have below : ∀ o ∈ s.parameters, o.id.toNat < b.made := fun o mem => made.id_lt (own o mem).1
  have prepared : Prepared s t i.lowered i.index :=
    prepared_of_build (fun o mem => (own o mem).2) (.of_expansion below parameters expanded range) built
  have bound : ∀ n ∈ i.rendered.slots, n ∈ p.slots := by
    intro n mem
    rw [rendered] at mem
    rw [prepared.mem_plan_iff rfl plan, leftover_of_expansion parameters expanded indexed]
    exact ⟨prepared.rendered_indexed mem, List.not_mem_nil⟩
  obtain ⟨calls, feeds, targets, each⟩ := Plan.applyFrom_feeds bound 1
  refine ⟨calls, feeds, targets, fun n mem => exists_column indexed plan (bound n mem), ?_⟩
  intro binding o group value j slot k column placeholder
  obtain ⟨sb, known, call⟩ := each placeholder
  obtain ⟨same, found, made⟩ := column.columnCall rfl indexed plan (.position (1 + k))
  obtain rfl := Option.some.inj (known.symm.trans found)
  exact ⟨_, call, made⟩

namespace Rebound

def twice : Store := ⟨.ofList [(ids.key, ⟨ids, .multi [.long 1, .long 2], none⟩)]⟩

/-- Each of two values is bound where its column stands. -/
theorem two_values_make_two_calls :
    ∃ (after : Expanding) (i : Interpretation) (p : Plan) (w w' : Workspace),
      expandMultiValued twice ⟨.ofStatement statement, (builder.occurrence ids none none).2⟩ =
        .ok () after ∧
      Interpretation.build ⟨model, .default⟩ statement after.table .empty = .ok i w ∧
      i.createBindings model twice after.table .empty = .ok p w' ∧
      ∃ calls : List Call, (∀ (σ : Type) (sink : Sink σ), i.bind p sink = sink.feed calls) ∧
        calls.map Call.target = [.position 1, .position 2] := by
  have made := (Builder.Made.new .empty .empty).occurrence ids none none
  have own : ∀ o ∈ statement.parameters,
      o ∈ [] ++ [(builder.occurrence ids none none).1] ∧ o.expands = none := by
    intro o mem
    obtain rfl := List.mem_singleton.mp mem
    exact ⟨List.mem_singleton_self _, rfl⟩
  have expanded : expandMultiValued twice
      ⟨.ofStatement statement, (builder.occurrence ids none none).2⟩ = .ok () _ := rfl
  refine ⟨_, _, _, _, _, expanded, rfl, rfl, ?_⟩
  exact Exists.imp (fun calls => And.imp_right And.left)
    (calls_follow_values (v := ⟨model, .default⟩) (y := .empty) made own rfl expanded (by decide) rfl rfl)

end Rebound

end Binding

end SemanticQuery
