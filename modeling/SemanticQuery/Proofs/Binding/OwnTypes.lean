import SemanticQuery.Proofs.Binding.Reaching
import SemanticQuery.Proofs.Binding.Width

/-! Occurrences with a type of their own. Their slots have the columns of the mapping their type has
where they are lowered; a value is decomposed by the mapping of the type it is bound by. Where the two
are one, column values and slots match. -/
namespace SemanticQuery.Binding
open Query Lowering

/-- Without a type given with the value, the declared type goes before the anticipated one. -/
theorem bindType_of_untyped {b : ParameterBinding} {o : Occurrence} {type : ExprType}
    (catalog : Catalog) (untyped : b.type = none)
    (typed : o.parameter.declared.or o.anticipated = some type) :
    bindType b o catalog = some type := by
  rw [bindType, untyped]
  cases declared : o.parameter.declared with
  | some first =>
    rw [declared] at typed
    exact typed
  | none =>
    rw [declared, Option.none_or] at typed
    rw [typed]

section
variable {s : Statement} {t : OccurrenceTable} {model : Model} {strict : Bool}
  {w w' : Workspace} {l : Lowered} {o : Occurrence} {groups : List (List Slot)} {group : List Slot}

/-- A group looked up under an identity was allocated where an occurrence of that identity stands. -/
theorem scene_of_owner {expansions : OccurrenceId → List Occurrence} {id : OccurrenceId}
    (lowered : lowerStatement model strict expansions s w = .ok l w')
    (found : l.ledger.groups? id = some groups) (mem : group ∈ groups) :
    ∃ source visited, (source, visited) ∈ scenes expansions l.source s ∧ visited.id = id ∧
      TypedBy model source visited (group.map Slot.type) := by
  obtain ⟨matched, -, -⟩ := lowerStatement_allots lowered
  obtain ⟨⟨source, visited⟩, visit, owner, typed⟩ := forall₂_mem matched.flip (mem_of_groups? found mem)
  exact ⟨source, visited, visit, owner.symm, typed⟩

/-- A group looked up for an occurrence whose identity is its own was allocated for that one. -/
theorem scene_of_group (identity : OwnIdentity s t o)
    (lowered : lowerStatement model strict t.expansions s w = .ok l w')
    (found : l.ledger.groups? o.id = some groups) (mem : group ∈ groups) :
    ∃ source, (source, o) ∈ scenes t.expansions l.source s ∧
      TypedBy model source o (group.map Slot.type) := by
  obtain ⟨source, visited, visit, owner, typed⟩ := scene_of_owner lowered found mem
  have reached : visited ∈ s.visits t.expansions := by
    rw [← scenes_occurrences t.expansions l.source s]
    exact List.mem_map_of_mem (f := Prod.snd) visit
  have same : visited = o := by
    rcases Statement.reached_of_visits reached with own | ⟨original, -, expansion⟩
    · exact identity.alone visited own owner
    · exact absurd owner (identity.apart _ visited expansion)
  subst same
  exact ⟨source, visit, typed⟩

/-- Where the own type of an occurrence has a mapping, its slots are the columns of the mapping. -/
theorem types_of_own {source : Sql.FromClause} {type : ExprType} {m : Mapping}
    {types : List (Option ColumnType)} (typed : o.type? = some type)
    (resolved : model.resolveMapping source type = .ok (some m))
    (by_lowering : TypedBy model source o types) : types = m.columnTypes.map some := by
  cases by_lowering with
  | own again mapping =>
    obtain rfl := Option.some.inj (typed.symm.trans again)
    rw [resolved] at mapping
    cases mapping
    rfl
  | context _ bare | untyped bare =>
    have none := bare type typed
    rw [resolved] at none
    cases none

end

/-- Occurrences whose own type comes to a mapping wherever they are lowered, and whose declared type, or
else anticipated one, comes to the same mapping when they are bound, by a table of the statement that was
expanded in whatever way but has no other occurrence of their identity. A single value that is not null and
has no type given with it is refused with the mapping's error if it does not fit the mapping. If it
fits, the occurrence is bound whatever was bound before it, and the plan has its column values at the
slots of each group, under the types that the slots were recorded with. -/
theorem own_type_fills_slots {s : Statement} {t t' : OccurrenceTable} {store : Store} {model : Model}
    {strict : Bool} {w w' : Workspace} {l : Lowered} {i : SlotIndex} {catalog : Catalog} {e : ParameterEntry}
    {o : Occurrence} {binding : ParameterBinding} {v : Value} {type bound : ExprType} {m : Mapping}
    (parameters : t.parameters = (OccurrenceTable.ofStatement s).parameters)
    (kept : t'.parameters = t.parameters) (identity : OwnIdentity s t o)
    (lowered : lowerStatement model strict t.expansions s w = .ok l w')
    (indexed : SlotIndex.build t l.ledger.groups? = .ok i) (listed : e ∈ t'.entries)
    (member : o ∈ e.occurrences) (known : store.find? e.parameter.key = some binding)
    (value : binding.value = .single v) (notNull : v.isNull = false) (untyped : binding.type = none)
    (typed : o.type? = some type) (resolved : ∀ source,
      (source, o) ∈ scenes t.expansions l.source s →
        model.resolveMapping source type = .ok (some m))
    (boundBy : o.parameter.declared.or o.anticipated = some bound)
    (resolvedAgain : model.resolveMapping l.source bound = .ok (some m)) :
    (∀ error, m.decompose v = .error error → ∀ q,
      Reaches ⟨model, l.source, i, catalog⟩ t' store e binding o q →
        buildPlan ⟨model, l.source, i, catalog⟩ t' store = .error (.mapping error)) ∧
    ∀ values, m.decompose v = .ok values →
      (∀ q, Reaches ⟨model, l.source, i, catalog⟩ t' store e binding o q →
        ∃ next, bindOccurrence ⟨model, l.source, i, catalog⟩ t' e.parameter.key binding o q =
          .ok next) ∧
      ∃ groups, l.ledger.groups? o.id = some groups ∧ ∀ g ∈ groups,
        g.map Slot.type = values.map (fun cv => some cv.type) ∧
        ∀ p, buildPlan ⟨model, l.source, i, catalog⟩ t' store = .ok p →
          p.FilledWith g values := by
  have entries : t'.entries = t.entries := congrArg KeyedList.values kept
  have recorded : t'.entries = (OccurrenceTable.ofStatement s).entries :=
    congrArg KeyedList.values (kept.trans parameters)
  have numbered : (numbers l.ledger.entries).Nodup :=
    (lowerStatement_places lowered).numbered ▸ List.nodup_range
  obtain ⟨slots, filed, filing⟩ := SlotIndex.build_files indexed (entries ▸ listed) member
  have mapping : Context.mapping ⟨model, l.source, i, catalog⟩ (bindType binding o catalog) =
      .ok (some m) := by
    rw [bindType_of_untyped catalog untyped boundBy]
    exact liftMapping_ok.mpr resolvedAgain
  have groups : Context.groups ⟨model, l.source, i, catalog⟩ e.parameter.key o = .ok slots.groups :=
    groups_ok.mpr ⟨slots, filing, rfl⟩
  have types : ∀ g ∈ slots.groups, g.map Slot.type = m.columnTypes.map some := by
    intro g mem
    obtain ⟨source, visit, by_lowering⟩ :=
      scene_of_group identity lowered filed.groups mem
    exact types_of_own typed (resolved source visit) by_lowering
  refine ⟨?_, fun values parts => ⟨?_, slots.groups, filed.groups, fun g mem => ⟨?_, ?_⟩⟩⟩
  · intro error refused q reaches
    refine reaches.buildPlan_error ?_
    rw [bindOccurrence_single groups value notNull mapping]
    exact bindSingle_error notNull (groups?_ne_nil filed.groups) refused
  · intro q reaches
    rw [bindOccurrence_single groups value notNull mapping]
    refine bindSingle_total notNull parts (fun g mem => ?_)
      (reaches.free recorded numbered indexed identity.apart filed.groups)
    have lengths := congrArg List.length (types g mem)
    rw [List.length_map, List.length_map, ← Mapping.decompose_length parts] at lengths
    exact lengths
  · rw [types g mem, ← m.decompose_types v parts, List.map_map]
    rfl
  · intro p built
    obtain ⟨m', values', typedAgain, partsAgain, filled⟩ :=
      single_filled built listed member known value notNull filing mem
    rw [mapping] at typedAgain
    cases typedAgain
    rw [parts] at partsAgain
    cases partsAgain
    exact filled

/-! One parameter with a type of its own, compared with a literal. -/
namespace Compared
open Rebound (long model builder)

def short : BasicType := ⟨"short", .short, .smallInt⟩

def occurrence (parameter : Parameter) (anticipated : ExprType) : Occurrence :=
  (builder.occurrence parameter (some anticipated) none).1

/-- A selection of nothing where a literal is what the parameter is. -/
def statement (literal : Value) (o : Occurrence) (type : ExprType) : Statement :=
  .select ⟨[], [], [], some (.comparison (.literal 0 literal type) .equal (.parameter 1 o))⟩

def start (s : Statement) (parameter : Parameter) (anticipated : ExprType) : BindingState :=
  .start s (builder.occurrence parameter (some anticipated) none).2

/-- Declared wide; where it stands, something narrow is expected. -/
def count : Parameter := ⟨.named "count", some (.basic long), false⟩

/-- An amount and whether it is paid, in two columns, one of them converted. -/
def paid : Mapping :=
  .embedded "Paid" [("amount", .basic long), ("paid", .converted .yesNo ⟨"character", .character, .char⟩)]

def price : Parameter := ⟨.named "price", none, false⟩

def five : Value := .composite [.long 5, .bool true]

/-- An amount that is paid is a price, and seven is a count. The two are numbered by builders of their own, so
their numbers are the same. -/
def numberedAlike : Statement :=
  .select ⟨[], [], [], some (.and [
    .comparison (.literal 0 five (.mapped paid)) .equal (.parameter 1 (occurrence price (.mapped paid))),
    .comparison (.literal 2 (.short 7) (.basic short)) .equal (.parameter 3 (occurrence count (.basic short)))])⟩

/-- The second occurrence of a count, made to expand the first. -/
def furtherCount : Occurrence :=
  ((builder.occurrence count none none).2.occurrence count none (some 0)).1

/-- Both occurrences of a count stand in the statement. -/
def expandedWithin : Statement :=
  .select ⟨[], [], [], some (.and [
    .comparison (.literal 0 (.long 7) (.basic long)) .equal (.parameter 1 (builder.occurrence count none none).1),
    .comparison (.literal 2 (.long 7) (.basic long)) .equal (.parameter 3 furtherCount)])⟩

/-- The type that is expected decides the slot and the declared one the binding. Occurrences of one number have
their slots filed together, and the value of one does not fit those of the other. And an expansion that stands in
the statement has a slot, but no part in a single value. -/
theorem declared_type_takes_the_slot :
    (∃ (l : Lowered) (w : Workspace) (i : SlotIndex) (p : Plan),
      let o := occurrence count (.basic short)
      let s := statement (.short 7) o (.basic short)
      let x := (start s count (.basic short)).step (.bind count.key (.short 7))
      lowerStatement model true x.table.expansions s .empty = .ok l w ∧
        SlotIndex.build x.table l.ledger.groups? = .ok i ∧
        buildPlan ⟨model, l.source, i, .empty⟩ x.table x.store = .ok p ∧
        o.type? = some (.basic short) ∧
        model.resolveMapping l.source (.basic short) = .ok (some (.basic short)) ∧
        (Mapping.basic short).decompose (.short 7) = .ok [⟨.smallInt, .short 7⟩] ∧
        l.ledger.groups? o.id = some [[⟨0, some .smallInt⟩]] ∧
        p.find? 0 = some ⟨some .bigInt, .short 7⟩ ∧
        ¬p.FilledWith [⟨0, some .smallInt⟩] [⟨.smallInt, .short 7⟩]) ∧
    (∃ (l : Lowered) (w : Workspace) (i : SlotIndex),
      let o := occurrence price (.mapped paid)
      let x := (BindingState.start numberedAlike builder).step (.bind price.key five)
      lowerStatement model true x.table.expansions numberedAlike .empty = .ok l w ∧
        SlotIndex.build x.table l.ledger.groups? = .ok i ∧
        o.type? = some (.mapped paid) ∧ o.parameter.declared = none ∧
        paid.decompose five = .ok [⟨.bigInt, .long 5⟩, ⟨.char, .char 'Y'⟩] ∧
        l.ledger.groups? o.id = some [[⟨0, some .bigInt⟩, ⟨1, some .char⟩], [⟨2, some .smallInt⟩]] ∧
        buildPlan ⟨model, l.source, i, .empty⟩ x.table x.store = .error (.slotCountMismatch ":price" 1 2)) ∧
    ∃ (l : Lowered) (w : Workspace) (i : SlotIndex) (p : Plan),
      let x := (BindingState.start expandedWithin builder).step (.bind count.key (.long 7))
      lowerStatement model true x.table.expansions expandedWithin .empty = .ok l w ∧
        SlotIndex.build x.table l.ledger.groups? = .ok i ∧
        buildPlan ⟨model, l.source, i, .empty⟩ x.table x.store = .ok p ∧
        furtherCount.type? = some (.basic long) ∧
        l.ledger.groups? furtherCount.id = some [[⟨1, some .bigInt⟩]] ∧
        ¬p.FilledWith [⟨1, some .bigInt⟩] [⟨.bigInt, .long 7⟩] := by
  refine ⟨⟨_, _, _, _, rfl, rfl, rfl, rfl, rfl, rfl, rfl, rfl, ?_⟩,
    ⟨_, _, _, rfl, rfl, rfl, rfl, rfl, rfl, rfl⟩, _, _, _, _, rfl, rfl, rfl, rfl, rfl, ?_⟩
  all_goals
    intro filled
    cases filled

theorem composite_fills_its_slots :
    ∃ (l : Lowered) (w : Workspace) (i : SlotIndex) (p : Plan) (groups : List (List Slot)),
      let o := occurrence price (.mapped paid)
      let s := statement five o (.mapped paid)
      let x := start s price (.mapped paid)
      let y := x.run [.bind price.key five]
      lowerStatement model true x.table.expansions s .empty = .ok l w ∧
        SlotIndex.build x.table l.ledger.groups? = .ok i ∧
        buildPlan ⟨model, l.source, i, .empty⟩ y.table y.store = .ok p ∧
        l.ledger.groups? o.id = some groups ∧ groups ≠ [] ∧
        ∀ g ∈ groups, g.map Slot.type = [some .bigInt, some .char] ∧
          p.FilledWith g [⟨.bigInt, .long 5⟩, ⟨.char, .char 'Y'⟩] := by
  have made := (Builder.Made.new .empty .empty).occurrence price (some (.mapped paid)) none
  have own : ∀ o ∈ (statement five (occurrence price (.mapped paid)) (.mapped paid)).parameters,
      o ∈ [] ++ [occurrence price (.mapped paid)] ∧ o.expands = none := by
    intro o mem
    obtain rfl := List.mem_singleton.mp mem
    exact ⟨List.mem_singleton_self _, rfl⟩
  have identity := (BindingState.consistent_start made own).ownIdentity (by decide) List.mem_cons_self
  let x := start (statement five (occurrence price (.mapped paid)) (.mapped paid)) price (.mapped paid)
  obtain ⟨-, fits⟩ := @own_type_fills_slots _ x.table x.table (x.run [.bind price.key five]).store model true
    .empty _ _ _ .empty _ _ _ five (.mapped paid) (.mapped paid) paid rfl rfl identity rfl rfl List.mem_cons_self
    List.mem_cons_self rfl rfl rfl rfl rfl (fun _ _ => rfl) rfl rfl
  obtain ⟨-, groups, found, filled⟩ := fits _ rfl
  refine ⟨_, _, _, _, groups, rfl, rfl, rfl, found, groups?_ne_nil found, ?_⟩
  intro g mem
  obtain ⟨types, all⟩ := filled g mem
  exact ⟨types, all _ rfl⟩

end Compared

end SemanticQuery.Binding
