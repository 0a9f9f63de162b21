import SemanticQuery.Interpretation
import SemanticQuery.Proofs.Binding.Coverage
import SemanticQuery.Proofs.Query.Copies

/-! The calls that execute an interpretation. After expansion for the values bound, every placeholder
gets one call, and the call for a column of a slot group is settled by the value the group takes. -/
namespace SemanticQuery.Binding
open Query Lowering

/-- The value a slot group of an occurrence takes, if its parameter is bound: of several values the first
goes to the groups of the occurrence itself and each later one to those of an expansion. -/
inductive Takes (s : OccurrenceSlots) : Bound → List Slot → Option Value → Prop
  | unbound {group : List Slot} (mem : group ∈ s.groups) : Takes s .unbound group none
  | single {group : List Slot} {v : Value} (mem : group ∈ s.groups) :
      Takes s (.single v) group (some v)
  | first {group : List Slot} {v : Value} {later : List Value} (mem : group ∈ s.groups) :
      Takes s (.multi (v :: later)) group (some v)
  | later {group : List Slot} {v w : Value} {later : List Value} {i : Nat}
      {groups : List (List Slot)} (behind : s.expansions[i]? = some groups) (mem : group ∈ groups)
      (value : later[i]? = some w) : Takes s (.multi (v :: later)) group (some w)

/-- The call for column `j` of a group: nothing is a null of no particular type, a null is one of the
slot's type, and any other value gives the part that its mapping decomposes it into for the column. -/
inductive ColumnCall (model : Model) (source : Sql.FromClause) (b : ParameterBinding) (o : Occurrence)
    (target : Target) (group : List Slot) (j : Nat) : Option Value → Call → Prop
  | unbound : ColumnCall model source b o target group j none (.null target .other)
  | null {v : Value} {slot : Slot} (isNull : v.isNull = true) (column : group[j]? = some slot) :
      ColumnCall model source b o target group j (some v) (.null target (slot.type.getD .other))
  | value {v : Value} {type : ExprType} {m : Mapping} {values : List ColumnValue} {cv : ColumnValue}
      (notNull : v.isNull = false) (bindBy : bindType b o model.catalog = some type)
      (resolved : model.resolveMapping source type = .ok (some m)) (parts : m.decompose v = .ok values)
      (fits : values.length = group.length) (column : values[j]? = some cv) :
      ColumnCall model source b o target group j (some v)
        (if cv.value.isNull then .null target cv.type else .value target cv.type cv.value)

/-- Column `j` of a group that lowering allocated for an occurrence of the table or for one of its
expansions, with the value that the group takes. -/
structure BoundColumn (t : OccurrenceTable) (l : Ledger) (s : Store) (b : ParameterBinding)
    (o : Occurrence) (group : List Slot) (v : Option Value) (j : Nat) (slot : Slot) : Prop where
  listed : ∃ e ∈ t.entries, o ∈ e.occurrences ∧ s.find? e.parameter.key = some b
  takes : ∃ slots, SlotIndex.Filed t l.groups? o.id slots ∧ Takes slots b.value group v
  column : group[j]? = some slot

/-! Values are matched with groups by counting: each occurrence and each expansion has a group, and
there are no more groups than values. -/

theorem length_le_flatten {α : Type} {gs : List (List α)} (nonempty : ∀ g ∈ gs, g ≠ []) :
    gs.length ≤ gs.flatten.length := by
  induction gs with
  | nil => exact Nat.le_refl _
  | cons g rest ih =>
    rw [List.forall_mem_cons] at nonempty
    have first := List.length_pos_iff.mpr nonempty.1
    have later := ih nonempty.2
    rw [List.flatten_cons, List.length_append, List.length_cons]
    omega

theorem exists_singletons {α : Type} {gs : List (List α)} (nonempty : ∀ g ∈ gs, g ≠ [])
    (count : gs.flatten.length ≤ gs.length) : ∃ as : List α, gs = as.map fun a => [a] := by
  induction gs with
  | nil => exact ⟨[], rfl⟩
  | cons g rest ih =>
    rw [List.forall_mem_cons] at nonempty
    have later := length_le_flatten nonempty.2
    have first := List.length_pos_iff.mpr nonempty.1
    rw [List.flatten_cons, List.length_append, List.length_cons] at count
    obtain ⟨as, rfl⟩ := ih nonempty.2 (by omega)
    obtain ⟨a, rfl⟩ := List.length_eq_one_iff.mp (show g.length = 1 by omega)
    exact ⟨a :: as, rfl⟩

theorem flatten_singletons {α : Type} (as : List α) : (as.map fun a => [a]).flatten = as := by
  induction as with
  | nil => rfl
  | cons a rest ih => rw [List.map_cons, List.flatten_cons, ih, List.singleton_append]

theorem forall₂_getElem? {α β : Type} {R : α → β → Prop} {as : List α} {bs : List β} {i : Nat} {a : α}
    {b : β} (related : List.Forall₂ R as bs) (left : as[i]? = some a) (right : bs[i]? = some b) :
    R a b := by
  induction related generalizing i with
  | nil => simp at left
  | cons first _ ih =>
    cases i with
    | zero =>
      cases left
      cases right
      exact first
    | succ i => exact ih left right

/-- A filling for the value that a group takes. -/
def Fits (c : Context) (b : ParameterBinding) (o : Occurrence) (f : Filling) : Option Value → Prop
  | none => f = .unfilled f.group
  | some v => f.Holds c b o v

/-- Where values and groups are as many, every occurrence and every expansion has one group. -/
theorem exists_matching {s : OccurrenceSlots} {fs : List Filling}
    (nonempty : ∀ g ∈ s.groups :: s.expansions, g ≠ []) (counted : fs.length = s.expansions.length + 1)
    (groups : fs.map Filling.group = s.groups ++ s.expansions.flatten) :
    ∃ first rest, fs = first :: rest ∧ s.groups = [first.group] ∧
      s.expansions = rest.map fun f => [f.group] := by
  have count : (s.groups :: s.expansions).flatten.length ≤ (s.groups :: s.expansions).length := by
    rw [List.flatten_cons, ← groups, List.length_map, counted]
    exact Nat.le_refl _
  obtain ⟨all, singles⟩ := exists_singletons nonempty count
  cases all with
  | nil => contradiction
  | cons own others =>
    rw [List.map_cons, List.cons.injEq] at singles
    rw [singles.1, singles.2, flatten_singletons, List.singleton_append] at groups
    cases fs with
    | nil => contradiction
    | cons first rest =>
      rw [List.map_cons, List.cons.injEq] at groups
      refine ⟨first, rest, rfl, by rw [singles.1, groups.1], ?_⟩
      rw [singles.2, ← groups.2, List.map_map]
      rfl

namespace OccurrenceFill
variable {c : Context} {b : ParameterBinding} {o : Occurrence} {s : OccurrenceSlots}
  {fs : List Filling} {group : List Slot} {v : Option Value}

/-- Several values meet one group each, so a group is filled for the value it takes. -/
theorem fits (fill : OccurrenceFill c b o s.expansions.length s fs)
    (nonempty : ∀ g ∈ s.groups :: s.expansions, g ≠ []) (takes : Takes s b.value group v) :
    ∃ f ∈ fs, f.group = group ∧ Fits c b o f v := by
  cases fill with
  | unbound value =>
    rw [value] at takes
    cases takes with
    | unbound mem => exact ⟨_, List.mem_map_of_mem mem, rfl, rfl⟩
  | single value groups holds =>
    rw [value] at takes
    cases takes with
    | single mem =>
      rw [← groups] at mem
      obtain ⟨f, filling, rfl⟩ := List.mem_map.mp mem
      exact ⟨f, filling, rfl, holds f filling⟩
  | multi value counted within groups holds =>
    rw [value] at takes
    rw [List.take_length] at groups
    obtain ⟨first, rest, rfl, own, behind⟩ :=
      exists_matching nonempty (holds.length_eq.symm.trans counted) groups
    cases takes with
    | first mem =>
      rw [own, List.mem_singleton] at mem
      cases holds with
      | cons holdsFirst _ => exact ⟨first, List.mem_cons_self, mem.symm, holdsFirst⟩
    | later found mem next =>
      rw [behind, List.getElem?_map] at found
      obtain ⟨f, filling, rfl⟩ := Option.map_eq_some_iff.mp found
      obtain rfl := List.mem_singleton.mp mem
      cases holds with
      | cons _ holdsLater =>
        have fits : f.Holds c b o _ := forall₂_getElem? holdsLater next filling
        exact ⟨f, List.mem_cons_of_mem _ (List.mem_of_getElem? filling), rfl, fits⟩

/-- Every group that is filled takes some value. -/
theorem exists_takes (fill : OccurrenceFill c b o s.expansions.length s fs)
    (nonempty : ∀ g ∈ s.groups :: s.expansions, g ≠ []) {f : Filling} (mem : f ∈ fs) :
    ∃ v, Takes s b.value f.group v := by
  cases fill with
  | unbound value =>
    obtain ⟨group, own, rfl⟩ := List.mem_map.mp mem
    rw [value]
    exact ⟨none, .unbound own⟩
  | @single _ v value groups holds =>
    have own := List.mem_map_of_mem (f := Filling.group) mem
    rw [value]
    exact ⟨some v, .single (groups ▸ own)⟩
  | multi value counted within groups holds =>
    rw [value]
    rw [List.take_length] at groups
    obtain ⟨first, rest, rfl, own, behind⟩ :=
      exists_matching nonempty (holds.length_eq.symm.trans counted) groups
    cases holds with
    | @cons v _ later _ _ holdsLater =>
      cases List.mem_cons.mp mem with
      | inl same => exact ⟨some v, same ▸ .first (own ▸ List.mem_singleton_self _)⟩
      | inr mem =>
        obtain ⟨i, filling⟩ := List.mem_iff_getElem?.mp mem
        have within : i < later.length := by
          rw [holdsLater.length_eq]
          exact (List.getElem?_eq_some_iff.mp filling).1
        have found : s.expansions[i]? = some [f.group] := by
          rw [behind, List.getElem?_map, filling]
          rfl
        exact ⟨some later[i],
          .later found (List.mem_singleton_self _) (List.getElem?_eq_getElem within)⟩

end OccurrenceFill

theorem Filling.write_of_column {f : Filling} {j : Nat} {slot : Slot}
    (column : f.group[j]? = some slot) :
    ∃ sb, f.bindings[j]? = some sb ∧ (slot.number, sb) ∈ f.writes := by
  obtain ⟨within, rfl⟩ := List.getElem?_eq_some_iff.mp column
  have bound : j < f.bindings.length := f.complete.symm ▸ within
  refine ⟨f.bindings[j], List.getElem?_eq_getElem bound, ?_⟩
  refine List.mem_iff_getElem?.mpr ⟨j, ?_⟩
  rw [writes, List.getElem?_zip_eq_some]
  exact ⟨by rw [List.getElem?_map, column]; rfl, List.getElem?_eq_getElem bound⟩

theorem mapping_ok {c : Context} {type : Option ExprType} {m : Mapping}
    (found : c.mapping type = .ok (some m)) :
    ∃ known, type = some known ∧ c.model.resolveMapping c.source known = .ok (some m) := by
  cases type with
  | none => cases found
  | some known => exact ⟨known, rfl, liftMapping_ok.mp found⟩

/-- What a column is filled with makes the call for it. -/
theorem Fits.columnCall {c : Context} {b : ParameterBinding} {o : Occurrence} {f : Filling}
    {v : Option Value} {j : Nat} {slot : Slot} {sb : SlotBinding} (catalog : c.catalog = c.model.catalog)
    (fits : Fits c b o f v) (column : f.group[j]? = some slot) (binding : f.bindings[j]? = some sb)
    (target : Target) : ColumnCall c.model c.source b o target f.group j v (callFor target sb) := by
  cases v with
  | none =>
    have bindings : f.bindings = f.group.map fun _ => .placeholder := congrArg Filling.bindings fits
    rw [bindings, List.getElem?_map, column] at binding
    obtain rfl := Option.some.inj binding
    exact .unbound
  | some v =>
    cases fits with
    | null isNull bindings =>
      rw [bindings, List.getElem?_map, column] at binding
      obtain rfl := Option.some.inj binding
      exact .null isNull column
    | @value m values notNull typed parts bindings =>
      rw [bindings, List.getElem?_map] at binding
      obtain ⟨cv, listed, rfl⟩ := Option.map_eq_some_iff.mp binding
      obtain ⟨type, bindBy, resolved⟩ := mapping_ok typed
      have fits : values.length = f.group.length := by
        rw [← f.complete, bindings, List.length_map]
      exact .value notNull (catalog ▸ bindBy) resolved parts fits listed

end SemanticQuery.Binding
