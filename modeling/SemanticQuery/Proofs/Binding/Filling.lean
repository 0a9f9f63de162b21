import Mathlib.Data.List.Forall2
import SemanticQuery.Binding.Build
import SemanticQuery.Proofs.Binding.Plan

/-! What a binding plan is built of: slot groups, each filled for one value or held open for none. -/
namespace SemanticQuery.Binding
open Query

/-- A slot group with what each of its slots is bound to. -/
structure Filling where
  group : List Slot
  bindings : List SlotBinding
  complete : bindings.length = group.length

namespace Filling

def writes (f : Filling) : List (Nat × SlotBinding) := (f.group.map Slot.number).zip f.bindings

def writesOf (fs : List Filling) : List (Nat × SlotBinding) := fs.flatMap writes

def ofSlots (group : List Slot) (b : Slot → SlotBinding) : Filling :=
  ⟨group, group.map b, List.length_map b⟩

def unfilled (group : List Slot) : Filling := ofSlots group fun _ => .placeholder

theorem writes_ofSlots (group : List Slot) (b : Slot → SlotBinding) :
    (ofSlots group b).writes = group.map fun slot => (slot.number, b slot) := by
  simp only [writes, ofSlots, List.zip_map']

theorem numbers_writes (f : Filling) : f.writes.map Prod.fst = f.group.map Slot.number :=
  List.map_fst_zip (by simp [f.complete])

theorem number_of_write {f : Filling} {w : Nat × SlotBinding} (write : w ∈ f.writes) :
    w.1 ∈ f.group.map Slot.number :=
  f.numbers_writes ▸ List.mem_map_of_mem write

/-- A filling leaves no slot of its group out. -/
theorem exists_write {f : Filling} {n : Nat} (mem : n ∈ f.group.map Slot.number) :
    ∃ b, (n, b) ∈ f.writes := by
  rw [← numbers_writes] at mem
  obtain ⟨⟨_, b⟩, write, rfl⟩ := List.mem_map.mp mem
  exact ⟨b, write⟩

/-- A plan that has the writes of a filling has its bindings at the slots of the group, in order. -/
theorem find?_of_writes {f : Filling} {p : Plan} (written : ∀ w ∈ f.writes, p.find? w.1 = some w.2) :
    f.group.map (fun slot => p.find? slot.number) = f.bindings.map some := by
  have found : f.writes.map (fun w => p.find? w.1) = f.writes.map fun w => some w.2 :=
    List.map_congr_left written
  have slots : f.writes.map (fun w => p.find? w.1) = (f.writes.map Prod.fst).map p.find? := by
    rw [List.map_map]
    rfl
  have bindings : f.writes.map (fun w => some w.2) = (f.writes.map Prod.snd).map some := by
    rw [List.map_map]
    rfl
  have second : f.writes.map Prod.snd = f.bindings := List.map_snd_zip (by simp [f.complete])
  rw [slots, bindings, numbers_writes, second, List.map_map] at found
  exact found

/-- A group filled for a value: nulls keep the types of the slots, and any other value has a column
value for each slot under the mapping of the type the occurrence is bound by. -/
inductive Holds (c : Context) (b : ParameterBinding) (o : Occurrence) (v : Value) (f : Filling) :
    Prop
  | null (isNull : v.isNull = true)
      (bindings : f.bindings = f.group.map fun slot => ⟨slot.type, .null⟩)
  | value {m : Mapping} {values : List ColumnValue} (notNull : v.isNull = false)
      (typed : c.mapping (bindType b o c.catalog) = .ok (some m)) (parts : m.decompose v = .ok values)
      (bindings : f.bindings = values.map fun cv => ⟨some cv.type, cv.value⟩)

end Filling

open Filling

theorem liftMapping_ok {α : Type} {x : Except MappingError α} {a : α} :
    liftMapping x = .ok a ↔ x = .ok a := by
  cases x <;> simp [liftMapping]

theorem bindNulls_ok {c : Context} {b : ParameterBinding} {o : Occurrence} {v : Value} {p q : Plan}
    {group : List Slot} (isNull : v.isNull = true) (bound : bindNulls p group = .ok q) :
    ∃ f : Filling, f.group = group ∧ f.Holds c b o v ∧ p.addAll f.writes = .ok q := by
  refine ⟨ofSlots group fun slot => ⟨slot.type, .null⟩, rfl, .null isNull rfl, ?_⟩
  rw [writes_ofSlots]
  exact bound

/-- Groups that are bound in order, each by one step. -/
structure Pass (step : Plan → List Slot → Except BindingError Plan)
    (run : List (List Slot) → Plan → Except BindingError Plan) : Prop where
  nil : ∀ p, run [] p = .ok p
  cons : ∀ group rest p, run (group :: rest) p = step p group >>= run rest

/-- Where each step fills its group, a pass fills all of them. -/
theorem Pass.fills {step : Plan → List Slot → Except BindingError Plan}
    {run : List (List Slot) → Plan → Except BindingError Plan} (pass : Pass step run)
    {post : Filling → Prop} (each : ∀ {p q group}, step p group = .ok q →
      ∃ f : Filling, f.group = group ∧ post f ∧ p.addAll f.writes = .ok q)
    {groups : List (List Slot)} {p q : Plan} (bound : run groups p = .ok q) :
    ∃ fs : List Filling, fs.map group = groups ∧ (∀ f ∈ fs, post f) ∧
      p.addAll (writesOf fs) = .ok q := by
  induction groups generalizing p with
  | nil =>
    rw [pass.nil] at bound
    exact ⟨[], rfl, by simp, bound⟩
  | cons group rest ih =>
    rw [pass.cons] at bound
    obtain ⟨next, first, later⟩ := bind_ok.mp bound
    obtain ⟨f, rfl, holds, added⟩ := each first
    obtain ⟨fs, rfl, allHold, addedLater⟩ := ih later
    exact ⟨f :: fs, rfl, List.forall_mem_cons.mpr ⟨holds, allHold⟩, Plan.addAll_append added addedLater⟩

theorem bindEach_pass (key : ParameterKey) (mapping : Option Mapping) (v : Value) :
    Pass (fun p group => bindValue key mapping p group v) (bindEach key mapping v) :=
  ⟨fun _ => rfl, fun _ _ _ => rfl⟩

theorem bindNullGroups_pass : Pass bindNulls bindNullGroups := ⟨fun _ => rfl, fun _ _ _ => rfl⟩

theorem bindUnbound_pass (key : ParameterKey) (mapping : Option Mapping) :
    Pass (bindUnboundGroup key mapping) (bindUnbound key mapping) :=
  ⟨fun _ => rfl, fun _ _ _ => rfl⟩

/-- A group that takes a stored value is a single slot. -/
theorem bindStored_pass (key : ParameterKey) (type : ColumnType) (stored : Value) :
    Pass (fun p group => bindStored key type stored [group] p) (bindStored key type stored) where
  nil _ := rfl
  cons group rest p := by
    match group with
    | [] => rfl
    | [slot] =>
      simp only [bindStored, bind_assoc]
      rfl
    | _ :: _ :: _ => rfl

theorem bindStored_ok {key : ParameterKey} {type : ColumnType} {stored : Value} {group : List Slot}
    {p q : Plan} (bound : bindStored key type stored [group] p = .ok q) :
    ∃ f : Filling, f.group = group ∧ f.bindings = [⟨some type, stored⟩] ∧
      p.addAll f.writes = .ok q := by
  match group with
  | [] => contradiction
  | [slot] => exact ⟨⟨[slot], [⟨some type, stored⟩], rfl⟩, rfl, rfl, bound⟩
  | _ :: _ :: _ => contradiction

section
variable {c : Context} {key : ParameterKey} {b : ParameterBinding} {o : Occurrence}
  {mapping : Option Mapping} {p q : Plan} (typed : c.mapping (bindType b o c.catalog) = .ok mapping)
include typed

theorem bindValue_ok {group : List Slot} {v : Value} (bound : bindValue key mapping p group v = .ok q) :
    ∃ f : Filling, f.group = group ∧ f.Holds c b o v ∧ p.addAll f.writes = .ok q := by
  simp only [bindValue] at bound
  cases isNull : v.isNull with
  | true =>
    rw [if_pos isNull] at bound
    exact bindNulls_ok isNull bound
  | false =>
    rw [if_neg (by simp [isNull])] at bound
    cases mapping with
    | none => contradiction
    | some m =>
      obtain ⟨values, parts, bound⟩ := bind_ok.mp bound
      by_cases fits : values.length = group.length
      · rw [if_pos fits] at bound
        refine ⟨⟨group, values.map fun cv => ⟨some cv.type, cv.value⟩, by simpa using fits⟩, rfl,
          .value isNull typed (liftMapping_ok.mp parts) rfl, ?_⟩
        simp only [writes, List.zip_map]
        exact bound
      · rw [if_neg fits] at bound
        contradiction

theorem bindNext_ok {groups : List (List Slot)} {vs left : List Value} {exhausted : BindingError}
    (bound : bindNext key mapping exhausted groups vs p = .ok (left, q)) :
    ∃ (fs : List Filling) (used : List Value), vs = used ++ left ∧ fs.map group = groups ∧
      List.Forall₂ (Holds c b o) used fs ∧ p.addAll (writesOf fs) = .ok q := by
  induction groups generalizing p vs with
  | nil =>
    cases bound
    exact ⟨[], [], rfl, rfl, .nil, rfl⟩
  | cons group rest ih =>
    cases vs with
    | nil => contradiction
    | cons v vs =>
      obtain ⟨next, first, later⟩ := bind_ok.mp bound
      obtain ⟨f, rfl, holds, added⟩ := bindValue_ok typed first
      obtain ⟨fs, used, rfl, rfl, allHold, addedLater⟩ := ih later
      exact ⟨f :: fs, v :: used, rfl, rfl, .cons holds allHold, Plan.addAll_append added addedLater⟩

theorem bindSingle_ok {groups : List (List Slot)} {v : Value} (notNull : v.isNull = false)
    (bound : bindSingle key mapping v groups p = .ok q) :
    ∃ fs : List Filling, fs.map group = groups ∧ (∀ f ∈ fs, f.Holds c b o v) ∧
      p.addAll (writesOf fs) = .ok q := by
  unfold bindSingle at bound
  split at bound
  next converter relational =>
    obtain ⟨stored, converted, bound⟩ := bind_ok.mp bound
    have parts : (Mapping.converted converter relational).decompose v =
        .ok [⟨relational.column, stored⟩] := by
      rw [Mapping.decompose, liftMapping_ok.mp converted]
      rfl
    obtain ⟨fs, groups, same, added⟩ := (bindStored_pass ..).fills bindStored_ok bound
    refine ⟨fs, groups, ?_, added⟩
    intro f mem
    exact .value notNull typed parts (same f mem)
  · exact (bindEach_pass ..).fills (bindValue_ok typed) bound

theorem bindExpansions_ok {s : OccurrenceSlots} {position : Nat} {es : List Occurrence}
    {vs left : List Value} {exhausted : BindingError}
    (filed : c.index.occurrence? key o.id = some s)
    (bound : bindExpansions c key mapping exhausted o position es vs p = .ok (left, q)) :
    ∃ (fs : List Filling) (used : List Value), vs = used ++ left ∧
      es.length ≤ s.expansions.length - position ∧
      fs.map group = ((s.expansions.drop position).take es.length).flatten ∧
      List.Forall₂ (Holds c b o) used fs ∧ p.addAll (writesOf fs) = .ok q := by
  induction es generalizing p vs position with
  | nil =>
    cases bound
    exact ⟨[], [], rfl, Nat.zero_le _, by simp, .nil, rfl⟩
  | cons e rest ih =>
    obtain ⟨groups, known, bound⟩ := bind_ok.mp bound
    obtain ⟨⟨others, next⟩, first, later⟩ := bind_ok.mp bound
    have listed : s.expansions[position]? = some groups := by
      simp only [Context.expansionGroups, SlotIndex.expansionGroups?, filed, Option.bind_some] at known
      split at known
      next found same => rw [same, Except.ok.inj known]
      · contradiction
    obtain ⟨within, same⟩ := List.getElem?_eq_some_iff.mp listed
    obtain ⟨fs, used, rfl, groupsOf, allHold, added⟩ := bindNext_ok typed first
    obtain ⟨gs, usedLater, rfl, bounded, later, holdLater, addedLater⟩ := ih later
    refine ⟨fs ++ gs, used ++ usedLater, by rw [List.append_assoc], ?_, ?_,
      List.rel_append allHold holdLater, ?_⟩
    · rw [List.length_cons]
      omega
    · rw [List.drop_eq_getElem_cons within, same, List.length_cons, List.take_succ_cons,
        List.flatten_cons, List.map_append, groupsOf, later]
    · rw [writesOf, List.flatMap_append]
      exact Plan.addAll_append added addedLater

/-- The values are as many as the groups that take them. -/
theorem bindMulti_ok {s : OccurrenceSlots} {es : List Occurrence} {vs : List Value}
    (filed : c.index.occurrence? key o.id = some s)
    (bound : bindMulti c key mapping o es s.groups vs p = .ok q) :
    ∃ fs : List Filling, vs.length = es.length + 1 ∧ es.length ≤ s.expansions.length ∧
      fs.map group = s.groups ++ (s.expansions.take es.length).flatten ∧
      List.Forall₂ (Holds c b o) vs fs ∧ p.addAll (writesOf fs) = .ok q := by
  cases vs with
  | nil => contradiction
  | cons v later =>
    simp only [bindMulti] at bound
    by_cases counted : es.length = later.length
    · rw [if_neg (not_not_intro counted)] at bound
      obtain ⟨⟨others, next⟩, first, bound⟩ := bind_ok.mp bound
      obtain ⟨⟨left, last⟩, expanded, bound⟩ := bind_ok.mp bound
      cases left with
      | cons => contradiction
      | nil =>
        cases bound
        obtain ⟨fs, used, split, groups, allHold, added⟩ := bindNext_ok typed first
        obtain ⟨gs, usedLater, rfl, bounded, groupsLater, holdLater, addedLater⟩ :=
          bindExpansions_ok typed filed expanded
        rw [List.append_nil] at split
        refine ⟨fs ++ gs, by rw [List.length_cons, counted], bounded, ?_, ?_, ?_⟩
        · rw [List.map_append, groups, groupsLater, List.drop_zero]
        · rw [split]
          exact List.rel_append allHold holdLater
        · rw [writesOf, List.flatMap_append]
          exact Plan.addAll_append added addedLater
    · rw [if_pos counted] at bound
      contradiction

end

theorem writes_unfilled {group : List Slot} {columns : List ColumnType}
    (fits : columns.length = group.length) :
    ((group.zip columns).map fun p => (p.1.number, SlotBinding.placeholder)) =
      (unfilled group).writes := by
  have slots : (group.zip columns).map Prod.fst = group := List.map_fst_zip (Nat.le_of_eq fits.symm)
  rw [unfilled, writes_ofSlots, ← congrArg (List.map _) slots, List.map_map]
  rfl

/-- A group that has the columns of the mapping, if there is one, is held open. -/
theorem bindUnboundGroup_eq {key : ParameterKey} {mapping : Option Mapping} {group : List Slot}
    (fits : ∀ m, mapping = some m → m.columnTypes.length = group.length) (p : Plan) :
    bindUnboundGroup key mapping p group = p.addAll (unfilled group).writes := by
  cases mapping with
  | none => rw [bindUnboundGroup, unfilled, writes_ofSlots]
  | some m =>
    simp only [bindUnboundGroup, if_pos (fits m rfl)]
    rw [← writes_unfilled (fits m rfl)]
    exact bind_pure _

theorem bindUnboundGroup_ok {key : ParameterKey} {mapping : Option Mapping} {p q : Plan}
    {group : List Slot} (bound : bindUnboundGroup key mapping p group = .ok q) :
    p.addAll (unfilled group).writes = .ok q := by
  rw [← bound]
  refine (bindUnboundGroup_eq ?_ p).symm
  rintro m rfl
  obtain ⟨next, -, bound⟩ := bind_ok.mp bound
  by_contra misfit
  rw [if_neg misfit] at bound
  contradiction

theorem bindUnbound_ok {key : ParameterKey} {mapping : Option Mapping} {p q : Plan}
    {groups : List (List Slot)} (bound : bindUnbound key mapping groups p = .ok q) :
    p.addAll (writesOf (groups.map unfilled)) = .ok q := by
  induction groups generalizing p with
  | nil => exact bound
  | cons group rest ih =>
    obtain ⟨next, first, later⟩ := bind_ok.mp bound
    exact Plan.addAll_append (bindUnboundGroup_ok first) (ih later)

end SemanticQuery.Binding
