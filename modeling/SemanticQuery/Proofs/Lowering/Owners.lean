import Mathlib.Data.List.Flatten
import Mathlib.Data.List.Nodup
import Mathlib.Data.List.Pairwise
import SemanticQuery.Proofs.Lowering.Allocation

/-! Owners of slots. Slots are numbered without gaps, so each belongs to one group and one occurrence. -/
namespace SemanticQuery.Lowering
open Query

/-- An occurrence owns the slots of the groups that were allocated for it. -/
def Owns (gs : Groups) (id : OccurrenceId) (n : Nat) : Prop :=
  ∃ group, (id, group) ∈ gs ∧ n ∈ group.map Slot.number

variable {gs : Groups} {id other : OccurrenceId} {n : Nat}

theorem mem_numbers_iff : n ∈ numbers gs ↔ ∃ id, Owns gs id n := by
  rw [numbers, List.mem_flatMap]
  constructor
  · rintro ⟨⟨id, group⟩, mem, numbered⟩
    exact ⟨id, group, mem, numbered⟩
  · rintro ⟨id, group, mem, numbered⟩
    exact ⟨(id, group), mem, numbered⟩

theorem Owns.unique (distinct : (numbers gs).Nodup) (owns : Owns gs id n) (again : Owns gs other n) :
    id = other := by
  obtain ⟨group, mem, numbered⟩ := owns
  obtain ⟨group', memOther, numberedOther⟩ := again
  have symmetric : Std.Symm (Function.onFun List.Disjoint
      fun g : OccurrenceId × List Slot => g.2.map Slot.number) :=
    ⟨fun _ _ => List.disjoint_symm⟩
  have apart := (List.nodup_flatMap.mp distinct).2.forall mem memOther
  by_contra different
  exact apart (fun same => different (congrArg Prod.fst same)) numbered numberedOther

theorem groups?_ne_nil {l : Ledger} {groups : List (List Slot)} (found : l.groups? id = some groups) :
    groups ≠ [] := by
  unfold Ledger.groups? at found
  split at found
  · contradiction
  next known allocated =>
    cases found
    exact fun none => allocated (List.map_eq_nil_iff.mp none)

theorem groups_eq_filter {l : Ledger} {groups : List (List Slot)}
    (found : l.groups? id = some groups) :
    groups = (l.entries.filter fun e => e.1 == id).map Prod.snd := by
  unfold Ledger.groups? at found
  split at found
  · contradiction
  · exact (Option.some.inj found).symm

theorem mem_of_groups? {l : Ledger} {groups : List (List Slot)} {group : List Slot}
    (found : l.groups? id = some groups) (mem : group ∈ groups) : (id, group) ∈ l.entries := by
  rw [groups_eq_filter found] at mem
  obtain ⟨⟨owner, _⟩, listed, rfl⟩ := List.mem_map.mp mem
  rw [List.mem_filter, beq_iff_eq] at listed
  obtain ⟨listed, rfl⟩ := listed
  exact listed

/-- No slot is in two groups of an occurrence, or twice in one. -/
theorem groups_nodup {l : Ledger} {groups : List (List Slot)} (distinct : (numbers l.entries).Nodup)
    (found : l.groups? id = some groups) : (groups.flatten.map Slot.number).Nodup := by
  have listed : groups.flatten.map Slot.number = numbers (l.entries.filter fun e => e.1 == id) := by
    rw [groups_eq_filter found, numbers, List.map_flatten, List.map_map, List.flatMap_def]
    rfl
  rw [listed]
  exact distinct.sublist (List.filter_sublist.flatMap _)

/-- The groups looked up for an occurrence are the ones it owns the slots of. -/
theorem owns_iff_of_groups? {l : Ledger} {groups : List (List Slot)}
    (found : l.groups? id = some groups) :
    n ∈ groups.flatten.map Slot.number ↔ Owns l.entries id n := by
  rw [groups_eq_filter found]
  simp only [List.mem_map, List.mem_flatten, List.mem_filter, beq_iff_eq, Owns]
  constructor
  · rintro ⟨slot, ⟨_, ⟨⟨_, group⟩, ⟨mem, rfl⟩, rfl⟩, member⟩, numbered⟩
    exact ⟨group, mem, slot, member, numbered⟩
  · rintro ⟨group, mem, slot, member, numbered⟩
    exact ⟨slot, ⟨group, ⟨(id, group), ⟨mem, rfl⟩, rfl⟩, member⟩, numbered⟩

end SemanticQuery.Lowering
