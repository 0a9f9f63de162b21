import SemanticQuery.Binding.Plan
import SemanticQuery.Proofs.KeyedList
import SemanticQuery.Proofs.Outcome

/-! What additions leave in a plan: the bindings it had and those added, each slot bound once. -/
namespace SemanticQuery.Binding.Plan

theorem slots_nodup (p : Plan) : p.slots.Nodup := p.bindings.keys_nodup

theorem mem_slots_iff {p : Plan} {slot : Nat} : slot ∈ p.slots ↔ ∃ b, p.find? slot = some b :=
  KeyedList.mem_keys_iff

theorem find?_add {p q : Plan} {slot n : Nat} {b c : SlotBinding} (added : p.add slot b = .ok q) :
    q.find? n = some c ↔ p.find? n = some c ∨ (n, c) = (slot, b) := by
  rw [add] at added
  split at added
  · contradiction
  next free =>
    cases added
    by_cases same : n = slot
    · subst same
      simp only [find?, KeyedList.find?_insert_self] at free ⊢
      simp only [free, Option.some.injEq, Prod.mk.injEq, true_and, reduceCtorEq, false_or]
      exact eq_comm
    · simp only [find?, KeyedList.find?_insert_of_ne same, Prod.mk.injEq, same, false_and, or_false]

theorem find?_addAll {p q : Plan} {writes : List (Nat × SlotBinding)} {n : Nat} {c : SlotBinding}
    (added : p.addAll writes = .ok q) : q.find? n = some c ↔ p.find? n = some c ∨ (n, c) ∈ writes := by
  induction writes generalizing p with
  | nil =>
    cases added
    simp only [List.not_mem_nil, or_false]
  | cons write rest ih =>
    obtain ⟨slot, b⟩ := write
    obtain ⟨next, first, later⟩ := bind_ok.mp added
    rw [ih later, find?_add first, List.mem_cons, or_assoc]

theorem addAll_append {p q r : Plan} {writes more : List (Nat × SlotBinding)}
    (first : p.addAll writes = .ok q) (later : q.addAll more = .ok r) :
    p.addAll (writes ++ more) = .ok r := by
  induction writes generalizing p with
  | nil =>
    cases first
    exact later
  | cons write rest ih =>
    obtain ⟨slot, b⟩ := write
    obtain ⟨next, added, first⟩ := bind_ok.mp first
    exact bind_ok.mpr ⟨next, added, ih first⟩

/-- Slots that are free and all different can be bound. -/
theorem exists_addAll {p : Plan} {writes : List (Nat × SlotBinding)}
    (distinct : (writes.map Prod.fst).Nodup) (free : ∀ n ∈ writes.map Prod.fst, p.find? n = none) :
    ∃ q, p.addAll writes = .ok q := by
  induction writes generalizing p with
  | nil => exact ⟨p, rfl⟩
  | cons write rest ih =>
    obtain ⟨slot, b⟩ := write
    rw [List.map_cons, List.nodup_cons] at distinct
    rw [List.map_cons, List.forall_mem_cons] at free
    have added : p.add slot b = .ok ⟨p.bindings.insert slot b⟩ := by rw [add, free.1]
    have freeLater : ∀ n ∈ rest.map Prod.fst, find? ⟨p.bindings.insert slot b⟩ n = none := by
      intro n mem
      have different : n ≠ slot := fun same => distinct.1 (same ▸ mem)
      exact (KeyedList.find?_insert_of_ne different).trans (free.2 n mem)
    obtain ⟨q, later⟩ := ih distinct.2 freeLater
    exact ⟨q, bind_ok.mpr ⟨_, added, later⟩⟩

end SemanticQuery.Binding.Plan
