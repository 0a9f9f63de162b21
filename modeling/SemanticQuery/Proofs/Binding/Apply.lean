import SemanticQuery.Binding.Apply
import SemanticQuery.Proofs.Binding.Plan

/-! Applying a plan along placeholders: it stops short exactly where a placeholder's slot has no binding. -/
namespace SemanticQuery.Binding
variable {σ : Type}

/-- A sink whose own errors are never about a slot without a binding. -/
def Sink.Sound (sink : Sink σ) : Prop := ∀ call st n st', sink call st ≠ .error (.unboundSlot n) st'

/-- A sink that takes every call and keeps the calls in order. -/
def Sink.record : Sink (List Call) := fun call calls => .ok () (calls ++ [call])

theorem Sink.record_sound : record.Sound := by
  intro call st n st' run
  contradiction

/-- The calls made one after the other, as far as the sink takes them. -/
def Sink.feed (sink : Sink σ) : List Call → EStateM BindingError σ Unit
  | [] => pure ()
  | call :: rest => do
    sink call
    Sink.feed sink rest

theorem callFor_target (target : Target) (b : SlotBinding) : (callFor target b).target = target := by
  unfold callFor
  split <;> rfl

namespace Plan
variable {p : Plan} {slot n : Nat}

/-- Placeholders whose slots are all bound get one call each, in order. -/
theorem applyFrom_feeds {order : List Nat} (bound : ∀ slot ∈ order, slot ∈ p.slots) (position : Nat) :
    ∃ calls : List Call,
      (∀ (σ : Type) (sink : Sink σ), p.applyFrom sink position order = sink.feed calls) ∧
      calls.map Call.target = (List.range' position order.length).map .position ∧
      ∀ {k n}, order[k]? = some n →
        ∃ b, p.find? n = some b ∧ calls[k]? = some (callFor (.position (position + k)) b) := by
  induction order generalizing position with
  | nil => exact ⟨[], fun _ _ => rfl, rfl, by simp⟩
  | cons slot rest ih =>
    rw [List.forall_mem_cons] at bound
    obtain ⟨b, found⟩ := mem_slots_iff.mp bound.1
    obtain ⟨calls, feeds, targets, each⟩ := ih bound.2 (position + 1)
    refine ⟨callFor (.position position) b :: calls, ?_, ?_, ?_⟩
    · intro σ sink
      simp only [applyFrom, apply, found, feeds, Sink.feed]
    · rw [List.map_cons, callFor_target, targets, List.length_cons, List.range'_succ, List.map_cons]
    · intro k n at_k
      cases k with
      | zero =>
        obtain rfl := Option.some.inj at_k
        exact ⟨b, found, rfl⟩
      | succ k =>
        obtain ⟨other, known, call⟩ := each at_k
        refine ⟨other, known, ?_⟩
        rwa [Nat.add_assoc, Nat.add_comm 1 k] at call

theorem apply_of_mem {sink : Sink σ} (sound : sink.Sound) (bound : slot ∈ p.slots) (target : Target)
    (st st' : σ) : p.apply sink slot target st ≠ .error (.unboundSlot n) st' := by
  obtain ⟨b, found⟩ := mem_slots_iff.mp bound
  rw [apply, found]
  exact sound _ st n st'

theorem apply_of_not_mem (sink : Sink σ) (unbound : slot ∉ p.slots) (target : Target) (st : σ) :
    p.apply sink slot target st = .error (.unboundSlot slot) st := by
  cases found : p.find? slot with
  | some b => exact absurd (mem_slots_iff.mpr ⟨b, found⟩) unbound
  | none =>
    rw [apply, found]
    rfl

theorem applyFrom_of_bound {sink : Sink σ} (sound : sink.Sound) {order : List Nat}
    (bound : ∀ slot ∈ order, slot ∈ p.slots) (position : Nat) (st st' : σ) :
    p.applyFrom sink position order st ≠ .error (.unboundSlot n) st' := by
  induction order generalizing position st with
  | nil => simp [applyFrom, pure, EStateM.pure]
  | cons slot rest ih =>
    rw [List.forall_mem_cons] at bound
    intro run
    simp only [applyFrom, bind, EStateM.bind] at run
    split at run
    next _ between _ => exact ih bound.2 (position + 1) between run
    next _ _ failed =>
      cases run
      exact apply_of_mem sound bound.1 _ _ _ failed

/-- The first slot without a binding is reported, where the sink takes the calls before it. -/
theorem applyFrom_of_unbound {order : List Nat} (missing : ∃ slot ∈ order, slot ∉ p.slots)
    (position : Nat) (st : List Call) :
    ∃ n st', p.applyFrom Sink.record position order st = .error (.unboundSlot n) st' := by
  induction order generalizing position st with
  | nil => simp at missing
  | cons slot rest ih =>
    by_cases bound : slot ∈ p.slots
    · obtain ⟨b, found⟩ := mem_slots_iff.mp bound
      have later : ∃ slot ∈ rest, slot ∉ p.slots := by
        obtain ⟨other, mem, unbound⟩ := missing
        cases List.mem_cons.mp mem with
        | inl same => exact absurd (same ▸ bound) unbound
        | inr mem => exact ⟨other, mem, unbound⟩
      obtain ⟨n, st', failed⟩ := ih later (position + 1) (st ++ [callFor (.position position) b])
      refine ⟨n, st', ?_⟩
      simp only [applyFrom, apply, found]
      exact failed
    · refine ⟨slot, st, ?_⟩
      simp only [applyFrom, bind, EStateM.bind, apply_of_not_mem _ bound]

end Plan

end SemanticQuery.Binding
