import Mathlib.Data.List.Nodup
import SemanticQuery.Query.Builder
import SemanticQuery.Query.Statement

/-! The occurrences a builder has made are numbered in the order they were made. As long as the numbers have
not started over an identity is that of one occurrence only; and no longer. -/
namespace SemanticQuery.Query

/-- Occurrences of a statement that have one identity are one. -/
def Statement.Single (s : Statement) : Prop :=
  ∀ o ∈ s.parameters, ∀ twin ∈ s.parameters, o.id = twin.id → o = twin

namespace Builder

/-- A builder with every occurrence it has made so far. -/
inductive Made : Builder → List Occurrence → Prop
  | new (catalog : Catalog) (functions : Registry) : Made (.new catalog functions) []
  | occurrence {b : Builder} {os : List Occurrence} (made : Made b os) (parameter : Parameter)
      (anticipated : Option ExprType) (expands : Option OccurrenceId) :
      Made (b.occurrence parameter anticipated expands).2
        (os ++ [(b.occurrence parameter anticipated expands).1])

/-- A builder that has given no number again: there is one for each occurrence it has made. -/
def InRange (b : Builder) : Prop := b.made ≤ UInt32.size

instance (b : Builder) : Decidable b.InRange := inferInstanceAs (Decidable (b.made ≤ UInt32.size))

variable {b : Builder} {os : List Occurrence}

theorem Made.ids (made : b.Made os) : os.map Occurrence.id = (List.range b.made).map UInt32.ofNat := by
  induction made with
  | new => rfl
  | occurrence _ parameter anticipated expands ih =>
    simp only [Builder.occurrence, List.map_append, ih, List.map_cons, List.map_nil, List.range_succ]
    rfl

theorem Made.id_lt (made : b.Made os) {o : Occurrence} (mem : o ∈ os) : o.id.toNat < b.made := by
  have listed := List.mem_map_of_mem (f := Occurrence.id) mem
  rw [made.ids] at listed
  obtain ⟨n, earlier, numbered⟩ := List.mem_map.mp listed
  rw [← numbered, UInt32.toNat_ofNat']
  exact Nat.lt_of_le_of_lt (Nat.mod_le _ _) (List.mem_range.mp earlier)

/-- Numbers that are less than the limit are told apart in 32 bits. -/
theorem ofNat_injective {m n : Nat} (first : m < UInt32.size) (second : n < UInt32.size)
    (same : UInt32.ofNat m = UInt32.ofNat n) : m = n := by
  have numbers := congrArg UInt32.toNat same
  rwa [UInt32.toNat_ofNat_of_lt' first, UInt32.toNat_ofNat_of_lt' second] at numbers

/-- Occurrences of one builder have identities of their own exactly as long as its numbers last. -/
theorem Made.nodup_iff (made : b.Made os) : (os.map Occurrence.id).Nodup ↔ b.InRange := by
  rw [made.ids]
  constructor
  · intro distinct
    by_contra past
    have past : UInt32.size < b.made := Nat.lt_of_not_le past
    have first : 0 < b.made := Nat.lt_trans (by decide) past
    -- the number behind the last one is the first again
    have same := List.inj_on_of_nodup_map distinct (List.mem_range.mpr past) (List.mem_range.mpr first) rfl
    contradiction
  · intro range
    refine List.Nodup.map_on (fun m first n second same => ?_) List.nodup_range
    exact ofNat_injective (Nat.lt_of_lt_of_le (List.mem_range.mp first) range)
      (Nat.lt_of_lt_of_le (List.mem_range.mp second) range) same

theorem Made.eq_of_id (made : b.Made os) (range : b.InRange) {o other : Occurrence} (mem : o ∈ os)
    (memOther : other ∈ os) (same : o.id = other.id) : o = other :=
  List.inj_on_of_nodup_map (made.nodup_iff.mpr range) mem memOther same

theorem Made.single (made : b.Made os) (range : b.InRange) {s : Statement}
    (own : ∀ o ∈ s.parameters, o ∈ os) : s.Single :=
  fun o mem twin memTwin => made.eq_of_id range (own o mem) (own twin memTwin)

end Builder

end SemanticQuery.Query
