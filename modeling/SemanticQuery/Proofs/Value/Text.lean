import Mathlib.Data.List.Basic
import SemanticQuery.Value.Text

/-! Which texts are free of quotes and question marks: numbers of every kind and digits of every base.
A literal that is one of them neither opens a string nor looks like a parameter. -/
namespace SemanticQuery

/-- Characters none of which is a quote or a question mark. -/
def Unmarked (cs : List Char) : Prop := quote ∉ cs ∧ '?' ∉ cs

instance (cs : List Char) : Decidable (Unmarked cs) := inferInstanceAs (Decidable (_ ∧ _))

variable {cs ds : List Char}

theorem Unmarked.append (first : Unmarked cs) (later : Unmarked ds) : Unmarked (cs ++ ds) := by
  refine ⟨fun mem => ?_, fun mem => ?_⟩
  · exact (List.mem_append.mp mem).elim first.1 later.1
  · exact (List.mem_append.mp mem).elim first.2 later.2

theorem Unmarked.subset (unmarked : Unmarked ds) (subset : cs ⊆ ds) : Unmarked cs :=
  ⟨fun mem => unmarked.1 (subset mem), fun mem => unmarked.2 (subset mem)⟩

theorem unmarked_of_digits (digits : ∀ c ∈ cs, c.isDigit = true) : Unmarked cs :=
  ⟨fun mem => absurd (digits _ mem) (by decide), fun mem => absurd (digits _ mem) (by decide)⟩

theorem unmarked_toDigits (n : Nat) : Unmarked (Nat.toDigits 10 n) :=
  unmarked_of_digits fun _ mem => Nat.isDigit_of_mem_toDigits (by decide) (by decide) mem

theorem unmarked_nat (n : Nat) : Unmarked (toString n).toList := by
  rw [Nat.toString_eq_ofList_toDigits, String.toList_ofList]
  exact unmarked_toDigits n

theorem unmarked_int (i : Int) : Unmarked (toString i).toList := by
  cases i with
  | ofNat n => exact unmarked_nat n
  | negSucc n =>
    change Unmarked ("-" ++ toString (n + 1)).toList
    rw [String.toList_append]
    exact Unmarked.append (by decide) (unmarked_nat _)

theorem unmarked_hexDigits (width n : Nat) : Unmarked (hexDigits width n) := by
  have digit : ∀ d : Fin 16, Unmarked [Nat.digitChar d] := by decide
  induction width generalizing n with
  | zero => exact ⟨List.not_mem_nil, List.not_mem_nil⟩
  | succ width ih => exact (ih _).append (digit ⟨n % 16, Nat.mod_lt _ (by decide)⟩)

namespace Decimal

theorem unmarked_positional (digits : Nat) (exponent : Int) :
    Unmarked (positional digits exponent).toList := by
  have ds := unmarked_toDigits digits
  have zeros (n : Nat) : Unmarked (List.replicate n '0') :=
    unmarked_of_digits fun c mem => List.eq_of_mem_replicate mem ▸ rfl
  have point : Unmarked ['.'] := by decide
  have lead : Unmarked ['0', '.'] := by decide
  unfold positional
  dsimp only
  split
  next whole =>
    rw [String.toList_ofList]
    exact ds.append (zeros _)
  next fraction =>
    split
    · rw [String.toList_ofList]
      exact (ds.subset (List.take_subset _ _)).append
        (point.append (ds.subset (List.drop_subset _ _)))
    · rw [String.toList_ofList]
      exact lead.append ((zeros _).append ds)

theorem BinaryFormat.unmarked_text (f : BinaryFormat) (bits : Nat) : Unmarked (f.text bits).toList := by
  have signed (negative : Bool) {s : String} (unmarked : Unmarked s.toList) :
      Unmarked (if negative then "-" ++ s else s).toList := by
    cases negative with
    | false => exact unmarked
    | true =>
      rw [if_pos rfl, String.toList_append]
      exact Unmarked.append (by decide) unmarked
  unfold BinaryFormat.text
  dsimp only
  split
  · decide
  · exact signed _ (by decide)
  · exact signed _ (by decide)
  · exact signed _ (unmarked_positional _ _)

end Decimal

end SemanticQuery
