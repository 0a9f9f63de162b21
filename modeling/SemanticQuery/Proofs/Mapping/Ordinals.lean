import Mathlib.Algebra.Group.Nat.Defs
import Mathlib.Data.List.Nodup
import SemanticQuery.Mapping.Converter

/-! Constants and their ordinals. A constant is stored as the first place it has in the list, and an ordinal
is read as the constant at that place: what is stored is always read back, and what is read is stored as it
was exactly where no constant has two places. -/
namespace SemanticQuery.Converter
variable {name : String} {constants : List String} {v r : Value}

/-- A number counts to a place of the list where the constant stands. -/
def Numbers (constants : List String) (number : Int32) (constant : String) : Prop :=
  0 ≤ number.toInt ∧ constants[number.toInt.toNat]? = some constant

/-- It counts to the first of these places. -/
def NumbersFirst (constants : List String) (number : Int32) (constant : String) : Prop :=
  0 ≤ number.toInt ∧ constants.findIdx? (· == constant) = some number.toInt.toNat

theorem getElem?_of_findIdx? {constant : String} {i : Nat}
    (first : constants.findIdx? (· == constant) = some i) : constants[i]? = some constant := by
  obtain ⟨within, same, -⟩ := List.findIdx?_eq_some_iff_getElem.mp first
  rw [List.getElem?_eq_getElem within, beq_iff_eq.mp same]

theorem exists_first_place {constant : String} (mem : constant ∈ constants) :
    ∃ i, constants.findIdx? (· == constant) = some i := by
  rw [← Option.isSome_iff_exists, List.findIdx?_isSome, List.any_eq_true]
  exact ⟨constant, mem, beq_self_eq_true constant⟩

/-- Each place is the first of its constant exactly where the constants are distinct. -/
theorem nodup_iff_places_first : constants.Nodup ↔
    ∀ i constant, constants[i]? = some constant → constants.findIdx? (· == constant) = some i := by
  constructor
  · intro distinct i constant stands
    obtain ⟨j, first⟩ := exists_first_place (List.mem_of_getElem? stands)
    have within := (List.getElem?_eq_some_iff.mp stands).1
    have same : i = j := (List.getElem?_inj within distinct).mp (stands.trans (getElem?_of_findIdx? first).symm)
    exact same ▸ first
  · intro firsts
    rw [List.nodup_iff_getElem?_ne_getElem?]
    intro i j before within same
    have later : constants[j]? = some constants[j] := List.getElem?_eq_getElem within
    have places := (firsts i _ (same.trans later)).symm.trans (firsts j _ later)
    exact Nat.ne_of_lt before (Option.some.inj places)

theorem NumbersFirst.numbers {number : Int32} {constant : String}
    (first : NumbersFirst constants number constant) : Numbers constants number constant :=
  ⟨first.1, getElem?_of_findIdx? first.2⟩

theorem ofNat_toNat {number : Int32} (counts : 0 ≤ number.toInt) :
    Int32.ofNat number.toInt.toNat = number := by
  apply Int32.toInt_inj.mp
  have below := number.toInt_lt
  rw [Int32.toInt_ofNat_of_lt (by omega)]
  omega

/-- Every place of a list that is short enough has an ordinal. -/
theorem toInt_of_stands (few : constants.length < 2 ^ 31) {constant : String} {i : Nat}
    (stands : constants[i]? = some constant) : (Int32.ofNat i).toInt = i :=
  Int32.toInt_ofNat_of_lt (Nat.lt_trans (List.getElem?_eq_some_iff.mp stands).1 few)

theorem numbers_ofNat (few : constants.length < 2 ^ 31) {constant : String} {i : Nat}
    (stands : constants[i]? = some constant) : Numbers constants (Int32.ofNat i) constant := by
  rw [Numbers, toInt_of_stands few stands]
  exact ⟨Int.natCast_nonneg i, stands⟩

theorem numbersFirst_ofNat (few : constants.length < 2 ^ 31) {constant : String} {i : Nat}
    (first : constants.findIdx? (· == constant) = some i) :
    NumbersFirst constants (Int32.ofNat i) constant := by
  rw [NumbersFirst, toInt_of_stands few (getElem?_of_findIdx? first)]
  exact ⟨Int.natCast_nonneg i, first⟩

/-- A constant is stored as its first place. -/
theorem toRelational_ok_iff (few : constants.length < 2 ^ 31) :
    (ordinal name constants).toRelational v = .ok r ↔
      v = .null ∧ r = .null ∨
        ∃ number constant, NumbersFirst constants number constant ∧ v = .text constant ∧ r = .int number := by
  constructor
  · intro stored
    cases v with
    | null =>
      cases stored
      exact .inl ⟨rfl, rfl⟩
    | text constant =>
      simp only [ordinal] at stored
      split at stored
      next i first =>
        split at stored
        · cases stored
          exact .inr ⟨_, constant, numbersFirst_ofNat few first, rfl, rfl⟩
        · contradiction
      · contradiction
    | _ => simp [ordinal] at stored
  · rintro (⟨rfl, rfl⟩ | ⟨number, constant, ⟨counts, first⟩, rfl, rfl⟩)
    · rfl
    · have below := number.toInt_lt
      simp only [ordinal, first]
      rw [if_pos (by omega), ofNat_toNat counts]

/-- A number is read as the constant at its place. -/
theorem toDomain_ok_iff :
    (ordinal name constants).toDomain r = .ok v ↔
      r = .null ∧ v = .null ∨
        ∃ number constant, Numbers constants number constant ∧ r = .int number ∧ v = .text constant := by
  constructor
  · intro read
    cases r with
    | null =>
      cases read
      exact .inl ⟨rfl, rfl⟩
    | int number =>
      simp only [ordinal] at read
      split at read
      · contradiction
      next counts =>
        split at read
        next constant stands =>
          cases read
          rw [Int32.not_lt, Int32.le_iff_toInt_le] at counts
          exact .inr ⟨number, constant, ⟨counts, stands⟩, rfl, rfl⟩
        · contradiction
    | _ => simp [ordinal] at read
  · rintro (⟨rfl, rfl⟩ | ⟨number, constant, ⟨counts, stands⟩, rfl, rfl⟩)
    · rfl
    · have positive : ¬ number < 0 := by rwa [Int32.not_lt, Int32.le_iff_toInt_le]
      simp only [ordinal, if_neg positive, stands]

/-- A value is stored where it is null or a constant of the list. -/
theorem toRelational_accepts_iff (few : constants.length < 2 ^ 31) :
    (∃ r, (ordinal name constants).toRelational v = .ok r) ↔
      v = .null ∨ ∃ constant ∈ constants, v = .text constant := by
  simp only [toRelational_ok_iff few]
  constructor
  · rintro ⟨r, ⟨rfl, -⟩ | ⟨number, constant, first, rfl, -⟩⟩
    · exact .inl rfl
    · exact .inr ⟨constant, List.mem_of_getElem? first.numbers.2, rfl⟩
  · rintro (rfl | ⟨constant, mem, rfl⟩)
    · exact ⟨.null, .inl ⟨rfl, rfl⟩⟩
    · obtain ⟨i, first⟩ := exists_first_place mem
      exact ⟨_, .inr ⟨_, constant, numbersFirst_ofNat few first, rfl, rfl⟩⟩

/-- A value is read where it is null or a number that counts to a place of the list. -/
theorem toDomain_accepts_iff :
    (∃ v, (ordinal name constants).toDomain r = .ok v) ↔
      r = .null ∨ ∃ number : Int32, 0 ≤ number.toInt ∧ number.toInt < constants.length ∧ r = .int number := by
  simp only [toDomain_ok_iff]
  constructor
  · rintro ⟨v, ⟨rfl, -⟩ | ⟨number, constant, ⟨counts, stands⟩, rfl, -⟩⟩
    · exact .inl rfl
    · have within := (List.getElem?_eq_some_iff.mp stands).1
      exact .inr ⟨number, counts, by omega, rfl⟩
  · rintro (rfl | ⟨number, counts, within, rfl⟩)
    · exact ⟨.null, .inl ⟨rfl, rfl⟩⟩
    · have within : number.toInt.toNat < constants.length := by omega
      exact ⟨_, .inr ⟨number, _, ⟨counts, List.getElem?_eq_getElem within⟩, rfl, rfl⟩⟩

/-- What is stored is read back. Null and the constants can be stored and nothing else, null and the numbers
from zero up to the last place can be read and nothing else, and whatever is read is stored as it was exactly
where the constants are distinct. -/
theorem stored_constants_read_back (name : String) (constants : List String) (few : constants.length < 2 ^ 31) :
    (∀ v r, (ordinal name constants).toRelational v = .ok r → (ordinal name constants).toDomain r = .ok v) ∧
    (∀ v, (∃ r, (ordinal name constants).toRelational v = .ok r) ↔
      v = .null ∨ ∃ constant ∈ constants, v = .text constant) ∧
    (∀ r, (∃ v, (ordinal name constants).toDomain r = .ok v) ↔
      r = .null ∨ ∃ number : Int32, 0 ≤ number.toInt ∧ number.toInt < constants.length ∧ r = .int number) ∧
    ((∀ r v, (ordinal name constants).toDomain r = .ok v → (ordinal name constants).toRelational v = .ok r) ↔
      constants.Nodup) := by
  refine ⟨fun v r stored => ?_, fun v => toRelational_accepts_iff few, fun r => toDomain_accepts_iff, ?_, ?_⟩
  · obtain ⟨rfl, rfl⟩ | ⟨number, constant, first, rfl, rfl⟩ := (toRelational_ok_iff few).mp stored
    · rfl
    · exact toDomain_ok_iff.mpr (.inr ⟨number, constant, first.numbers, rfl, rfl⟩)
  · intro back
    refine nodup_iff_places_first.mpr fun i constant stands => ?_
    have read : (ordinal name constants).toDomain (.int (Int32.ofNat i)) = .ok (.text constant) :=
      toDomain_ok_iff.mpr (.inr ⟨_, constant, numbers_ofNat few stands, rfl, rfl⟩)
    obtain ⟨none, -⟩ | ⟨number, other, first, same, stored⟩ := (toRelational_ok_iff few).mp (back _ _ read)
    · contradiction
    · cases same
      cases stored
      rw [first.2, toInt_of_stands few stands, Int.toNat_natCast]
  · intro distinct r v read
    obtain ⟨rfl, rfl⟩ | ⟨number, constant, ⟨counts, stands⟩, rfl, rfl⟩ := toDomain_ok_iff.mp read
    · rfl
    · have first := nodup_iff_places_first.mp distinct _ _ stands
      exact (toRelational_ok_iff few).mpr (.inr ⟨number, constant, ⟨counts, first⟩, rfl, rfl⟩)

/-- A status that is listed twice. -/
def statuses : List String := ["ACTIVE", "SUSPENDED", "ACTIVE"]

/-- The status at the last place is read, but stored as the first of its name, which reads back as the same. -/
theorem later_place_is_stored_as_first :
    statuses.length < 2 ^ 31 ∧ (ordinal "status" statuses).toDomain (.int 2) = .ok (.text "ACTIVE") ∧
      (ordinal "status" statuses).toRelational (.text "ACTIVE") = .ok (.int 0) ∧
      (ordinal "status" statuses).toDomain (.int 0) = .ok (.text "ACTIVE") ∧
      ¬ ∃ v, (ordinal "status" statuses).toDomain (.int 3) = .ok v := by
  have few : statuses.length < 2 ^ 31 := by decide
  obtain ⟨back, -, numbers, -⟩ := stored_constants_read_back "status" statuses few
  refine ⟨few, rfl, rfl, back _ _ rfl, fun read => ?_⟩
  obtain none | ⟨number, -, within, same⟩ := (numbers _).mp read
  · contradiction
  · cases same
    exact absurd within (by decide)

end SemanticQuery.Converter
