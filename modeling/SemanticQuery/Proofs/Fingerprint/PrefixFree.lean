import Mathlib.Algebra.Group.Nat.Defs
import SemanticQuery.Fingerprint.Encoding

/-! Prefix-free encodings. An encoding is prefix-free where none is the beginning of another one, so
that encodings written one after the other are read apart again. -/
namespace SemanticQuery.Fingerprint

/-- Lengths and identities are written in 32 bits. -/
def wordLimit : Nat := 2 ^ 32

def FitsText (s : String) : Prop := s.utf8ByteSize < wordLimit

instance (s : String) : Decidable (FitsText s) := inferInstanceAs (Decidable (_ < _))

variable {α : Type}

def FitsOption (fits : α → Prop) : Option α → Prop
  | none => True
  | some a => fits a

def FitsList (fits : α → Prop) (items : List α) : Prop :=
  items.length < wordLimit ∧ ∀ a ∈ items, fits a

/-- What follows an encoding does not change what is read from it. -/
def PrefixFree (fits : α → Prop) (encode : α → Bytes) : Prop :=
  ∀ ⦃a b : α⦄ ⦃rest others : Bytes⦄, fits a → fits b →
    encode a ++ rest = encode b ++ others → a = b ∧ rest = others

/-! Words, texts, options and lists. -/

theorem bigEndian_injective {width m n : Nat} (boundM : m < 256 ^ width) (boundN : n < 256 ^ width)
    (same : Digest.bigEndian width m = Digest.bigEndian width n) : m = n := by
  induction width generalizing m n with
  | zero => omega
  | succ width ih =>
    obtain ⟨high, low⟩ := List.append_inj' same rfl
    have tail : m % 256 = n % 256 := by
      have bytes := congrArg UInt8.toNat (List.singleton_inj.mp low)
      simpa only [UInt8.toNat_ofNat', Nat.mod_mod] using bytes
    rw [Nat.pow_succ] at boundM boundN
    have head := ih (by omega) (by omega) high
    omega

theorem word_prefixFree : PrefixFree (· < wordLimit) word := by
  intro m n rest others fitsM fitsN same
  have width : (word m).length = (word n).length := by
    simp only [word, Digest.length_bigEndian]
  obtain ⟨digits, rests⟩ := List.append_inj same width
  exact ⟨bigEndian_injective fitsM fitsN digits, rests⟩

theorem toList_loop (bytes : ByteArray) (i : Nat) (seen : List UInt8) :
    ByteArray.toList.loop bytes i seen = seen.reverse ++ bytes.data.toList.drop i := by
  fun_induction ByteArray.toList.loop bytes i seen with
  | case1 i seen within ih =>
    have bound : i < bytes.data.toList.length := within
    have next : bytes.data.toList[i] = bytes.get! i := (getElem!_pos bytes.data i bound).symm
    rw [ih, List.drop_eq_getElem_cons bound, next, List.reverse_cons, List.append_assoc]
    rfl
  | case2 i seen beyond =>
    have bound : bytes.data.toList.length ≤ i := Nat.le_of_not_lt beyond
    rw [List.drop_eq_nil_of_le bound, List.append_nil]

theorem utf8_eq (s : String) : utf8 s = s.toByteArray.data.toList := toList_loop _ 0 []

theorem length_utf8 (s : String) : (utf8 s).length = s.utf8ByteSize := by
  rw [utf8_eq]
  rfl

theorem utf8_injective {s t : String} (same : utf8 s = utf8 t) : s = t := by
  rw [utf8_eq, utf8_eq] at same
  exact String.toByteArray_inj.mp (ByteArray.ext (Array.toList_inj.mp same))

theorem text_prefixFree : PrefixFree FitsText ofText := by
  intro s t rest others fitsS fitsT same
  simp only [ofText, List.append_assoc] at same
  rw [FitsText, ← length_utf8] at fitsS fitsT
  obtain ⟨length, same⟩ := word_prefixFree fitsS fitsT same
  obtain ⟨bytes, rests⟩ := List.append_inj same length
  exact ⟨utf8_injective bytes, rests⟩

theorem bool_prefixFree : PrefixFree (fun _ => True) ofBool := by
  intro a b rest others _ _ same
  cases a <;> cases b <;> simp_all [ofBool]

theorem kind_prefixFree : PrefixFree (fun _ => True) ofKind := by
  intro a b rest others _ _ same
  simp only [ofKind, List.singleton_append, List.cons.injEq] at same
  refine ⟨?_, same.2⟩
  have ranks := congrArg UInt8.toNat same.1
  cases a <;> cases b <;> first | rfl | exact absurd ranks (by decide)

theorem option_prefixFree {fits : α → Prop} {f : α → Bytes} (free : PrefixFree fits f) :
    PrefixFree (FitsOption fits) (ofOption f) := by
  intro a b rest others fitsA fitsB same
  cases a with
  | none =>
    cases b with
    | none => exact ⟨rfl, (List.cons.inj same).2⟩
    | some b => exact absurd (List.cons.inj same).1 (by decide)
  | some a =>
    cases b with
    | none => exact absurd (List.cons.inj same).1 (by decide)
    | some b =>
      obtain ⟨rfl, rests⟩ := free fitsA fitsB (List.cons.inj same).2
      exact ⟨rfl, rests⟩

theorem flatMap_prefixFree {fits : α → Prop} {f : α → Bytes} (free : PrefixFree fits f)
    {as bs : List α} {rest others : Bytes} (length : as.length = bs.length)
    (fitsA : ∀ a ∈ as, fits a) (fitsB : ∀ b ∈ bs, fits b)
    (same : as.flatMap f ++ rest = bs.flatMap f ++ others) : as = bs ∧ rest = others := by
  induction as generalizing bs with
  | nil =>
    cases bs with
    | nil => exact ⟨rfl, same⟩
    | cons b bs => contradiction
  | cons a as ih =>
    cases bs with
    | nil => contradiction
    | cons b bs =>
      simp only [List.flatMap_cons, List.append_assoc] at same
      rw [List.forall_mem_cons] at fitsA fitsB
      obtain ⟨rfl, tails⟩ := free fitsA.1 fitsB.1 same
      obtain ⟨rfl, rests⟩ := ih (Nat.succ.inj length) fitsA.2 fitsB.2 tails
      exact ⟨rfl, rests⟩

theorem list_prefixFree {fits : α → Prop} {f : α → Bytes} (free : PrefixFree fits f) :
    PrefixFree (FitsList fits) (ofList f) := by
  intro as bs rest others fitsA fitsB same
  simp only [ofList, List.append_assoc] at same
  obtain ⟨length, same⟩ := word_prefixFree fitsA.1 fitsB.1 same
  exact flatMap_prefixFree free length fitsA.2 fitsB.2 same

end SemanticQuery.Fingerprint
