import Mathlib.Algebra.Group.Nat.Defs
import SemanticQuery.Digest.Sha256
import SemanticQuery.Path
import SemanticQuery.Query.Parameter

/-! Names and their texts. A path, the key of a parameter and a digest are known by what they spell. -/
namespace SemanticQuery

theorem splitDots_append {part rest : List Char} (dotless : '.' ∉ part) :
    splitDots (part ++ '.' :: rest) = part :: splitDots rest := by
  induction part with
  | nil => simp only [List.nil_append, splitDots, if_true]
  | cons c part ih =>
    have other : c ≠ '.' := fun dot => dotless (dot ▸ List.mem_cons_self)
    have tail : '.' ∉ part := fun mem => dotless (List.mem_cons_of_mem _ mem)
    simp only [List.cons_append, splitDots, if_neg other, ih tail]

theorem splitDots_dotless_part {part : List Char} (dotless : '.' ∉ part) :
    splitDots part = [part] := by
  induction part with
  | nil => rfl
  | cons c part ih =>
    have other : c ≠ '.' := fun dot => dotless (dot ▸ List.mem_cons_self)
    have tail : '.' ∉ part := fun mem => dotless (List.mem_cons_of_mem _ mem)
    simp only [splitDots, if_neg other, ih tail]

theorem splitDots_joinDots {parts : List (List Char)} (some : parts ≠ [])
    (dotless : ∀ part ∈ parts, '.' ∉ part) : splitDots (joinDots parts) = parts := by
  induction parts with
  | nil => contradiction
  | cons part parts ih =>
    rw [List.forall_mem_cons] at dotless
    cases parts with
    | nil => exact splitDots_dotless_part dotless.1
    | cons next parts =>
      rw [joinDots, splitDots_append dotless.1, ih (List.cons_ne_nil _ _) dotless.2]
      exact List.cons_ne_nil _ _

theorem Path.ext {p q : Path} (same : p.segments = q.segments) : p = q := by
  cases p
  cases q
  cases same
  rfl

theorem Path.text_injective {p q : Path} (same : p.text = q.text) : p = q := by
  have recover : ∀ p : Path, splitDots p.text.toList = p.segments.map String.toList := by
    intro p
    rw [Path.text, String.toList_ofList]
    refine splitDots_joinDots (by simpa using p.rooted) ?_
    simpa using p.dotless
  have parts := (recover p).symm.trans ((congrArg (splitDots ·.toList) same).trans (recover q))
  exact ext ((List.map_inj_right fun _ _ => String.toList_inj.mp).mp parts)

theorem Path.segments_root {name : String} (dotless : '.' ∉ name.toList) : (root name).segments = [name] := by
  simp only [root, ofText, splitDots_dotless_part dotless, List.map_singleton, String.ofList_toList]

/-- The name of a path of one segment leads to the path. -/
theorem Path.root_of_single {p : Path} {name : String} (single : p.segments = [name]) :
    Path.root name = p := by
  have dotless : '.' ∉ name.toList := p.dotless name (by simp [single])
  exact ext ((segments_root dotless).trans single.symm)

theorem toString_nat_injective {m n : Nat} (same : toString m = toString n) : m = n := by
  have digits : Nat.toDigits 10 m = Nat.toDigits 10 n := by
    have lists := congrArg String.toList same
    rwa [Nat.toString_eq_ofList_toDigits, Nat.toString_eq_ofList_toDigits, String.toList_ofList,
      String.toList_ofList] at lists
  calc m = Nat.ofDigitChars 10 (Nat.toDigits 10 m) 0 := Nat.ofDigitChars_ten_toDigits.symm
    _ = Nat.ofDigitChars 10 (Nat.toDigits 10 n) 0 := by rw [digits]
    _ = n := Nat.ofDigitChars_ten_toDigits

/-- A name follows a colon and a position a question mark, so the two never spell the same. -/
theorem Query.ParameterKey.text_injective {k l : ParameterKey} (same : k.text = l.text) : k = l := by
  have lists := congrArg String.toList same
  cases k with
  | named a =>
    cases l with
    | named b =>
      simp only [text, String.toList_append] at lists
      have names := List.append_cancel_left lists
      exact congrArg named (String.toList_inj.mp names)
    | positional b =>
      simp only [text, String.toList_append] at lists
      exact absurd (List.cons.inj lists).1 (by decide)
  | positional a =>
    cases l with
    | named b =>
      simp only [text, String.toList_append] at lists
      exact absurd (List.cons.inj lists).1 (by decide)
    | positional b =>
      simp only [text, String.toList_append] at lists
      have numbers := List.append_cancel_left lists
      exact congrArg positional (toString_nat_injective (String.toList_inj.mp numbers))

/-! Digests are known by their digits. -/

theorem digitChar_injective :
    ∀ m : Fin 16, ∀ n : Fin 16, Nat.digitChar m = Nat.digitChar n → m = n := by
  decide

theorem hexDigits_injective {m n : Nat} {width : Nat} (left : m < 16 ^ width) (right : n < 16 ^ width)
    (same : hexDigits width m = hexDigits width n) : m = n := by
  induction width generalizing m n with
  | zero => omega
  | succ width ih =>
    rw [hexDigits, hexDigits] at same
    obtain ⟨high, low⟩ := List.append_inj' same rfl
    have highs : m / 16 = n / 16 := ih (by omega) (by omega) high
    have lows := digitChar_injective ⟨m % 16, Nat.mod_lt _ (by decide)⟩ ⟨n % 16, Nat.mod_lt _ (by decide)⟩
      (List.cons.inj low).1
    have lows : m % 16 = n % 16 := congrArg Fin.val lows
    omega

theorem length_hexDigits (width n : Nat) : (hexDigits width n).length = width := by
  induction width generalizing n with
  | zero => rfl
  | succ width ih => rw [hexDigits, List.length_append, ih, List.length_singleton]

theorem hex_injective {as bs : List UInt8} (same : Digest.hex as = Digest.hex bs) : as = bs := by
  have lists := String.ofList_injective same
  induction as generalizing bs with
  | nil =>
    cases bs with
    | nil => rfl
    | cons b rest =>
      have lengths := congrArg List.length lists
      rw [List.flatMap_nil, List.flatMap_cons, List.length_append, length_hexDigits] at lengths
      rw [List.length_nil] at lengths
      omega
  | cons a rest ih =>
    cases bs with
    | nil =>
      have lengths := congrArg List.length lists
      rw [List.flatMap_nil, List.flatMap_cons, List.length_append, length_hexDigits] at lengths
      rw [List.length_nil] at lengths
      omega
    | cons b others =>
      rw [List.flatMap_cons, List.flatMap_cons] at lists
      obtain ⟨first, later⟩ := List.append_inj lists (by rw [length_hexDigits, length_hexDigits])
      have bytes : a = b := UInt8.toNat_inj.mp (hexDigits_injective a.toNat_lt b.toNat_lt first)
      rw [bytes, ih (congrArg String.ofList later) later]

end SemanticQuery
