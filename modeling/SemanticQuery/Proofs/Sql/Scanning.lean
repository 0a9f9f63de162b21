import SemanticQuery.Proofs.Value.Text

/-! Texts as a database reads them: they are scanned for literals and for the question marks between them.
A value is written so that it leaves no literal open and adds no question mark, except for a character
that is itself a quote. -/
namespace SemanticQuery.Sql

/-- What was read of a text: whether a literal is open, and the question marks outside of literals. -/
structure Scan where
  inside : Bool
  marks : Nat
  deriving DecidableEq

mutual

/-- Outside of literals a quote opens one, and question marks are counted. -/
def scanOutside (marks : Nat) : List Char → Scan
  | [] => ⟨false, marks⟩
  | c :: rest =>
    if c = quote then scanInside marks rest
    else scanOutside (if c = '?' then marks + 1 else marks) rest

/-- Inside a literal two quotes are an escaped one, and a quote alone closes it. -/
def scanInside (marks : Nat) : List Char → Scan
  | [] => ⟨true, marks⟩
  | c :: rest =>
    if c = quote then
      match rest with
      | [] => ⟨false, marks⟩
      | d :: later => if d = quote then scanInside marks later else scanOutside marks (d :: later)
    else scanInside marks rest

end

def scan (sql : String) : Scan := scanOutside 0 sql.toList

/-! An escaped quote may as well be read as the end of one literal and the start of the next. -/

def Scan.step (s : Scan) (c : Char) : Scan :=
  if c = quote then { s with inside := !s.inside }
  else if c = '?' ∧ s.inside = false then { s with marks := s.marks + 1 }
  else s

mutual

theorem scanOutside_eq_foldl (marks : Nat) : (cs : List Char) →
    scanOutside marks cs = cs.foldl Scan.step ⟨false, marks⟩
  | [] => rfl
  | c :: rest => by
    rw [scanOutside, List.foldl_cons, Scan.step]
    by_cases quoted : c = quote
    · rw [if_pos quoted, if_pos quoted, scanInside_eq_foldl marks rest]
      rfl
    · rw [if_neg quoted, if_neg quoted, scanOutside_eq_foldl _ rest]
      by_cases mark : c = '?' <;> simp [mark]

theorem scanInside_eq_foldl (marks : Nat) : (cs : List Char) →
    scanInside marks cs = cs.foldl Scan.step ⟨true, marks⟩
  | [] => rfl
  | [c] => by by_cases quoted : c = quote <;> simp [scanInside, Scan.step, quoted]
  | c :: d :: later => by
    rw [scanInside, List.foldl_cons, Scan.step]
    by_cases quoted : c = quote
    · rw [if_pos quoted, if_pos quoted]
      by_cases escaped : d = quote
      · simp [escaped, scanInside_eq_foldl marks later, Scan.step]
      · simp [escaped, scanOutside_eq_foldl marks (d :: later)]
    · rw [if_neg quoted, if_neg quoted, scanInside_eq_foldl marks (d :: later)]
      simp
termination_by structural cs => cs

end

theorem scan_ofList (cs : List Char) : scan (String.ofList cs) = cs.foldl Scan.step ⟨false, 0⟩ := by
  rw [scan, String.toList_ofList, scanOutside_eq_foldl]

theorem inside_foldl_step (s : Scan) (cs : List Char) :
    (cs.foldl Scan.step s).inside = (s.inside ^^ decide (cs.count quote % 2 = 1)) := by
  induction cs generalizing s with
  | nil => simp
  | cons c rest ih =>
    rw [List.foldl_cons, ih, Scan.step]
    by_cases quoted : c = quote
    · subst quoted
      rw [if_pos rfl, List.count_cons_self]
      rcases Nat.mod_two_eq_zero_or_one (rest.count quote) with even | odd
      · simp [Nat.add_mod, even]
      · simp [Nat.add_mod, odd]
    · rw [if_neg quoted, List.count_cons_of_ne quoted]
      split <;> rfl

/-- A text with so many quotes over, up to pairs, which where it has none over leaves a scan outside of
literals and has it count so many marks. -/
structure Reads (loose marks : Nat) (cs : List Char) : Prop where
  parity : cs.count quote % 2 = loose % 2
  returns : loose = 0 → ∀ n, cs.foldl Scan.step ⟨false, n⟩ = ⟨false, n + marks⟩

namespace Reads
variable {loose marks loose' marks' : Nat} {cs ds : List Char}

theorem append (first : Reads loose marks cs) (later : Reads loose' marks' ds) :
    Reads (loose + loose') (marks + marks') (cs ++ ds) where
  parity := by rw [List.count_append, Nat.add_mod, first.parity, later.parity, ← Nat.add_mod]
  returns none n := by
    obtain ⟨noneFirst, noneLater⟩ := Nat.add_eq_zero_iff.mp none
    rw [List.foldl_append, first.returns noneFirst, later.returns noneLater, Nat.add_assoc]

theorem of_unmarked (unmarked : Unmarked cs) : Reads 0 0 cs where
  parity := by rw [List.count_eq_zero_of_not_mem unmarked.1]
  returns _ n := by
    induction cs with
    | nil => rfl
    | cons c rest ih =>
      have unquoted : c ≠ quote := fun same => unmarked.1 (same ▸ List.mem_cons_self)
      have uncounted : c ≠ '?' := fun same => unmarked.2 (same ▸ List.mem_cons_self)
      rw [List.foldl_cons, Scan.step, if_neg unquoted, if_neg fun mark => uncounted mark.1]
      exact ih (unmarked.subset (List.subset_cons_self c rest))

theorem nil : Reads 0 0 [] := ⟨rfl, fun _ _ => rfl⟩

theorem mark : Reads 0 1 ['?'] := ⟨rfl, fun _ _ => rfl⟩

theorem text (s : String) : Reads 0 0 (quoted s).toList := by
  have body (n : Nat) (cs : List Char) :
      (doubleQuotes cs).foldl Scan.step ⟨true, n⟩ = ⟨true, n⟩ ∧ (doubleQuotes cs).count quote % 2 = 0 := by
    induction cs with
    | nil => exact ⟨rfl, rfl⟩
    | cons c rest ih =>
      rw [doubleQuotes]
      by_cases quoted : c = quote
      · rw [if_pos quoted]
        exact ⟨ih.1, by simpa [Nat.add_assoc] using ih.2⟩
      · rw [if_neg quoted, List.foldl_cons, Scan.step, if_neg quoted, List.count_cons_of_ne quoted]
        simpa using ih
  rw [quoted, String.toList_ofList]
  constructor
  · rw [List.count_cons_self, List.count_append, List.count_singleton_self, Nat.add_assoc, Nat.add_mod,
      (body 0 s.toList).2]
  · intro _ n
    have opened : Scan.step ⟨false, n⟩ quote = ⟨true, n⟩ := rfl
    rw [List.foldl_cons, opened, List.foldl_append, (body n s.toList).1]
    rfl

theorem character (c : Char) : Reads (if c = quote then 1 else 0) 0 [quote, c, quote] := by
  by_cases loose : c = quote
  · subst loose
    exact ⟨rfl, fun none => by contradiction⟩
  · rw [if_neg loose]
    refine ⟨by simp [loose], fun _ n => ?_⟩
    simp [Scan.step, loose]

theorem intercalate_cons {separator : List Char} {rest : List (List Char)}
    (between : Unmarked separator) (first : Reads loose marks cs)
    (later : Reads loose' marks' (separator.intercalate rest)) :
    Reads (loose + loose') (marks + marks') (separator.intercalate (cs :: rest)) := by
  cases rest with
  | nil => simpa [List.intercalate] using first.append later
  | cons next rest =>
    have joined := first.append ((of_unmarked between).append later)
    rwa [Nat.zero_add, Nat.zero_add] at joined

end Reads

end SemanticQuery.Sql

namespace SemanticQuery.Value
open Sql

mutual

/-- The characters in a value that are a quote: they are written bare between two more. -/
def looseQuotes : Value → Nat
  | char c => if c = quote then 1 else 0
  | composite parts => looseQuotesOf parts
  | entity _ id _ => id.looseQuotes
  | _ => 0

def looseQuotesOf : List Value → Nat
  | [] => 0
  | v :: rest => v.looseQuotes + looseQuotesOf rest

end

mutual

/-- Decimals and names of entities are written as they are, and hold neither quotes nor question marks. -/
def Plain : Value → Prop
  | decimal digits => Unmarked digits.toList
  | composite parts => AllPlain parts
  | entity name id _ => Unmarked name.toList ∧ id.Plain
  | _ => True

def AllPlain : List Value → Prop
  | [] => True
  | v :: rest => v.Plain ∧ AllPlain rest

end

mutual

theorem reads_toText : (v : Value) → v.Plain → Reads v.looseQuotes 0 v.toText.toList
  | null, _ | bool true, _ | bool false, _ => .of_unmarked (by decide)
  | byte _, _ | short _, _ | int _, _ | long _, _ | bigInt _, _ => .of_unmarked (unmarked_int _)
  | float _, _ | double _, _ => .of_unmarked (Decimal.BinaryFormat.unmarked_text _ _)
  | decimal _, plain => .of_unmarked plain
  | char c, _ => by
    rw [toText, String.toList_ofList]
    exact .character c
  | text s, _ => .text s
  | uuid v, _ => by
    rw [toText, String.toList_ofList]
    exact .of_unmarked (unmarked_hexDigits _ _)
  | bytes v, _ => by
    rw [toText, String.toList_append, String.toList_append]
    exact .of_unmarked (.append (.append (by decide) (unmarked_nat _)) (by decide))
  | date _, _ | timestamp _, _ => by
    rw [toText, String.toList_append, String.toList_append]
    exact .of_unmarked (.append (.append (by decide) (unmarked_int _)) (by decide))
  | composite parts, plain => by
    rw [toText, looseQuotes, String.toList_append, String.toList_append, String.toList_intercalate]
    have opening : Reads 0 0 "(".toList := .of_unmarked (by decide)
    have closing : Reads 0 0 ")".toList := .of_unmarked (by decide)
    simpa only [Nat.zero_add, Nat.add_zero] using (opening.append (reads_texts parts plain)).append closing
  | entity name id _, plain => by
    rw [toText, looseQuotes, String.toList_append, String.toList_append]
    have named := Reads.of_unmarked (.append plain.1 (by decide : Unmarked "#".toList))
    simpa only [Nat.zero_add] using named.append (reads_toText id plain.2)

theorem reads_texts : (parts : List Value) → AllPlain parts →
    Reads (looseQuotesOf parts) 0 (", ".toList.intercalate ((texts parts).map String.toList))
  | [], _ => .nil
  | v :: rest, plain =>
    .intercalate_cons (by decide) (reads_toText v plain.1) (reads_texts rest plain.2)

end

end SemanticQuery.Value
