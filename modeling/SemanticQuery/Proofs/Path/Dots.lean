import Mathlib.Data.List.Count
import SemanticQuery.Proofs.Path

/-! Paths by the dots of their text. The path above a path and its local name are what the last dot parts, its
root is what stands before the first, and there are as many steps up to the root as there are dots. -/
namespace SemanticQuery

theorem count_joinDots {parts : List (List Char)} (some : parts ≠ []) (dotless : ∀ part ∈ parts, '.' ∉ part) :
    (joinDots parts).count '.' + 1 = parts.length := by
  induction parts with
  | nil => contradiction
  | cons part rest ih =>
    rw [List.forall_mem_cons] at dotless
    cases rest with
    | nil => rw [joinDots, List.count_eq_zero_of_not_mem dotless.1, List.length_singleton]
    | cons next later =>
      have behind := ih (List.cons_ne_nil next later) dotless.2
      rw [joinDots, List.count_append, List.count_eq_zero_of_not_mem dotless.1, List.count_cons_self, List.length_cons,
        ← behind, Nat.zero_add]
      exact List.cons_ne_nil next later

namespace Path
variable {p q : Path} {segment : String}

/-- The dots in the text of a path. -/
def dots (p : Path) : Nat := p.text.toList.count '.'

/-- The path that a number of steps up lead to. -/
def up : Nat → Path → Option Path
  | 0, p => some p
  | n + 1, p => p.parent?.bind (up n)

theorem dots_eq_depth (p : Path) : p.dots = p.depth := by
  have parts : p.segments.map String.toList ≠ [] := by simpa using p.rooted
  have counted := count_joinDots parts (by simpa using p.dotless)
  rw [List.length_map, length_segments] at counted
  rw [dots, text, String.toList_ofList]
  exact Nat.succ.inj counted

theorem localName_dotless (p : Path) : '.' ∉ p.localName.toList := p.dotless _ (List.getLast_mem p.rooted)

/-- The path above a path that has one segment more, and the name it has there. -/
theorem above_of_segments (behind : p.segments = q.segments ++ [segment]) :
    p.parent? = some q ∧ p.localName = segment := by
  have deeper : p.depth = q.depth + 1 := by
    have lengths := congrArg List.length behind
    rw [List.length_append, length_segments, length_segments, List.length_singleton] at lengths
    omega
  constructor
  · rw [parent?, if_neg (by omega), deeper, Nat.add_sub_cancel]
    refine congrArg some (ext ?_)
    rw [segments_upTo, behind, ← length_segments, List.take_left]
  · simp only [localName, behind, List.getLast_concat]

theorem append_localName (above : p.parent? = some q) : q.append p.localName = p := by
  apply ext
  rw [segments_append p.localName_dotless, segments_of_parent? above]

theorem rootName_append (p : Path) (segment : String) : (p.append segment).rootName = p.rootName :=
  List.head_append_of_ne_nil p.rooted

theorem root_rootName (p : Path) : root p.rootName = p.upTo 0 := by
  apply root_of_single
  rw [segments_upTo, rootName, List.take_one, List.head?_eq_some_head p.rooted, Option.toList_some]

theorem upTo_upTo (p : Path) {m n : Nat} (within : n ≤ m) : (p.upTo m).upTo n = p.upTo n := by
  apply ext
  rw [segments_upTo, segments_upTo, List.take_take, segments_upTo]
  congr 1
  omega

/-- Each step up takes a segment off, until there is one left. -/
theorem up_eq (n : Nat) (p : Path) : p.up n = if n ≤ p.depth then some (p.upTo (p.depth - n)) else none := by
  induction n generalizing p with
  | zero => rw [up, if_pos (Nat.zero_le _), Nat.sub_zero, upTo_depth]
  | succ n ih =>
    by_cases top : p.depth = 0
    · rw [up, parent?_of_root top, if_neg (by omega), Option.bind_none]
    · have shorter := p.depth_upTo (Nat.sub_le p.depth 1)
      rw [up, parent?, if_neg top, Option.bind_some, ih, shorter]
      by_cases within : n + 1 ≤ p.depth
      · rw [if_pos within, if_pos (by omega), upTo_upTo p (by omega)]
        congr 2
        omega
      · rw [if_neg within, if_neg (by omega)]

/-- A text with a dot is a path walked from what stands before the dot. -/
theorem eq_append_of_text {before behind : String} (spelled : p.text = before ++ "." ++ behind) :
    p = (root before).append behind := by
  apply text_injective
  rw [spelled, text_append, root, text_ofText]

/-- What the text says of a path: the last dot stands between the path above and the local name, the first
dot ends the root, and a path without dots is a root. -/
structure SplitByDots (p : Path) : Prop where
  last : ∀ before behind : String, p.text = before ++ "." ++ behind → '.' ∉ behind.toList →
    p.parent? = some (ofText before) ∧ p.localName = behind
  first : ∀ before behind : String, p.text = before ++ "." ++ behind → '.' ∉ before.toList →
    p.rootName = before
  single : '.' ∉ p.text.toList → p.parent? = none ∧ p.localName = p.text ∧ p.rootName = p.text
  isRoot_iff : p.isRoot = true ↔ '.' ∉ p.text.toList

theorem splitByDots (p : Path) : p.SplitByDots where
  last before behind spelled dotless := by
    have walked := eq_append_of_text spelled
    exact above_of_segments (walked ▸ segments_append dotless)
  first before behind spelled dotless := by
    rw [eq_append_of_text spelled, rootName_append, rootName]
    simp only [segments_root dotless, List.head_cons]
  single dotless := by
    have whole : p.segments = [p.text] := by
      rw [← segments_root dotless, Path.root, text_injective (text_ofText p.text)]
    have top : p.depth = 0 := by rw [depth, whole, List.length_singleton]
    refine ⟨parent?_of_root top, ?_, ?_⟩
    · simp only [localName, whole, List.getLast_singleton]
    · simp only [rootName, whole, List.head_cons]
  isRoot_iff := by
    rw [isRoot, beq_iff_eq, ← dots_eq_depth, dots, List.count_eq_zero]

/-- The path above and the local name undo a step by one segment, and such a step undoes them; both keep the
root. As many steps up as there are dots, and no more, can be taken, and they lead to the root by itself. -/
theorem parent_undoes_append (p : Path) :
    (∀ q, p.parent? = some q → q.append p.localName = p ∧ q.rootName = p.rootName) ∧
    (∀ segment : String, '.' ∉ segment.toList → (p.append segment).parent? = some p ∧
      (p.append segment).localName = segment ∧ (p.append segment).rootName = p.rootName) ∧
    (p.up p.dots = some (root p.rootName) ∧ (root p.rootName).parent? = none ∧
      ∀ n, (p.up n).isSome = true ↔ n ≤ p.dots) ∧
    p.SplitByDots := by
  refine ⟨fun q above => ?_, fun segment dotless => ?_, ⟨?_, ?_, fun n => ?_⟩, p.splitByDots⟩
  · have whole := append_localName above
    exact ⟨whole, by rw [← whole, rootName_append]⟩
  · obtain ⟨above, name⟩ := above_of_segments (p.segments_append dotless)
    exact ⟨above, name, p.rootName_append segment⟩
  · rw [dots_eq_depth, up_eq, if_pos (Nat.le_refl _), Nat.sub_self, root_rootName]
  · rw [root_rootName]
    exact parent?_of_root (depth_upTo (Nat.zero_le _))
  · rw [up_eq, dots_eq_depth]
    split
    next within => simp only [Option.isSome_some, within]
    next beyond => simp only [Option.isSome_none, beyond, Bool.false_eq_true]

/-- A path with an empty segment. -/
def gapped : Path := ⟨["p", "", "city"], by simp, by decide⟩

/-- An empty segment is walked like any other: both dots are steps, and each can be taken back. -/
theorem empty_segment_is_a_step :
    gapped.text = "p..city" ∧ gapped.parent? = some ⟨["p", ""], by simp, by decide⟩ ∧
      append ⟨["p", ""], by simp, by decide⟩ gapped.localName = gapped ∧
      '.' ∉ "zip".toList ∧ (gapped.append "zip").parent? = some gapped ∧
      gapped.dots = 2 ∧ gapped.up 2 = some (root "p") ∧ gapped.up 3 = none := by
  obtain ⟨back, forth, ⟨top, -, steps⟩, -⟩ := parent_undoes_append gapped
  have dotless : '.' ∉ "zip".toList := by decide
  have above : gapped.parent? = some ⟨["p", ""], by simp, by decide⟩ := rfl
  have dots : gapped.dots = 2 := by decide
  refine ⟨by decide, above, (back _ above).1, dotless, (forth "zip" dotless).1, dots, dots ▸ top, ?_⟩
  rw [← Option.not_isSome_iff_eq_none, steps, dots]
  decide

end Path

end SemanticQuery
