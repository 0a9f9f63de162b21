import Mathlib.Data.List.Infix
import SemanticQuery.Proofs.Names

/-! Paths and their beginnings. The text of a path goes on from the text of another where its segments do, and
the path above a path is the longest of its beginnings but itself. -/
namespace SemanticQuery

theorem joinDots_append {parts more : List (List Char)} (some : parts ≠ []) (others : more ≠ []) :
    joinDots (parts ++ more) = joinDots parts ++ '.' :: joinDots more := by
  induction parts with
  | nil => contradiction
  | cons part rest ih =>
    cases rest with
    | nil =>
      cases more with
      | nil => contradiction
      | cons next later => rfl
    | cons next later =>
      have inner := ih (List.cons_ne_nil next later)
      simp only [List.cons_append, joinDots, List.append_assoc] at inner ⊢
      rw [inner]

namespace Path
variable {p q : Path}

/-- The text of a path goes on from that of another behind a dot, or is the same. -/
def Begins (q p : Path) : Prop := p.text = q.text ∨ ∃ rest : String, p.text = q.text ++ "." ++ rest

theorem text_append (p : Path) (segment : String) : (p.append segment).text = p.text ++ "." ++ segment := by
  have own : joinDots ((ofText segment).segments.map String.toList) = segment.toList := by
    have spelled := congrArg String.toList (text_ofText segment)
    rwa [text, String.toList_ofList] at spelled
  have parts : p.segments.map String.toList ≠ [] := by simpa using p.rooted
  have others : (ofText segment).segments.map String.toList ≠ [] := by simpa using (ofText segment).rooted
  apply String.toList_inj.mp
  simp only [text, append, List.map_append, joinDots_append parts others, own, String.toList_ofList,
    String.toList_append]
  simp

/-- A path begins another where its segments do. -/
theorem begins_iff : q.Begins p ↔ q.segments <+: p.segments := by
  constructor
  · rintro (same | ⟨rest, text⟩)
    · rw [text_injective same]
    · rw [← text_append] at text
      rw [text_injective text, append]
      exact List.prefix_append ..
  · rintro ⟨more, segments⟩
    by_cases none : more = []
    · rw [none, List.append_nil] at segments
      exact .inl (ext segments ▸ rfl)
    · refine .inr ⟨String.ofList (joinDots (more.map String.toList)), ?_⟩
      have parts : q.segments.map String.toList ≠ [] := by simpa using q.rooted
      have others : more.map String.toList ≠ [] := by simpa using none
      apply String.toList_inj.mp
      simp only [text, ← segments, List.map_append, joinDots_append parts others, String.toList_ofList,
        String.toList_append]
      simp

theorem segments_append {segment : String} (dotless : '.' ∉ segment.toList) :
    (p.append segment).segments = p.segments ++ [segment] :=
  congrArg (p.segments ++ ·) (segments_root dotless)

/-- Segments that are walked from a path one after the other lead to the path they spell. -/
theorem foldl_append {walked : List String} (whole : p.segments = q.segments ++ walked) :
    walked.foldl append q = p := by
  induction walked generalizing q with
  | nil =>
    rw [List.append_nil] at whole
    exact (ext whole).symm
  | cons segment rest ih =>
    have dotless : '.' ∉ segment.toList := by
      refine p.dotless segment ?_
      rw [whole]
      exact List.mem_append_right _ List.mem_cons_self
    refine ih ?_
    rw [whole, segments_append dotless, List.append_assoc, List.singleton_append]

/-- The text of a path with segments behind it, a dot before each of them. -/
def spell (p : Path) (walked : List String) : String := walked.foldl (fun t s => t ++ "." ++ s) p.text

theorem text_foldl_append (p : Path) (walked : List String) :
    (walked.foldl append p).text = p.spell walked := by
  induction walked generalizing p with
  | nil => rfl
  | cons segment rest ih => rw [List.foldl_cons, ih, spell, text_append, spell, List.foldl_cons]

theorem length_segments (p : Path) : p.segments.length = p.depth + 1 := by
  have some_segment : 0 < p.segments.length := List.length_pos_iff.mpr p.rooted
  rw [depth]
  omega

theorem segments_upTo (p : Path) (n : Nat) : (p.upTo n).segments = p.segments.take (n + 1) := rfl

theorem depth_upTo {n : Nat} (within : n ≤ p.depth) : (p.upTo n).depth = n := by
  rw [depth, segments_upTo, List.length_take, length_segments]
  omega

theorem isRoot_upTo (p : Path) {n : Nat} (within : n ≤ p.depth) : (p.upTo n).isRoot = (n == 0) := by
  rw [isRoot, depth_upTo within]

theorem upTo_depth (p : Path) : p.upTo p.depth = p := by
  apply ext
  rw [segments_upTo, ← length_segments, List.take_length]

/-! The path above. -/

theorem parent?_of_root (top : p.depth = 0) : p.parent? = none := if_pos top

/-- The path above a path, and the name that leads back. -/
theorem segments_of_parent? (above : p.parent? = some q) : p.segments = q.segments ++ [p.localName] := by
  by_cases top : p.depth = 0
  · rw [parent?_of_root top] at above
    contradiction
  · rw [parent?, if_neg top] at above
    obtain rfl := Option.some.inj above
    have shorter : p.depth - 1 + 1 = p.segments.length - 1 := by
      rw [length_segments]
      omega
    rw [segments_upTo, shorter, ← List.dropLast_eq_take]
    exact (List.dropLast_concat_getLast p.rooted).symm

theorem depth_of_parent? (above : p.parent? = some q) : q.depth < p.depth := by
  have lengths := congrArg List.length (segments_of_parent? above)
  rw [List.length_append, length_segments, length_segments, List.length_singleton] at lengths
  omega

theorem isRoot_of_parent? (above : p.parent? = some q) : p.isRoot = false := by
  have deeper := depth_of_parent? above
  simp only [isRoot, beq_eq_false_iff_ne]
  omega

/-- A path without one above it is begun by itself alone. -/
theorem eq_of_begins_root (alone : p.parent? = none) (begins : q.segments <+: p.segments) : q = p := by
  have top : p.depth = 0 := by
    by_contra deep
    rw [parent?, if_neg deep] at alone
    contradiction
  refine ext (begins.eq_of_length_le ?_)
  rw [length_segments, length_segments, top]
  omega

/-- What begins a path is the path, or begins the path above it. -/
theorem begins_cases {above : Path} (parent : p.parent? = some above) (begins : q.segments <+: p.segments) :
    q = p ∨ q.segments <+: above.segments := by
  rw [segments_of_parent? parent, List.prefix_concat_iff] at begins
  obtain whole | shorter := begins
  · exact .inl (ext (whole.trans (segments_of_parent? parent).symm))
  · exact .inr shorter

theorem parent?_upTo {n : Nat} (within : n + 1 ≤ p.depth) : (p.upTo (n + 1)).parent? = some (p.upTo n) := by
  have deep : (p.upTo (n + 1)).depth ≠ 0 := by rw [depth_upTo within]; omega
  rw [parent?, if_neg deep, depth_upTo within]
  refine congrArg some (ext ?_)
  rw [segments_upTo, segments_upTo, List.take_take, segments_upTo]
  congr 1
  omega

/-- What the last step up to a part of a path leaves behind goes in front of what is there already. -/
theorem localName_upTo {n : Nat} (within : n + 1 ≤ p.depth) :
    (p.upTo (n + 1)).localName :: p.segments.drop (n + 1 + 1) = p.segments.drop (n + 1) := by
  have last := segments_of_parent? (parent?_upTo within)
  rw [segments_upTo, segments_upTo] at last
  refine (List.append_right_inj (p.segments.take (n + 1))).mp ?_
  rw [List.append_cons, ← last, List.take_append_drop, List.take_append_drop]

end Path

end SemanticQuery
