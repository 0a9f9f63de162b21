import SemanticQuery.Model.Resolve
import SemanticQuery.Proofs.Path

/-! Resolution climbs a path. From the path itself it goes up one segment at a time, keeps the names it leaves
behind, and ends at the first path that has a table group. That is the longest beginning of the path with a
group, and the names left behind spell the rest of the path. -/
namespace SemanticQuery

namespace Model
open Sql (FromClause TableGroup)

/-- The search for a group from a path upwards, with the names left behind so far. -/
def climb (f : FromClause) (path : Path) (behind : List String) : Option (TableGroup × List String) :=
  match f.find? path with
  | some group => some (group, behind)
  | none =>
    match above : path.parent? with
    | some parent =>
      have := Path.depth_of_parent? above
      climb f parent (path.localName :: behind)
    | none => none
termination_by path.depth

theorem climb_found {f : FromClause} {path : Path} {group : TableGroup} (found : f.find? path = some group)
    (behind : List String) : climb f path behind = some (group, behind) := by
  rw [climb, found]

theorem climb_up {f : FromClause} {path parent : Path} (missing : f.find? path = none)
    (above : path.parent? = some parent) (behind : List String) :
    climb f path behind = climb f parent (path.localName :: behind) := by
  rw [climb, missing]
  simp only
  split
  next other same =>
    rw [above] at same
    cases same
    rfl
  next none =>
    rw [above] at none
    contradiction

theorem climb_end {f : FromClause} {path : Path} (missing : f.find? path = none)
    (alone : path.parent? = none) (behind : List String) : climb f path behind = none := by
  rw [climb, missing]
  simp only
  split
  next other same =>
    rw [alone] at same
    contradiction
  next => rfl

/-- A path's longest beginning that has a group, the group, and the segments walked from there. -/
structure Nearest (f : FromClause) (path part : Path) (group : TableGroup) (walked : List String) : Prop where
  found : f.find? part = some group
  whole : path.segments = part.segments ++ walked
  longest : ∀ q : Path, q.segments <+: path.segments → (f.find? q).isSome = true →
    q.segments <+: part.segments

/-- A path without a group of its own has the one of the path above it, one segment further on. -/
theorem Nearest.up {f : FromClause} {path parent part : Path} {group : TableGroup} {walked : List String}
    (nearest : Nearest f parent part group walked) (missing : f.find? path = none)
    (above : path.parent? = some parent) : Nearest f path part group (walked ++ [path.localName]) where
  found := nearest.found
  whole := by rw [Path.segments_of_parent? above, nearest.whole, List.append_assoc]
  longest q begins known := by
    obtain rfl | shorter := Path.begins_cases above begins
    · rw [missing] at known
      contradiction
    · exact nearest.longest q shorter known

/-- Climbing ends at the nearest group with all segments up to there behind it, or at the root where no
beginning of the path has a group. -/
theorem climb_cases (f : FromClause) (path : Path) (behind : List String) :
    (∃ part group walked, Nearest f path part group walked ∧
      climb f path behind = some (group, walked ++ behind)) ∨
    (∀ q : Path, q.segments <+: path.segments → f.find? q = none) ∧ climb f path behind = none := by
  fun_induction climb f path behind with
  | case1 path behind group found =>
    refine .inl ⟨path, group, [], ⟨found, (List.append_nil _).symm, fun q begins _ => begins⟩, rfl⟩
  | case2 path behind missing parent above _ ih =>
    obtain ⟨part, group, walked, nearest, climbed⟩ | ⟨nowhere, climbed⟩ := ih
    · refine .inl ⟨part, group, _, nearest.up missing above, ?_⟩
      rw [climbed, List.append_assoc, List.singleton_append]
    · refine .inr ⟨fun q begins => ?_, climbed⟩
      obtain rfl | shorter := Path.begins_cases above begins
      · exact missing
      · exact nowhere q shorter
  | case3 path behind missing alone =>
    exact .inr ⟨fun q begins => Path.eq_of_begins_root alone begins ▸ missing, rfl⟩

/-- The search through all ways to split a path is the climb. -/
theorem climb_upTo (f : FromClause) (path : Path) {n : Nat} (within : n ≤ path.depth) :
    climb f (path.upTo n) (path.segments.drop (n + 1)) =
      (List.range (n + 1)).reverse.findSome? fun k =>
        (f.find? (path.upTo k)).map fun group => (group, path.segments.drop (k + 1)) := by
  induction n with
  | zero =>
    cases found : f.find? (path.upTo 0) with
    | some group => simp [climb_found found, found]
    | none =>
      have alone := Path.parent?_of_root (Path.depth_upTo within)
      simp [climb_end found alone, found]
  | succ n ih =>
    rw [List.range_succ, List.reverse_append, List.reverse_singleton, List.singleton_append,
      List.findSome?_cons]
    cases found : f.find? (path.upTo (n + 1)) with
    | some group => exact climb_found found _
    | none =>
      rw [climb_up found (Path.parent?_upTo within), Path.localName_upTo within]
      exact ih (Nat.le_of_succ_le within)

theorem nearestGroup?_eq_climb (f : FromClause) (path : Path) : nearestGroup? f path = climb f path [] := by
  have whole := climb_upTo f path (Nat.le_refl path.depth)
  rw [Path.upTo_depth, ← Path.length_segments, List.drop_length] at whole
  rw [whole, nearestGroup?, Path.splits, List.findSome?_map, ← Path.length_segments]
  rfl

theorem resolvePath_of_nearest {m : Model} {f : FromClause} {path : Path} {group : TableGroup}
    {rest : List String} (nearest : nearestGroup? f path = some (group, rest)) :
    m.resolvePath f path = m.resolveWithin path group rest := by
  rw [resolvePath, nearest]

/-- A path is resolved through its longest beginning that has a group. Where some beginning has one, the
climb from the path upwards ends, at the group that the from clause finds for the longest, and the path is
resolved in that group by the segments left behind, which walked from there in their order lead to the path
and spell it. Where none has one the climb ends without a group, and the path is unresolved. -/
theorem resolves_through_longest_beginning (m : Model) (f : FromClause) (path : Path) :
    (∃ part group rest, part.Begins path ∧ f.find? part = some group ∧
      (∀ longer : Path, longer.Begins path → (f.find? longer).isSome = true → longer.Begins part) ∧
      rest.foldl Path.append part = path ∧ part.spell rest = path.text ∧
      climb f path [] = some (group, rest) ∧ m.resolvePath f path = m.resolveWithin path group rest) ∨
    (∀ part : Path, part.Begins path → f.find? part = none) ∧ climb f path [] = none ∧
      m.resolvePath f path = .error (.unresolvedPath path.text) := by
  obtain ⟨part, group, rest, nearest, climbed⟩ | ⟨nowhere, climbed⟩ := climb_cases f path []
  · rw [List.append_nil] at climbed
    have walked := Path.foldl_append nearest.whole
    refine .inl ⟨part, group, rest, ?_, nearest.found, ?_, walked, ?_, climbed, ?_⟩
    · exact Path.begins_iff.mpr ⟨rest, nearest.whole.symm⟩
    · intro longer begins known
      exact Path.begins_iff.mpr (nearest.longest longer (Path.begins_iff.mp begins) known)
    · rw [← Path.text_foldl_append, walked]
    · exact resolvePath_of_nearest ((nearestGroup?_eq_climb f path).trans climbed)
  · refine .inr ⟨fun part begins => nowhere part (Path.begins_iff.mp begins), climbed, ?_⟩
    rw [resolvePath, nearestGroup?_eq_climb, climbed]

end Model

end SemanticQuery
