import Mathlib.Data.List.Basic
import SemanticQuery.Proofs.Model.Climbing

/-! Resolution while a from clause grows. Where the groups of a from clause stand at paths of one segment,
a path is resolved by the first group of its root. Sources that are added later come behind it, and those at
paths of one segment take no longer part of a path over either. -/
namespace SemanticQuery

namespace Sql

mutual

/-- A group with its joins, in the order they are searched. -/
def TableGroup.members : TableGroup → List TableGroup
  | .entity path name table => [.entity path name table]
  | .values path table mappings nested joins =>
    .values path table mappings nested joins :: (membersOf nested ++ membersOf joins)

def TableGroup.membersOf : List TableGroup → List TableGroup
  | [] => []
  | group :: rest => group.members ++ membersOf rest

end

mutual

theorem TableGroup.find?_eq (sought : Path) : (g : TableGroup) →
    g.find? sought = g.members.find? fun group => group.path = sought
  | .entity path name table => by
    by_cases same : path = sought
    · simp [find?, members, TableGroup.path, same]
    · simp [find?, members, TableGroup.path, same]
  | .values path table mappings nested joins => by
    rw [find?, members, List.find?_cons, List.find?_append, findIn?_eq sought nested,
      findIn?_eq sought joins]
    by_cases same : path = sought
    · rw [if_pos same]
      simp [TableGroup.path, same]
    · rw [if_neg same]
      simp [TableGroup.path, same]

theorem TableGroup.findIn?_eq (sought : Path) : (groups : List TableGroup) →
    findIn? sought groups = (membersOf groups).find? fun group => group.path = sought
  | [] => rfl
  | group :: rest => by
    rw [findIn?, membersOf, List.find?_append, find?_eq sought group, findIn?_eq sought rest]

end

theorem TableGroup.membersOf_append (groups more : List TableGroup) :
    membersOf (groups ++ more) = membersOf groups ++ membersOf more := by
  induction groups with
  | nil => rfl
  | cons group rest ih => rw [List.cons_append, membersOf, membersOf, ih, List.append_assoc]

namespace FromClause

/-- All groups of the from clause, joins among them. -/
def members (f : FromClause) : List TableGroup := TableGroup.membersOf f.roots

/-- All groups stand at paths of one segment. -/
def Rooted (f : FromClause) : Prop := ∀ group ∈ f.members, group.path.isRoot = true

/-- A from clause with sources added behind, all of whose groups stand at paths of one segment. -/
def Grown (f g : FromClause) : Prop := ∃ more : FromClause, f.roots ++ more.roots = g.roots ∧ more.Rooted

variable {f g : FromClause}

theorem find?_eq (f : FromClause) (sought : Path) :
    f.find? sought = f.members.find? fun group => group.path = sought :=
  TableGroup.findIn?_eq sought f.roots

theorem members_add (f : FromClause) (group : TableGroup) :
    (f.add group).members = f.members ++ group.members := by
  rw [members, add, TableGroup.membersOf_append, TableGroup.membersOf, TableGroup.membersOf,
    List.append_nil, members]

theorem members_grown (grown : f.roots <+: g.roots) : f.members <+: g.members := by
  obtain ⟨more, roots⟩ := grown
  rw [members, members, ← roots, TableGroup.membersOf_append]
  exact List.prefix_append ..

theorem roots_foldl_add (f : FromClause) (more : List TableGroup) :
    (more.foldl add f).roots = f.roots ++ more := by
  induction more generalizing f with
  | nil => exact (List.append_nil _).symm
  | cons group rest ih => rw [List.foldl_cons, ih, add, List.append_assoc, List.singleton_append]

theorem Rooted.grown (rooted : g.Rooted) (begins : f.roots <+: g.roots) : f.Grown g := by
  obtain ⟨more, roots⟩ := begins
  refine ⟨⟨more⟩, roots, fun group mem => rooted group ?_⟩
  rw [members, ← roots, TableGroup.membersOf_append]
  exact List.mem_append_right _ mem

theorem Rooted.find?_of_deep (rooted : f.Rooted) {sought : Path} (deep : sought.isRoot = false) :
    f.find? sought = none := by
  rw [find?_eq, List.find?_eq_none]
  intro group mem same
  rw [← of_decide_eq_true same, rooted group mem] at deep
  contradiction

/-- A group that is found is still the first one of its path. -/
theorem Grown.find?_some (grown : f.Grown g) {sought : Path} {group : TableGroup}
    (found : f.find? sought = some group) : g.find? sought = some group := by
  obtain ⟨more, roots, -⟩ := grown
  rw [find?_eq] at found
  rw [find?_eq, members, ← roots, TableGroup.membersOf_append, List.find?_append, ← members, found,
    Option.some_or]

/-- A path of several segments gets no group. -/
theorem Grown.find?_none (grown : f.Grown g) {sought : Path} (deep : sought.isRoot = false)
    (missing : f.find? sought = none) : g.find? sought = none := by
  obtain ⟨more, roots, rooted⟩ := grown
  have behind := rooted.find?_of_deep deep
  rw [find?_eq] at missing behind
  rw [find?_eq, members, ← roots, TableGroup.membersOf_append, List.find?_append, ← members, missing,
    Option.none_or]
  exact behind

end FromClause

end Sql

namespace Model
variable {m : Model} {f g : Sql.FromClause} {path : Path}

/-- Only the root of a path can have a group, and all other segments remain. -/
theorem nearestGroup?_of_rooted (rooted : f.Rooted) :
    nearestGroup? f path = (f.find? (path.upTo 0)).map fun group => (group, path.segments.drop 1) := by
  have deeper : ((List.range path.depth).map Nat.succ).reverse.findSome? (fun n =>
      (f.find? (path.upTo n)).map fun group => (group, path.segments.drop (n + 1))) = none := by
    rw [List.findSome?_eq_none_iff]
    intro n mem
    rw [List.mem_reverse, List.mem_map] at mem
    obtain ⟨k, below, rfl⟩ := mem
    rw [rooted.find?_of_deep]
    · rfl
    · rw [path.isRoot_upTo (List.mem_range.mp below)]
      rfl
  rw [nearestGroup?, Path.splits, List.findSome?_map, List.range_succ_eq_map, List.reverse_cons,
    List.findSome?_append]
  exact (congrArg (Option.or · _) deeper).trans (by simp)

/-- A climb that ends at a group ends there when sources are added: the paths it leaves behind on the way have
several segments, and there is still no group for them. -/
theorem climb_of_grown (grown : f.Grown g) {behind : List String} {nearest : Sql.TableGroup × List String}
    (found : climb f path behind = some nearest) : climb g path behind = some nearest := by
  fun_induction climb f path behind with
  | case1 path behind group first =>
    rw [climb_found (grown.find?_some first)]
    exact found
  | case2 path behind missing parent above _ ih =>
    rw [climb_up (grown.find?_none (Path.isRoot_of_parent? above) missing) above]
    exact ih found
  | case3 => contradiction

/-- What a path resolves to does not change when sources are added. -/
theorem resolvePath_of_grown (grown : f.Grown g) {r : ResolvedPath}
    (resolved : m.resolvePath f path = .ok r) : m.resolvePath g path = .ok r := by
  rw [resolvePath, nearestGroup?_eq_climb] at resolved ⊢
  cases nearest : climb f path [] with
  | none =>
    rw [nearest] at resolved
    contradiction
  | some found =>
    rw [nearest] at resolved
    rw [climb_of_grown grown nearest]
    exact resolved

theorem resolveMapping_of_grown (grown : f.Grown g) {type : ExprType} {mapping : Option Mapping}
    (resolved : m.resolveMapping f type = .ok mapping) : m.resolveMapping g type = .ok mapping := by
  cases type with
  | basic type => exact resolved
  | mapped mapping => exact resolved
  | domain kind => exact resolved
  | path source =>
    rw [resolveMapping] at resolved ⊢
    cases found : m.resolvePath f source.path with
    | error e =>
      rw [found] at resolved
      contradiction
    | ok r =>
      rw [resolvePath_of_grown grown found]
      rw [found] at resolved
      exact resolved

end Model

end SemanticQuery
