import Mathlib.Data.List.Basic
import SemanticQuery.Query.Statement

/-! The occurrences that lowering a statement visits: its parameters in source order and, behind a
parameter that is an item of a list, the expansions of its occurrence. -/
namespace SemanticQuery.Query

namespace Expr

def parameters (e : Expr) : List Occurrence := e.nodes.filterMap occurrence?

def parametersOf (es : List Expr) : List Occurrence := (nodesOf es).filterMap occurrence?

theorem parametersOf_cons (e : Expr) (rest : List Expr) :
    parametersOf (e :: rest) = e.parameters ++ parametersOf rest :=
  List.filterMap_append

theorem parameters_call (node : NodeId) (function : Callee) (arguments : List Expr)
    (implied : Option ExprType) (notes : Notes) :
    (call node function arguments implied notes).parameters = parametersOf arguments := rfl

theorem parameters_tuple (node : NodeId) (elements : List Expr) (notes : Notes) :
    (tuple node elements notes).parameters = parametersOf elements := rfl

end Expr

section
variable (expansions : OccurrenceId → List Occurrence)

/-- The expansions behind an item of a list. -/
def expandedBehind : Expr → List Occurrence
  | .parameter _ o => expansions o.id
  | _ => []

def itemVisits : List Expr → List Occurrence
  | [] => []
  | e :: rest => e.parameters ++ (expandedBehind expansions e ++ itemVisits rest)

mutual

def Predicate.visits : Predicate → List Occurrence
  | .comparison lhs _ rhs => lhs.parameters ++ rhs.parameters
  | .inList test items _ => test.parameters ++ itemVisits expansions items
  | .and children | .or children => Predicate.visitsOf children
  | .not inner => inner.visits
  | .isNull e _ => e.parameters

def Predicate.visitsOf : List Predicate → List Occurrence
  | [] => []
  | p :: rest => p.visits ++ visitsOf rest

end

def restrictionVisits : Option Predicate → List Occurrence
  | none => []
  | some p => p.visits expansions

def rowVisits (rows : List (List Expr)) : List Occurrence := rows.flatMap Expr.parametersOf

def Statement.visits : Statement → List Occurrence
  | .select s =>
    s.values.flatMap (fun root => rowVisits root.rows) ++
      (s.selections.flatMap (fun item => item.expr.parameters) ++
        restrictionVisits expansions s.restriction)
  | .update u =>
    u.assignments.flatMap (fun a => a.value.parameters) ++ restrictionVisits expansions u.restriction
  | .delete d => restrictionVisits expansions d.restriction

end

/-- A statement without inline rows. -/
def Statement.Rowless : Statement → Prop
  | .select s => s.values = []
  | .update _ | .delete _ => True

/-! The same visits read off the places that parameters are written at. -/

/-- A place of an occurrence in a statement. It is direct where the occurrence is an item of a list itself,
not only a part of one. -/
structure Placement where
  occurrence : Occurrence
  direct : Bool

def Expr.placements (e : Expr) : List Placement := e.parameters.map (⟨·, false⟩)

def itemPlacements : Expr → List Placement
  | .parameter _ o => [⟨o, true⟩]
  | e => e.placements

mutual

def Predicate.placements : Predicate → List Placement
  | .comparison lhs _ rhs => lhs.placements ++ rhs.placements
  | .inList test items _ => test.placements ++ items.flatMap itemPlacements
  | .and children | .or children => Predicate.placementsOf children
  | .not inner => inner.placements
  | .isNull e _ => e.placements

def Predicate.placementsOf : List Predicate → List Placement
  | [] => []
  | p :: rest => p.placements ++ placementsOf rest

end

def restrictionPlacements : Option Predicate → List Placement
  | none => []
  | some p => p.placements

def rowPlacements (rows : List (List Expr)) : List Placement :=
  rows.flatMap fun row => row.flatMap Expr.placements

/-- The places of a statement in source order: inline rows, then selections or assignments, then the
restriction. -/
def Statement.placements : Statement → List Placement
  | .select s =>
    s.values.flatMap (fun root => rowPlacements root.rows) ++
      (s.selections.flatMap (fun item => item.expr.placements) ++ restrictionPlacements s.restriction)
  | .update u =>
    u.assignments.flatMap (fun a => a.value.placements) ++ restrictionPlacements u.restriction
  | .delete d => restrictionPlacements d.restriction

/-- What is visited for a place: the occurrence and, where it is direct, its expansions behind it. -/
def Placement.visits (expansions : OccurrenceId → List Occurrence) (p : Placement) : List Occurrence :=
  p.occurrence :: if p.direct then expansions p.occurrence.id else []

theorem Expr.placements_occurrences (e : Expr) : e.placements.map Placement.occurrence = e.parameters := by
  rw [placements, List.map_map]
  exact List.map_id _

theorem itemPlacements_occurrences (e : Expr) :
    (itemPlacements e).map Placement.occurrence = e.parameters := by
  cases e with
  | parameter node o => rfl
  | literal | path | call | tuple => exact Expr.placements_occurrences _

theorem items_occurrences (items : List Expr) :
    (items.flatMap itemPlacements).map Placement.occurrence = Expr.parametersOf items := by
  induction items with
  | nil => rfl
  | cons e rest ih =>
    rw [List.flatMap_cons, List.map_append, itemPlacements_occurrences, ih, Expr.parametersOf_cons]

theorem row_occurrences (row : List Expr) :
    (row.flatMap Expr.placements).map Placement.occurrence = Expr.parametersOf row := by
  induction row with
  | nil => rfl
  | cons e rest ih =>
    rw [List.flatMap_cons, List.map_append, Expr.placements_occurrences, ih, Expr.parametersOf_cons]

theorem rowPlacements_occurrences (rows : List (List Expr)) :
    (rowPlacements rows).map Placement.occurrence = rowVisits rows := by
  rw [rowPlacements, List.map_flatMap]
  exact List.flatMap_congr fun row _ => row_occurrences row

mutual

theorem Predicate.placements_occurrences : (p : Predicate) →
    p.placements.map Placement.occurrence = p.nodes.filterMap Expr.occurrence?
  | .comparison lhs _ rhs => by
    rw [placements, List.map_append, Expr.placements_occurrences, Expr.placements_occurrences, nodes,
      List.filterMap_append]
    rfl
  | .inList test items _ => by
    rw [placements, List.map_append, Expr.placements_occurrences, items_occurrences, nodes,
      List.filterMap_append]
    rfl
  | .and children | .or children => placementsOf_occurrences children
  | .not inner => placements_occurrences inner
  | .isNull e _ => e.placements_occurrences

theorem Predicate.placementsOf_occurrences : (ps : List Predicate) →
    (Predicate.placementsOf ps).map Placement.occurrence = (nodesOf ps).filterMap Expr.occurrence?
  | [] => rfl
  | p :: rest => by
    rw [placementsOf, List.map_append, placements_occurrences p, placementsOf_occurrences rest, nodesOf,
      List.filterMap_append]

end

theorem restrictionPlacements_occurrences (restriction : Option Predicate) :
    (restrictionPlacements restriction).map Placement.occurrence =
      (restrictionNodes restriction).filterMap Expr.occurrence? := by
  cases restriction with
  | none => rfl
  | some p => exact p.placements_occurrences

/-- The places are those that the parameters of the statement are found at, one by one. -/
theorem Statement.placements_occurrences (s : Statement) :
    s.placements.map Placement.occurrence = s.parameters := by
  unfold parameters
  cases s with
  | select s =>
    simp only [placements, nodes, List.map_append, List.filterMap_append, List.map_flatMap,
      List.filterMap_flatMap, rowPlacements_occurrences, Expr.placements_occurrences,
      restrictionPlacements_occurrences, List.append_assoc]
    rfl
  | update u =>
    simp only [placements, nodes, List.map_append, List.filterMap_append, List.map_flatMap,
      List.filterMap_flatMap, Expr.placements_occurrences, restrictionPlacements_occurrences]
    rfl
  | delete d => exact restrictionPlacements_occurrences d.restriction

section
variable (expansions : OccurrenceId → List Occurrence)

theorem Expr.placements_visits (e : Expr) :
    e.placements.flatMap (Placement.visits expansions) = e.parameters := by
  rw [placements, List.flatMap_map]
  exact List.flatMap_singleton' _

theorem items_visits (items : List Expr) :
    (items.flatMap itemPlacements).flatMap (Placement.visits expansions) = itemVisits expansions items := by
  induction items with
  | nil => rfl
  | cons e rest ih =>
    have first : (itemPlacements e).flatMap (Placement.visits expansions) =
        e.parameters ++ expandedBehind expansions e := by
      cases e with
      | parameter node o => exact List.append_nil _
      | literal | path | call | tuple =>
        exact (Expr.placements_visits expansions _).trans (List.append_nil _).symm
    rw [List.flatMap_cons, List.flatMap_append, first, ih, itemVisits, List.append_assoc]

mutual

theorem Predicate.placements_visits : (p : Predicate) →
    p.placements.flatMap (Placement.visits expansions) = p.visits expansions
  | .comparison lhs _ rhs => by
    rw [placements, List.flatMap_append, Expr.placements_visits, Expr.placements_visits, visits]
  | .inList test items _ => by
    rw [placements, List.flatMap_append, Expr.placements_visits, items_visits, visits]
  | .and children | .or children => placementsOf_visits children
  | .not inner => placements_visits inner
  | .isNull e _ => e.placements_visits expansions

theorem Predicate.placementsOf_visits : (ps : List Predicate) →
    (Predicate.placementsOf ps).flatMap (Placement.visits expansions) = Predicate.visitsOf expansions ps
  | [] => rfl
  | p :: rest => by
    rw [placementsOf, List.flatMap_append, placements_visits p, placementsOf_visits rest, visitsOf]

end

theorem restrictionPlacements_visits (restriction : Option Predicate) :
    (restrictionPlacements restriction).flatMap (Placement.visits expansions) =
      restrictionVisits expansions restriction := by
  cases restriction with
  | none => rfl
  | some p => exact p.placements_visits expansions

theorem row_visits (row : List Expr) :
    (row.flatMap Expr.placements).flatMap (Placement.visits expansions) = Expr.parametersOf row := by
  induction row with
  | nil => rfl
  | cons e rest ih =>
    rw [List.flatMap_cons, List.flatMap_append, Expr.placements_visits, ih, Expr.parametersOf_cons]

theorem rowPlacements_visits (rows : List (List Expr)) :
    (rowPlacements rows).flatMap (Placement.visits expansions) = rowVisits rows := by
  rw [rowPlacements, List.flatMap_assoc]
  exact List.flatMap_congr fun row _ => row_visits expansions row

/-- Lowering visits the places one by one, with the expansions behind the direct ones. -/
theorem Statement.placements_visits (s : Statement) :
    s.placements.flatMap (Placement.visits expansions) = s.visits expansions := by
  cases s with
  | select s =>
    simp only [placements, visits, List.flatMap_append, List.flatMap_assoc, rowPlacements_visits,
      Expr.placements_visits, restrictionPlacements_visits]
  | update u =>
    simp only [placements, visits, List.flatMap_append, List.flatMap_assoc, Expr.placements_visits,
      restrictionPlacements_visits]
  | delete d => exact restrictionPlacements_visits expansions d.restriction

end

/-- An occurrence stands as an item of some list of the statement. -/
def Statement.ListsItem (s : Statement) (id : OccurrenceId) : Prop :=
  ∃ p ∈ s.placements, p.direct = true ∧ p.occurrence.id = id

theorem Placement.mem_visits_iff {expansions : OccurrenceId → List Occurrence} {p : Placement}
    {o : Occurrence} : o ∈ p.visits expansions ↔
      o = p.occurrence ∨ p.direct = true ∧ o ∈ expansions p.occurrence.id := by
  rw [visits, List.mem_cons]
  cases p.direct <;> simp

/-- What is visited are the parameters, and the expansions of those that are items of lists. -/
theorem Statement.mem_visits_iff {expansions : OccurrenceId → List Occurrence} {s : Statement}
    {o : Occurrence} : o ∈ s.visits expansions ↔
      o ∈ s.parameters ∨ ∃ id, s.ListsItem id ∧ o ∈ expansions id := by
  rw [← placements_visits, ← placements_occurrences, List.mem_flatMap, List.mem_map]
  simp only [Placement.mem_visits_iff]
  constructor
  · rintro ⟨p, mem, rfl | ⟨direct, expanded⟩⟩
    · exact .inl ⟨p, mem, rfl⟩
    · exact .inr ⟨p.occurrence.id, ⟨p, mem, direct, rfl⟩, expanded⟩
  · rintro (⟨p, mem, rfl⟩ | ⟨_, ⟨p, mem, direct, rfl⟩, expanded⟩)
    · exact ⟨p, mem, .inl rfl⟩
    · exact ⟨p, mem, .inr ⟨direct, expanded⟩⟩

/-- Occurrences visited for a list of parameters: some of them, or expansions of them. -/
def ReachedFrom (expansions : OccurrenceId → List Occurrence) (os : List Occurrence)
    (o : Occurrence) : Prop :=
  o ∈ os ∨ ∃ original ∈ os, o ∈ expansions original.id

section
variable {expansions : OccurrenceId → List Occurrence} {o : Occurrence}

theorem ReachedFrom.mono {os more : List Occurrence} (subset : os ⊆ more)
    (reached : ReachedFrom expansions os o) : ReachedFrom expansions more o := by
  rcases reached with mem | ⟨original, mem, expanded⟩
  · exact .inl (subset mem)
  · exact .inr ⟨original, subset mem, expanded⟩

/-- Lowering visits no occurrence but the statement's own and their expansions. -/
theorem Statement.reached_of_visits {s : Statement} (mem : o ∈ s.visits expansions) :
    ReachedFrom expansions s.parameters o := by
  rcases mem_visits_iff.mp mem with own | ⟨_, ⟨p, place, -, rfl⟩, expanded⟩
  · exact .inl own
  · exact .inr ⟨p.occurrence, s.placements_occurrences ▸ List.mem_map_of_mem place, expanded⟩

end

end SemanticQuery.Query
