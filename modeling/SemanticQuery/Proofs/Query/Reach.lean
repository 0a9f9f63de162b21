import SemanticQuery.Proofs.Query.Nodes

/-! What is reached in a statement: the expressions written in its clauses and, from each of them, the
arguments of calls and the elements of tuples to any depth. The visit of a statement's nodes comes to all
of that and to nothing else. -/
namespace SemanticQuery.Query

/-- A node is within an expression as the expression itself, or within one of its parts. -/
inductive Expr.Within (d : Expr) : Expr → Prop
  | self : Within d d
  | part {e part : Expr} (mem : part ∈ e.parts) (within : Within d part) : Within d e

/-- The expressions a predicate tests, under connectives to any depth. -/
inductive Predicate.Tests : Predicate → Expr → Prop
  | lhs (lhs : Expr) (operator : Comparison) (rhs : Expr) : Tests (.comparison lhs operator rhs) lhs
  | rhs (lhs : Expr) (operator : Comparison) (rhs : Expr) : Tests (.comparison lhs operator rhs) rhs
  | test (test : Expr) (items : List Expr) (negated : Bool) : Tests (.inList test items negated) test
  | item {e : Expr} (test : Expr) {items : List Expr} (negated : Bool) (mem : e ∈ items) :
      Tests (.inList test items negated) e
  | and {p : Predicate} {children : List Predicate} {e : Expr} (mem : p ∈ children) (tests : p.Tests e) :
      Tests (.and children) e
  | or {p : Predicate} {children : List Predicate} {e : Expr} (mem : p ∈ children) (tests : p.Tests e) :
      Tests (.or children) e
  | not {inner : Predicate} {e : Expr} (tests : inner.Tests e) : Tests (.not inner) e
  | isNull (e : Expr) (negated : Bool) : Tests (.isNull e negated) e

/-- The expressions that the clauses of a statement are written with. -/
inductive Statement.Writes : Statement → Expr → Prop
  | cell {s : Select} {root : ValuesRoot} {row : List Expr} {e : Expr} (values : root ∈ s.values)
      (rows : row ∈ root.rows) (mem : e ∈ row) : Writes (.select s) e
  | selection {s : Select} {item : Selection} (mem : item ∈ s.selections) : Writes (.select s) item.expr
  | assignment {u : Update} {a : Assignment} (mem : a ∈ u.assignments) : Writes (.update u) a.value
  | selected {s : Select} {p : Predicate} {e : Expr} (restriction : s.restriction = some p)
      (tests : p.Tests e) : Writes (.select s) e
  | updated {u : Update} {p : Predicate} {e : Expr} (restriction : u.restriction = some p)
      (tests : p.Tests e) : Writes (.update u) e
  | deleted {d : Delete} {p : Predicate} {e : Expr} (restriction : d.restriction = some p)
      (tests : p.Tests e) : Writes (.delete d) e

/-- An occurrence is reached at a node within an expression of some clause. -/
def Statement.Reaches (s : Statement) (o : Occurrence) : Prop :=
  ∃ e, s.Writes e ∧ ∃ node, (Expr.parameter node o).Within e

namespace Expr
variable {d : Expr}

theorem mem_nodesOf_iff {es : List Expr} : d ∈ nodesOf es ↔ ∃ e ∈ es, d ∈ e.nodes := by
  induction es with
  | nil => simp [nodesOf]
  | cons e rest ih => simp [nodesOf, ih]

mutual

theorem within_of_mem_nodes : (e : Expr) → d ∈ e.nodes → d.Within e
  | literal .., mem | parameter .., mem | path .., mem => List.mem_singleton.mp mem ▸ .self
  | call node function arguments implied notes, mem => by
    rw [nodes, List.mem_cons] at mem
    obtain rfl | below := mem
    · exact .self
    · obtain ⟨part, argument, within⟩ := within_of_mem_nodesOf arguments below
      exact .part argument within
  | tuple node elements notes, mem => by
    rw [nodes, List.mem_cons] at mem
    obtain rfl | below := mem
    · exact .self
    · obtain ⟨part, element, within⟩ := within_of_mem_nodesOf elements below
      exact .part element within

theorem within_of_mem_nodesOf : (es : List Expr) → d ∈ nodesOf es → ∃ e ∈ es, d.Within e
  | [], mem => by contradiction
  | e :: rest, mem => by
    rw [nodesOf, List.mem_append] at mem
    obtain first | later := mem
    · exact ⟨e, List.mem_cons_self, within_of_mem_nodes e first⟩
    · obtain ⟨other, mem, within⟩ := within_of_mem_nodesOf rest later
      exact ⟨other, List.mem_cons_of_mem _ mem, within⟩

end

theorem mem_nodes_iff {e : Expr} : d ∈ e.nodes ↔ d.Within e := by
  refine ⟨within_of_mem_nodes e, fun within => ?_⟩
  induction within with
  | self => exact d.mem_nodes
  | @part e part mem _ ih =>
    rw [e.nodes_eq]
    exact List.mem_cons_of_mem _ (mem_nodesOf_iff.mpr ⟨part, mem, ih⟩)

end Expr

section
variable {d : Expr}

/-- The nodes within the expressions that a predicate tests. -/
abbrev Predicate.Holds (p : Predicate) (d : Expr) : Prop := ∃ e, p.Tests e ∧ d.Within e

mutual

theorem Predicate.mem_nodes_iff : (p : Predicate) → (d ∈ p.nodes ↔ p.Holds d)
  | .comparison lhs operator rhs => by
    rw [nodes, List.mem_append, Expr.mem_nodes_iff, Expr.mem_nodes_iff]
    constructor
    · rintro (within | within)
      · exact ⟨lhs, .lhs .., within⟩
      · exact ⟨rhs, .rhs .., within⟩
    · rintro ⟨e, tests, within⟩
      cases tests with
      | lhs => exact .inl within
      | rhs => exact .inr within
  | .inList test items negated => by
    rw [nodes, List.mem_append, Expr.mem_nodes_iff, Expr.mem_nodesOf_iff]
    constructor
    · rintro (within | ⟨e, mem, below⟩)
      · exact ⟨test, .test .., within⟩
      · exact ⟨e, .item _ _ mem, Expr.mem_nodes_iff.mp below⟩
    · rintro ⟨e, tests, within⟩
      cases tests with
      | test => exact .inl within
      | item _ _ mem => exact .inr ⟨e, mem, Expr.mem_nodes_iff.mpr within⟩
  | .and children => by
    rw [nodes, mem_nodesOf_iff children]
    constructor
    · rintro ⟨p, mem, e, tests, within⟩
      exact ⟨e, .and mem tests, within⟩
    · rintro ⟨e, tests, within⟩
      cases tests with
      | and mem tests => exact ⟨_, mem, e, tests, within⟩
  | .or children => by
    rw [nodes, mem_nodesOf_iff children]
    constructor
    · rintro ⟨p, mem, e, tests, within⟩
      exact ⟨e, .or mem tests, within⟩
    · rintro ⟨e, tests, within⟩
      cases tests with
      | or mem tests => exact ⟨_, mem, e, tests, within⟩
  | .not inner => by
    rw [nodes, mem_nodes_iff inner]
    constructor
    · rintro ⟨e, tests, within⟩
      exact ⟨e, .not tests, within⟩
    · rintro ⟨e, tests, within⟩
      cases tests with
      | not tests => exact ⟨e, tests, within⟩
  | .isNull e negated => by
    rw [nodes, Expr.mem_nodes_iff]
    constructor
    · exact fun within => ⟨e, .isNull .., within⟩
    · rintro ⟨other, tests, within⟩
      cases tests with
      | isNull => exact within

theorem Predicate.mem_nodesOf_iff : (ps : List Predicate) →
    (d ∈ Predicate.nodesOf ps ↔ ∃ p ∈ ps, p.Holds d)
  | [] => by simp [nodesOf]
  | p :: rest => by
    rw [nodesOf, List.mem_append, mem_nodes_iff p, mem_nodesOf_iff rest, List.exists_mem_cons_iff]

end

theorem mem_restrictionNodes_iff {restriction : Option Predicate} :
    d ∈ restrictionNodes restriction ↔ ∃ p, restriction = some p ∧ p.Holds d := by
  cases restriction with
  | none => simp [restrictionNodes]
  | some p => simp [restrictionNodes, p.mem_nodes_iff]

/-- A statement's nodes are those within the expressions of its clauses. -/
theorem Statement.mem_nodes_iff {s : Statement} : d ∈ s.nodes ↔ ∃ e, s.Writes e ∧ d.Within e := by
  cases s with
  | select s =>
    simp only [nodes, List.mem_append, List.mem_flatMap, Expr.mem_nodesOf_iff, Expr.mem_nodes_iff,
      mem_restrictionNodes_iff]
    constructor
    · rintro ((⟨root, values, row, rows, e, mem, within⟩ | ⟨item, mem, within⟩) |
        ⟨p, restriction, e, tests, within⟩)
      · exact ⟨e, .cell values rows mem, within⟩
      · exact ⟨item.expr, .selection mem, within⟩
      · exact ⟨e, .selected restriction tests, within⟩
    · rintro ⟨e, writes, within⟩
      cases writes with
      | cell values rows mem => exact .inl (.inl ⟨_, values, _, rows, e, mem, within⟩)
      | selection mem => exact .inl (.inr ⟨_, mem, within⟩)
      | selected restriction tests => exact .inr ⟨_, restriction, e, tests, within⟩
  | update u =>
    simp only [nodes, List.mem_append, List.mem_flatMap, Expr.mem_nodes_iff, mem_restrictionNodes_iff]
    constructor
    · rintro (⟨a, mem, within⟩ | ⟨p, restriction, e, tests, within⟩)
      · exact ⟨a.value, .assignment mem, within⟩
      · exact ⟨e, .updated restriction tests, within⟩
    · rintro ⟨e, writes, within⟩
      cases writes with
      | assignment mem => exact .inl ⟨_, mem, within⟩
      | updated restriction tests => exact .inr ⟨_, restriction, e, tests, within⟩
  | delete d =>
    simp only [nodes, mem_restrictionNodes_iff]
    constructor
    · rintro ⟨p, restriction, e, tests, within⟩
      exact ⟨e, .deleted restriction tests, within⟩
    · rintro ⟨e, writes, within⟩
      cases writes with
      | deleted restriction tests => exact ⟨_, restriction, e, tests, within⟩

end

/-- The parameters of a statement are the occurrences reached in it. -/
theorem Statement.mem_parameters_iff {s : Statement} {o : Occurrence} :
    o ∈ s.parameters ↔ s.Reaches o := by
  rw [parameters, List.mem_filterMap]
  constructor
  · rintro ⟨d, mem, same⟩
    cases d with
    | parameter node other =>
      obtain rfl := Option.some.inj same
      obtain ⟨e, writes, within⟩ := mem_nodes_iff.mp mem
      exact ⟨e, writes, node, within⟩
    | literal | path | call | tuple => contradiction
  · rintro ⟨e, writes, node, within⟩
    exact ⟨_, mem_nodes_iff.mpr ⟨e, writes, within⟩, rfl⟩

end SemanticQuery.Query
