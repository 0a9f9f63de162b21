import Mathlib.Data.List.Basic
import SemanticQuery.Query.Statement

/-! The nodes of statements: with a node, all nodes below it are nodes of the statement. -/
namespace SemanticQuery.Query

namespace Expr

theorem mem_nodes (e : Expr) : e ∈ e.nodes := by
  cases e with
  | literal | parameter | path | call | tuple => exact List.mem_cons_self

theorem mem_nodesOf {e : Expr} {es : List Expr} (mem : e ∈ es) : e ∈ nodesOf es := by
  induction es with
  | nil => contradiction
  | cons first rest ih =>
    rw [nodesOf]
    cases List.mem_cons.mp mem with
    | inl same => exact List.mem_append_left _ (same ▸ e.mem_nodes)
    | inr later => exact List.mem_append_right _ (ih later)

theorem forall_mem_nodesOf {P : Expr → Prop} {es : List Expr} :
    (∀ d ∈ nodesOf es, P d) ↔ ∀ e ∈ es, ∀ d ∈ e.nodes, P d := by
  induction es with
  | nil => simp [nodesOf]
  | cons e rest ih => rw [nodesOf, List.forall_mem_append, ih, List.forall_mem_cons]

/-- The nodes right below a node. -/
def parts : Expr → List Expr
  | call _ _ arguments _ _ => arguments
  | tuple _ elements _ => elements
  | literal .. | parameter .. | path .. => []

theorem nodes_eq (e : Expr) : e.nodes = e :: nodesOf e.parts := by
  cases e with
  | literal | parameter | path | call | tuple => rfl

mutual

theorem size_le_of_mem_nodes {d : Expr} : (e : Expr) → d ∈ e.nodes → sizeOf d ≤ sizeOf e
  | literal .., mem | parameter .., mem | path .., mem =>
    Nat.le_of_eq (congrArg sizeOf (List.mem_singleton.mp mem))
  | call node function arguments implied notes, mem => by
    rw [nodes, List.mem_cons] at mem
    obtain rfl | below := mem
    · exact Nat.le_refl _
    · have smaller := size_lt_of_mem_nodesOf arguments below
      simp only [call.sizeOf_spec]
      omega
  | tuple node elements notes, mem => by
    rw [nodes, List.mem_cons] at mem
    obtain rfl | below := mem
    · exact Nat.le_refl _
    · have smaller := size_lt_of_mem_nodesOf elements below
      simp only [tuple.sizeOf_spec]
      omega

theorem size_lt_of_mem_nodesOf {d : Expr} : (es : List Expr) → d ∈ nodesOf es → sizeOf d < sizeOf es
  | [], mem => by contradiction
  | e :: rest, mem => by
    rw [nodesOf, List.mem_append] at mem
    simp only [List.cons.sizeOf_spec]
    cases mem with
    | inl mem =>
      have smaller := size_le_of_mem_nodes e mem
      omega
    | inr mem =>
      have smaller := size_lt_of_mem_nodesOf rest mem
      omega

end

/-- No node is among the nodes below it. -/
theorem not_mem_nodesOf_parts (e : Expr) : e ∉ nodesOf e.parts := by
  intro below
  have smaller := size_lt_of_mem_nodesOf e.parts below
  cases e with
  | literal | parameter | path => contradiction
  | call =>
    simp only [parts, call.sizeOf_spec] at smaller
    omega
  | tuple =>
    simp only [parts, tuple.sizeOf_spec] at smaller
    omega

end Expr

/-- Nodes that are listed with all their parts. -/
def ClosedNodes (es : List Expr) : Prop := ∀ e ∈ es, ∀ part ∈ e.parts, part ∈ es

namespace ClosedNodes

theorem append {es more : List Expr} (first : ClosedNodes es) (later : ClosedNodes more) :
    ClosedNodes (es ++ more) := by
  intro e mem part below
  cases List.mem_append.mp mem with
  | inl mem => exact List.mem_append_left _ (first e mem part below)
  | inr mem => exact List.mem_append_right _ (later e mem part below)

theorem nil : ClosedNodes [] := by
  intro e mem
  contradiction

theorem flatMap {α : Type} {f : α → List Expr} (as : List α) (each : ∀ a, ClosedNodes (f a)) :
    ClosedNodes (as.flatMap f) := by
  induction as with
  | nil => exact .nil
  | cons a rest ih => exact (each a).append ih

theorem leaf {e : Expr} (bare : e.parts = []) : ClosedNodes [e] := by
  intro other mem part below
  obtain rfl := List.mem_singleton.mp mem
  rw [bare] at below
  contradiction

theorem node {e : Expr} (closed : ClosedNodes (Expr.nodesOf e.parts)) :
    ClosedNodes (e :: Expr.nodesOf e.parts) := by
  intro other mem part below
  cases List.mem_cons.mp mem with
  | inl same => exact List.mem_cons_of_mem _ (Expr.mem_nodesOf (same ▸ below))
  | inr later => exact List.mem_cons_of_mem _ (closed other later part below)

mutual

/-- A list that has the parts of its nodes has all nodes below them. -/
theorem nodes_subset {es : List Expr} (closed : ClosedNodes es) : (e : Expr) → e ∈ es → e.nodes ⊆ es
  | .literal .., mem | .parameter .., mem | .path .., mem =>
    List.cons_subset.mpr ⟨mem, List.nil_subset _⟩
  | .call _ _ arguments _ _, mem =>
    List.cons_subset.mpr ⟨mem, nodesOf_subset closed arguments (closed _ mem)⟩
  | .tuple _ elements _, mem =>
    List.cons_subset.mpr ⟨mem, nodesOf_subset closed elements (closed _ mem)⟩

theorem nodesOf_subset {es : List Expr} (closed : ClosedNodes es) : (more : List Expr) →
    (∀ e ∈ more, e ∈ es) → Expr.nodesOf more ⊆ es
  | [], _ => List.nil_subset _
  | e :: rest, members => by
    rw [List.forall_mem_cons] at members
    rw [Expr.nodesOf]
    exact List.append_subset.mpr
      ⟨nodes_subset closed e members.1, nodesOf_subset closed rest members.2⟩

end

end ClosedNodes

mutual

theorem Expr.nodes_closed : (e : Expr) → ClosedNodes e.nodes
  | .literal .. | .parameter .. | .path .. => .leaf rfl
  | .call _ _ arguments _ _ => ClosedNodes.node (nodesOf_closed arguments)
  | .tuple _ elements _ => ClosedNodes.node (nodesOf_closed elements)

theorem Expr.nodesOf_closed : (es : List Expr) → ClosedNodes (Expr.nodesOf es)
  | [] => .nil
  | e :: rest => (nodes_closed e).append (nodesOf_closed rest)

end

mutual

theorem Predicate.nodes_closed : (p : Predicate) → ClosedNodes p.nodes
  | .comparison lhs _ rhs => lhs.nodes_closed.append rhs.nodes_closed
  | .inList test items _ => test.nodes_closed.append (Expr.nodesOf_closed items)
  | .and children | .or children => nodesOf_closed children
  | .not inner => nodes_closed inner
  | .isNull e _ => e.nodes_closed

theorem Predicate.nodesOf_closed : (ps : List Predicate) → ClosedNodes (Predicate.nodesOf ps)
  | [] => .nil
  | p :: rest => (nodes_closed p).append (nodesOf_closed rest)

end

theorem restrictionNodes_closed (restriction : Option Predicate) :
    ClosedNodes (restrictionNodes restriction) := by
  cases restriction with
  | none => exact .nil
  | some p => exact p.nodes_closed

theorem Statement.nodes_closed (s : Statement) : ClosedNodes s.nodes := by
  cases s with
  | select s =>
    refine .append (.append (.flatMap _ fun root => ?_) (.flatMap _ fun item => ?_)) ?_
    · exact .flatMap _ Expr.nodesOf_closed
    · exact item.expr.nodes_closed
    · exact restrictionNodes_closed _
  | update u =>
    exact .append (.flatMap _ fun a => a.value.nodes_closed) (restrictionNodes_closed _)
  | delete d => exact restrictionNodes_closed _

end SemanticQuery.Query
