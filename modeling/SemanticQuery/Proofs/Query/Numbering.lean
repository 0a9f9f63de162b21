import Mathlib.Data.List.Nodup
import SemanticQuery.Proofs.Query.Typing
import SemanticQuery.Query.Copy

/-! Identities of copies. Rebuilt nodes are numbered on from the workspace, each with a number of its
own, so what is kept for other nodes says nothing about a copy. -/
namespace SemanticQuery.Query

/-- Copies made since a number was next, one for each number from there on, with every rebuilt node of
the copies in the context among them. -/
structure Copying.Made (start : NodeId) (s : Copying) (made : List Expr) : Prop where
  known : ∀ {node copy}, s.context.copies.find? node = some copy →
    ∀ d ∈ copy.nodes, d.isRebuilt = true → d ∈ made
  numbered : made.map Expr.node = List.range' start made.length
  next : s.nextNode = start + made.length

/-- A copying step: where some nodes were made before, those of its result are made after. -/
def Makes {α : Type} (start : NodeId) (before : List Expr) (nodesOf : α → List Expr) (m : CopyM α) :
    Prop :=
  ∀ ⦃s : Copying⦄ ⦃made : List Expr⦄, s.Made start made →
    (∀ d ∈ before, d.isRebuilt = true → d ∈ made) →
    ∃ more, (m s).2.Made start (made ++ more) ∧
      ∀ d ∈ nodesOf (m s).1, d.isRebuilt = true → d ∈ made ++ more

variable {start : NodeId} {before : List Expr} {α β : Type} {nodesOf : α → List Expr}

namespace Makes

theorem pure {a : α} (among : ∀ d ∈ nodesOf a, d.isRebuilt = true → d ∈ before) :
    Makes start before nodesOf (pure a) := by
  intro s made count held
  refine ⟨[], (List.append_nil made).symm ▸ count, fun d mem rebuilt => ?_⟩
  rw [List.append_nil]
  exact held d (among d mem rebuilt) rebuilt

theorem bind {later : β → List Expr} {m : CopyM α} {f : α → CopyM β}
    (first : Makes start before nodesOf m)
    (next : ∀ a, Makes start (before ++ nodesOf a) later (f a)) :
    Makes start before later (m >>= f) := by
  intro s made count held
  obtain ⟨more, grown, own⟩ := first count held
  have heldLater : ∀ d ∈ before ++ nodesOf (m s).1, d.isRebuilt = true → d ∈ made ++ more := by
    intro d mem rebuilt
    cases List.mem_append.mp mem with
    | inl early => exact List.mem_append_left _ (held d early rebuilt)
    | inr mem => exact own d mem rebuilt
  obtain ⟨last, grownLater, ownLater⟩ := next _ grown heldLater
  exact ⟨more ++ last, List.append_assoc .. ▸ grownLater, List.append_assoc .. ▸ ownLater⟩

theorem mapM {γ : Type} {f : γ → CopyM α} (cs : List γ)
    (each : ∀ c ∈ cs, ∀ before, Makes start before nodesOf (f c)) :
    ∀ before, Makes start before (fun as => as.flatMap nodesOf) (cs.mapM f) := by
  induction cs with
  | nil => exact fun before => .pure (by simp)
  | cons c rest ih =>
    intro before
    rw [List.forall_mem_cons] at each
    rw [List.mapM_cons]
    refine .bind (each.1 before) fun first => ?_
    refine .bind (ih each.2 _) fun later => .pure fun d mem _ => ?_
    rw [List.flatMap_cons, List.mem_append] at mem
    rw [List.mem_append, List.mem_append]
    exact mem.imp_left .inr

end Makes

/-- The next number goes to the copy that is kept. -/
theorem keepCopy_makes {copied : NodeId} {rebuild : NodeId → Expr} {below : List Expr}
    (node : ∀ fresh, (rebuild fresh).node = fresh)
    (nodes : ∀ fresh, (rebuild fresh).nodes = rebuild fresh :: below) :
    Makes start (before ++ below) Expr.nodes (keepCopy copied rebuild) := by
  intro s made count held
  have own : ∀ d ∈ (rebuild s.nextNode).nodes, d.isRebuilt = true →
      d ∈ made ++ [rebuild s.nextNode] := by
    intro d mem rebuilt
    rw [nodes, List.mem_cons] at mem
    cases mem with
    | inl same => exact List.mem_append_right _ (List.mem_singleton.mpr same)
    | inr mem => exact List.mem_append_left _ (held d (List.mem_append_right _ mem) rebuilt)
  refine ⟨[rebuild s.nextNode], ?_, own⟩
  constructor
  · intro key copy found d mem rebuilt
    change (s.context.copies.insert copied (rebuild s.nextNode)).find? key = some copy at found
    obtain ⟨-, rfl⟩ | before := KeyedList.of_find?_insert found
    · exact own d mem rebuilt
    · exact List.mem_append_left _ (count.known before d mem rebuilt)
  · rw [List.map_append, List.map_singleton, node, count.numbered, count.next, List.length_append,
      List.length_singleton, List.range'_1_concat]
  · rw [List.length_append, List.length_singleton, ← Nat.add_assoc, ← count.next]
    rfl

theorem get_makes : Makes start before
    (fun s : Copying => s.context.copies.values.flatMap Expr.nodes) get := by
  intro s made count held
  refine ⟨[], (List.append_nil made).symm ▸ count, fun d mem rebuilt => ?_⟩
  obtain ⟨copy, listed, mem⟩ := List.mem_flatMap.mp mem
  obtain ⟨node, found⟩ := KeyedList.mem_values_iff.mp listed
  exact List.mem_append_left _ (count.known found d mem rebuilt)

theorem copyOnce_makes {node : NodeId} {m : CopyM Expr}
    (makes : ∀ before, Makes start before Expr.nodes m) :
    ∀ before, Makes start before Expr.nodes (do
      match (← get).context.copies.find? node with
      | some known => return known
      | none => m) := by
  intro before
  refine .bind get_makes fun s => ?_
  cases found : s.context.copies.find? node with
  | some known =>
    refine .pure fun d mem _ => List.mem_append_right _ (List.mem_flatMap.mpr ⟨known, ?_, mem⟩)
    exact KeyedList.mem_values_iff.mpr ⟨node, found⟩
  | none => exact makes _

theorem leaf_makes {e : Expr} (leaf : e.nodes = [e]) (kept : e.isRebuilt = false) :
    Makes start before Expr.nodes (pure e) := by
  refine .pure fun d mem rebuilt => ?_
  rw [leaf, List.mem_singleton] at mem
  rw [mem, kept] at rebuilt
  contradiction

mutual

theorem Expr.copy_makes : (e : Expr) → ∀ before, Makes start before Expr.nodes e.copy
  | .literal .., _ | .parameter .., _ | .path .., _ => leaf_makes rfl rfl
  | .call node function arguments implied notes, before => by
    rw [copy]
    refine copyOnce_makes (fun before => ?_) before
    refine .bind (copyAll_makes arguments before) fun copied => ?_
    exact keepCopy_makes (fun _ => rfl) (fun _ => rfl)
  | .tuple node elements notes, before => by
    rw [copy]
    refine copyOnce_makes (fun before => ?_) before
    refine .bind (copyAll_makes elements before) fun copied => ?_
    exact keepCopy_makes (fun _ => rfl) (fun _ => rfl)

theorem Expr.copyAll_makes : (es : List Expr) → ∀ before,
    Makes start before Expr.nodesOf (Expr.copyAll es)
  | [], _ => .pure (by simp [nodesOf])
  | e :: rest, before => by
    rw [copyAll]
    refine .bind (copy_makes e before) fun first => ?_
    refine .bind (copyAll_makes rest _) fun later => .pure fun d mem _ => ?_
    rw [nodesOf, List.mem_append] at mem
    rw [List.mem_append, List.mem_append]
    exact mem.imp_left .inr

end

mutual

theorem Predicate.copy_makes : (p : Predicate) → ∀ before, Makes start before Predicate.nodes p.copy
  | .comparison lhs _ rhs, before => by
    rw [copy]
    refine .bind (lhs.copy_makes before) fun l => ?_
    refine .bind (rhs.copy_makes _) fun r => .pure fun d mem _ => ?_
    rw [nodes, List.mem_append] at mem
    rw [List.mem_append, List.mem_append]
    exact mem.imp_left .inr
  | .inList test items _, before => by
    rw [copy]
    refine .bind (test.copy_makes before) fun t => ?_
    refine .bind (Expr.copyAll_makes items _) fun copied => .pure fun d mem _ => ?_
    rw [nodes, List.mem_append] at mem
    rw [List.mem_append, List.mem_append]
    exact mem.imp_left .inr
  | .and children, before | .or children, before => by
    rw [copy]
    refine .bind (copyAll_makes children before) fun copied => ?_
    exact .pure fun d mem _ => List.mem_append_right _ mem
  | .not inner, before => by
    rw [copy]
    refine .bind (copy_makes inner before) fun copied => ?_
    exact .pure fun d mem _ => List.mem_append_right _ mem
  | .isNull e _, before => by
    rw [copy]
    refine .bind (e.copy_makes before) fun copied => ?_
    exact .pure fun d mem _ => List.mem_append_right _ mem

theorem Predicate.copyAll_makes : (ps : List Predicate) → ∀ before,
    Makes start before Predicate.nodesOf (Predicate.copyAll ps)
  | [], _ => .pure (by simp [nodesOf])
  | p :: rest, before => by
    rw [copyAll]
    refine .bind (copy_makes p before) fun first => ?_
    refine .bind (copyAll_makes rest _) fun later => .pure fun d mem _ => ?_
    rw [nodesOf, List.mem_append] at mem
    rw [List.mem_append, List.mem_append]
    exact mem.imp_left .inr

end

theorem copyRestriction_makes (restriction : Option Predicate) :
    Makes start before restrictionNodes (copyRestriction restriction) := by
  cases restriction with
  | none => exact .pure (by simp [restrictionNodes])
  | some p =>
    refine .bind (p.copy_makes before) fun copied => ?_
    exact .pure fun d mem _ => List.mem_append_right _ mem

theorem ValuesRoot.copy_makes (root : ValuesRoot) (before : List Expr) :
    Makes start before (fun root : ValuesRoot => root.rows.flatMap Expr.nodesOf) root.copy := by
  refine .bind (.mapM root.rows (fun row _ => Expr.copyAll_makes row) before) fun rows => ?_
  exact .pure fun d mem _ => List.mem_append_right _ mem

theorem Selection.copy_makes (item : Selection) (before : List Expr) :
    Makes start before (fun item : Selection => item.expr.nodes) item.copy := by
  refine .bind (item.expr.copy_makes before) fun copied => ?_
  exact .pure fun d mem _ => List.mem_append_right _ mem

theorem Assignment.copy_makes (a : Assignment) (before : List Expr) :
    Makes start before (fun a : Assignment => a.value.nodes) a.copy := by
  refine .bind (a.value.copy_makes before) fun copied => ?_
  exact .pure fun d mem _ => List.mem_append_right _ mem

/-- Every rebuilt node of a copied statement is one of the copies made. -/
theorem Statement.copy_makes (s : Statement) : Makes start [] Statement.nodes s.copy := by
  cases s with
  | select s =>
    refine .bind (.mapM s.values (fun root _ => root.copy_makes) _) fun values => ?_
    refine .bind (.mapM s.selections (fun item _ => item.copy_makes) _) fun selections => ?_
    refine .bind (copyRestriction_makes s.restriction) fun restriction => ?_
    refine .pure fun d mem _ => ?_
    simpa [nodes, List.nil_append] using mem
  | update u =>
    refine .bind (.mapM u.assignments (fun a _ => a.copy_makes) _) fun assignments => ?_
    refine .bind (copyRestriction_makes u.restriction) fun restriction => ?_
    refine .pure fun d mem _ => ?_
    simpa [nodes, List.nil_append] using mem
  | delete d =>
    refine .bind (copyRestriction_makes d.restriction) fun restriction => ?_
    exact .pure fun d mem _ => List.mem_append_right _ mem

/-- The rebuilt nodes of a private copy are numbered on from the workspace, each for itself. -/
theorem copyInto_numbers (s : Statement) (w : Workspace) :
    Apart (copyInto s.copy .empty w).1.nodes ∧
      (∀ e ∈ (copyInto s.copy .empty w).1.nodes, e.isRebuilt = true →
        w.nextNode ≤ e.node ∧ e.node < (copyInto s.copy .empty w).2.2.nextNode) ∧
      w.nextNode ≤ (copyInto s.copy .empty w).2.2.nextNode := by
  have start : (⟨.empty, w.nextNode⟩ : Copying).Made w.nextNode [] := by
    refine ⟨?_, rfl, rfl⟩
    intro node copy found
    contradiction
  obtain ⟨made, count, own⟩ := s.copy_makes start (by simp)
  rw [List.nil_append] at count own
  have distinct : (made.map Expr.node).Nodup := count.numbered ▸ List.nodup_range'
  have next : (copyInto s.copy .empty w).2.2.nextNode = w.nextNode + made.length := count.next
  rw [next]
  refine ⟨?_, ?_, Nat.le_add_right _ _⟩
  · intro e mem other memOther rebuilt rebuiltOther same
    exact List.inj_on_of_nodup_map distinct (own e mem rebuilt) (own other memOther rebuiltOther) same
  · intro e mem rebuilt
    have numbered := List.mem_map_of_mem (f := Expr.node) (own e mem rebuilt)
    rwa [count.numbered, List.mem_range'_1] at numbered

/-- In a workspace that keeps types only for nodes it handed out, a private copy finds none for its
nodes. -/
theorem copyInto_sound {w : Workspace} (fresh : w.Fresh) (s : Statement) :
    (copyInto s.copy .empty w).2.2.Sound (copyInto s.copy .empty w).1.nodes := by
  obtain ⟨apart, numbers, later⟩ := copyInto_numbers s w
  refine ⟨apart, fun e mem rebuilt => (numbers e mem rebuilt).2, ?_, ?_⟩
  · intro node type kept
    have early : node < w.nextNode := fresh kept
    exact Nat.lt_of_lt_of_le early later
  · intro e mem rebuilt type kept
    have early : e.node < w.nextNode := fresh kept
    exact absurd (numbers e mem rebuilt).1 (Nat.not_le.mpr early)

end SemanticQuery.Query
