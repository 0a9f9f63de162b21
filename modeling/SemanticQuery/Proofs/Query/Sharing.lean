import Mathlib.Data.List.Dedup
import SemanticQuery.Proofs.KeyedList
import SemanticQuery.Proofs.Query.Bare
import SemanticQuery.Proofs.Query.Renaming

/-! Copies keep sharing. A private copy is its statement under new identities, one for each call or tuple
that the statement holds, so two of its places hold one node exactly where two places of the statement
do. -/
namespace SemanticQuery.Query

/-- Nodes that their identities tell apart. -/
def Identified (N : List Expr) : Prop := ∀ e ∈ N, ∀ other ∈ N, e.node = other.node → e = other

theorem identified_of_listed {N listed : List Expr} (distinct : (listed.map Expr.node).Nodup)
    (within : N ⊆ listed) : Identified N := fun _ mem _ memOther same =>
  List.inj_on_of_nodup_map distinct (within mem) (within memOther) same

namespace CopyContext

/-- A node has a copy. -/
def Knows (c : CopyContext) (node : NodeId) : Prop := ∃ copy, c.copies.find? node = some copy

/-- The copies have the identities that a renaming gives to their nodes. -/
def NamedBy (c : CopyContext) (name : NodeId → NodeId) : Prop :=
  ∀ ⦃node copy⦄, c.copies.find? node = some copy → copy.node = name node

/-- The renaming that a context stands for. -/
def name (c : CopyContext) (node : NodeId) : NodeId :=
  ((c.copies.find? node).map Expr.node).getD node

theorem namedBy_name (c : CopyContext) : c.NamedBy c.name := by
  intro node copy found
  rw [name, found]
  rfl

end CopyContext

namespace Copying

/-- What is kept for a node is the node renamed, and the nodes below it have copies too. -/
structure Shared (N : List Expr) (s : Copying) : Prop where
  renamed : ∀ e ∈ N, e.isRebuilt = true → ∀ {copy}, s.context.copies.find? e.node = some copy →
    ∀ {name}, s.context.NamedBy name → copy = e.renamed name
  closed : ∀ e ∈ N, s.context.Knows e.node → ∀ d ∈ e.nodes, d.isRebuilt = true → s.context.Knows d.node

/-- No two nodes have one copy, and the copies are numbered on from a start. -/
structure Numbered (start : NodeId) (s : Copying) : Prop where
  single : ∀ {node other copy copy'}, s.context.copies.find? node = some copy →
    s.context.copies.find? other = some copy' → copy.node = copy'.node → node = other
  within : ∀ {node copy}, s.context.copies.find? node = some copy →
    start ≤ copy.node ∧ copy.node < s.nextNode
  later : start ≤ s.nextNode

/-- From one state of copying to a later one, with some nodes copied in between: earlier copies are kept,
and each new one has taken a number. -/
structure Grown (N nodes : List Expr) (s s' : Copying) : Prop where
  shared : s'.Shared N
  kept : ∀ {node copy}, s.context.copies.find? node = some copy →
    s'.context.copies.find? node = some copy
  known : ∀ {node}, s'.context.Knows node ↔
    s.context.Knows node ∨ ∃ e ∈ nodes, e.isRebuilt = true ∧ e.node = node
  taken : s'.nextNode + s.context.size = s.nextNode + s'.context.size
  numbered : ∀ {start}, s.Numbered start → s'.Numbered start

namespace Grown
variable {N nodes more : List Expr} {s s' s'' : Copying}

theorem refl (shared : s.Shared N) (old : ∀ e ∈ nodes, e.isRebuilt = true → s.context.Knows e.node) :
    Grown N nodes s s := by
  refine ⟨shared, id, fun {node} => ⟨.inl, ?_⟩, rfl, id⟩
  rintro (known | ⟨e, mem, rebuilt, rfl⟩)
  · exact known
  · exact old e mem rebuilt

theorem trans (first : Grown N nodes s s') (later : Grown N more s' s'') :
    Grown N (nodes ++ more) s s'' where
  shared := later.shared
  kept found := later.kept (first.kept found)
  known {node} := by
    simp only [later.known, first.known, List.mem_append, or_assoc, or_and_right, exists_or]
  taken := by
    have sum {a b c x y z : Nat} (before : b + x = a + y) (after : c + y = b + z) : c + x = a + z := by
      omega
    exact sum first.taken later.taken
  numbered start := later.numbered (first.numbered start)

theorem congr (grown : Grown N nodes s s') (same : ∀ e, e ∈ nodes ↔ e ∈ more) : Grown N more s s' :=
  { grown with known := fun {node} => by simp only [grown.known, same] }

/-- A renaming of the later copies is one of the earlier. -/
theorem namedBy (grown : Grown N nodes s s') {name : NodeId → NodeId}
    (named : s'.context.NamedBy name) : s.context.NamedBy name :=
  fun _ _ found => named (grown.kept found)

/-- Where every node had its copy before, nothing is copied. -/
theorem eq_of_known (grown : Grown N nodes s s')
    (old : ∀ e ∈ nodes, e.isRebuilt = true → s.context.Knows e.node) : s' = s := by
  have copies : s'.context.copies = s.context.copies := by
    refine KeyedList.eq_of_find? fun node => ?_
    cases found : s.context.copies.find? node with
    | some copy => exact grown.kept found
    | none =>
      refine Option.eq_none_iff_forall_ne_some.mpr fun copy new => ?_
      obtain ⟨copy, known⟩ | ⟨e, mem, rebuilt, rfl⟩ := grown.known.mp ⟨copy, new⟩
      · rw [found] at known
        contradiction
      · obtain ⟨copy, known⟩ := old e mem rebuilt
        rw [found] at known
        contradiction
  have context : s'.context = s.context := congrArg CopyContext.mk copies
  have next : s'.nextNode = s.nextNode := by
    have taken := grown.taken
    rw [context] at taken
    exact Nat.add_right_cancel taken
  exact congrArg₂ Copying.mk context next

end Grown

end Copying

/-- A copying step over some nodes, with a property of its result under any renaming that the copies kept
at its end have. -/
def Renames {α : Type} (N nodes : List Expr)
    (post : (NodeId → NodeId) → α → Prop) (m : CopyM α) : Prop :=
  ∀ ⦃s : Copying⦄, s.Shared N → Copying.Grown N nodes s (m s).2 ∧
    ∀ {name}, (m s).2.context.NamedBy name → post name (m s).1

variable {N nodes more : List Expr} {α β : Type}

namespace Renames

theorem pure {post : (NodeId → NodeId) → α → Prop} {a : α} (holds : ∀ name, post name a) :
    Renames N [] post (pure a) := fun _ shared =>
  ⟨.refl shared (by simp), fun {name} _ => holds name⟩

theorem bind {before : (NodeId → NodeId) → α → Prop} {after : (NodeId → NodeId) → β → Prop}
    {m : CopyM α} {f : α → CopyM β} (first : Renames N nodes before m)
    (next : ∀ a, Renames N more (fun name b => before name a → after name b) (f a)) :
    Renames N (nodes ++ more) after (m >>= f) := by
  intro s shared
  obtain ⟨grown, made⟩ := first shared
  obtain ⟨grownLater, madeLater⟩ := next (m s).1 grown.shared
  exact ⟨grown.trans grownLater, fun named => madeLater named (made (grownLater.namedBy named))⟩

/-- The last step only puts together what was made. -/
theorem map {before : (NodeId → NodeId) → α → Prop} {after : (NodeId → NodeId) → β → Prop}
    {m : CopyM α} {f : α → β} (first : Renames N nodes before m)
    (holds : ∀ name a, before name a → after name (f a)) :
    Renames N nodes after (do let a ← m; return f a) := fun _ shared =>
  (first shared).imp_right fun made _ named => holds _ _ (made named)

theorem mapM {f : α → CopyM β} {nodesOf : α → List Expr} (renamed : (NodeId → NodeId) → α → β)
    (as : List α)
    (each : ∀ a ∈ as, Renames N (nodesOf a) (fun name b => b = renamed name a) (f a)) :
    Renames N (as.flatMap nodesOf) (fun name bs => bs = as.map (renamed name)) (as.mapM f) := by
  induction as with
  | nil => exact .pure fun _ => rfl
  | cons a rest ih =>
    rw [List.forall_mem_cons] at each
    rw [List.mapM_cons]
    refine each.1.bind fun b => ?_
    refine (ih each.2).map fun name bs later first => ?_
    rw [first, later, List.map_cons]

end Renames

/-- A copy with the next number is not the copy of another node. -/
theorem Copying.Numbered.insert {start node : NodeId} {s : Copying} (numbered : s.Numbered start)
    {copy : Expr} (number : copy.node = s.nextNode) :
    Copying.Numbered start ⟨⟨s.context.copies.insert node copy⟩, s.nextNode + 1⟩ where
  single {id other found found'} new new' same := by
    obtain ⟨rfl, rfl⟩ | old := KeyedList.of_find?_insert new
    · obtain ⟨rfl, -⟩ | old' := KeyedList.of_find?_insert new'
      · rfl
      · exact absurd (number.symm.trans same) (Nat.ne_of_gt (numbered.within old').2)
    · obtain ⟨rfl, rfl⟩ | old' := KeyedList.of_find?_insert new'
      · exact absurd (same.trans number) (Nat.ne_of_lt (numbered.within old).2)
      · exact numbered.single old old' same
  within new := by
    obtain ⟨-, rfl⟩ | old := KeyedList.of_find?_insert new
    · rw [number]
      exact ⟨numbered.later, Nat.lt_succ_self _⟩
    · exact (numbered.within old).imp_right Nat.lt_succ_of_lt
  later := Nat.le_succ_of_le numbered.later

/-- The copy of a node that has none yet, while the nodes below it have theirs. -/
theorem keepCopy_grown (single : Identified N) {e : Expr}
    (mem : e ∈ N) (rebuilt : e.isRebuilt = true) (rebuild : NodeId → Expr)
    (node : ∀ fresh, (rebuild fresh).node = fresh) {s : Copying} (shared : s.Shared N)
    (missing : s.context.copies.find? e.node = none)
    (below : ∀ d ∈ Expr.nodesOf e.parts, d.isRebuilt = true → s.context.Knows d.node)
    (made : ∀ {name}, s.context.NamedBy name → rebuild (name e.node) = e.renamed name) :
    Copying.Grown N [e] s (keepCopy e.node rebuild s).2 ∧
      ∀ {name}, (keepCopy e.node rebuild s).2.context.NamedBy name →
        (keepCopy e.node rebuild s).1 = e.renamed name := by
  obtain ⟨copy, fresh⟩ : ∃ copy, copy = rebuild s.nextNode := ⟨_, rfl⟩
  have number : copy.node = s.nextNode := fresh ▸ node _
  have state : keepCopy e.node rebuild s =
      (copy, ⟨⟨s.context.copies.insert e.node copy⟩, s.nextNode + 1⟩) := fresh ▸ rfl
  rw [state]
  have own : (s.context.copies.insert e.node copy).find? e.node = some copy :=
    KeyedList.find?_insert_self ..
  have kept {id found} (old : s.context.copies.find? id = some found) :
      (s.context.copies.insert e.node copy).find? id = some found :=
    KeyedList.find?_insert_of_missing missing old
  have result {name : NodeId → NodeId}
      (named : CopyContext.NamedBy ⟨s.context.copies.insert e.node copy⟩ name) :
      copy = e.renamed name := by
    rw [← made fun _ _ old => named (kept old), ← named own, number, fresh]
  refine ⟨⟨⟨?renamed, ?closed⟩, kept, ?known, ?taken, fun numbered => numbered.insert number⟩, result⟩
  case renamed =>
    intro other memOther rebuiltOther found new name named
    obtain ⟨same, rfl⟩ | old := KeyedList.of_find?_insert new
    · rw [single other memOther e mem same]
      exact result named
    · exact shared.renamed other memOther rebuiltOther old fun _ _ old => named (kept old)
  case closed =>
    rintro other memOther ⟨found, new⟩ d memBelow rebuiltBelow
    have old : s.context.Knows d.node ∨ d = e := by
      obtain ⟨same, -⟩ | old := KeyedList.of_find?_insert new
      · rw [single other memOther e mem same, Expr.nodes_eq, List.mem_cons] at memBelow
        exact memBelow.symm.imp_left fun memBelow => below d memBelow rebuiltBelow
      · exact .inl (shared.closed other memOther ⟨found, old⟩ d memBelow rebuiltBelow)
    obtain ⟨known, old⟩ | rfl := old
    · exact ⟨known, kept old⟩
    · exact ⟨copy, own⟩
  case known =>
    intro id
    constructor
    · rintro ⟨found, new⟩
      obtain ⟨rfl, -⟩ | old := KeyedList.of_find?_insert new
      · exact .inr ⟨e, List.mem_singleton_self e, rebuilt, rfl⟩
      · exact .inl ⟨found, old⟩
    · rintro (⟨found, old⟩ | ⟨other, memOther, -, rfl⟩)
      · exact ⟨found, kept old⟩
      · rw [List.mem_singleton.mp memOther]
        exact ⟨copy, own⟩
  case taken =>
    have size := KeyedList.size_insert_of_missing (v := copy) missing
    exact (Nat.add_right_comm ..).trans ((Nat.add_assoc ..).trans (congrArg (s.nextNode + ·) size.symm))

theorem run_get (f : Copying → CopyM α) (s : Copying) : (get >>= f) s = f s s := rfl

/-- A call or tuple is copied behind its parts, and so for the first time, unless its copy is known. -/
theorem copyOnce_renames (single : Identified N) {e : Expr}
    (members : ∀ d ∈ e.nodes, d ∈ N) (rebuilt : e.isRebuilt = true) {m : CopyM (List Expr)}
    {rebuild : List Expr → NodeId → Expr}
    (parts : Renames N (Expr.nodesOf e.parts) (fun name copied => copied = Expr.renamedAll name e.parts) m)
    (node : ∀ copied fresh, (rebuild copied fresh).node = fresh)
    (made : ∀ name, rebuild (Expr.renamedAll name e.parts) (name e.node) = e.renamed name) :
    Renames N e.nodes (fun name copy => copy = e.renamed name) (do
      match (← get).context.copies.find? e.node with
      | some known => return known
      | none =>
        let copied ← m
        keepCopy e.node (rebuild copied)) := by
  intro s shared
  have mem : e ∈ N := members e e.mem_nodes
  cases found : s.context.copies.find? e.node with
  | some known =>
    simp only [run_get, found]
    refine ⟨.refl shared (shared.closed e mem ⟨known, found⟩), fun {name} named => ?_⟩
    exact shared.renamed e mem rebuilt found named
  | none =>
    obtain ⟨grown, copied⟩ := parts shared
    have missing : (m s).2.context.copies.find? e.node = none := by
      refine Option.eq_none_iff_forall_ne_some.mpr fun copy new => ?_
      obtain ⟨copy, known⟩ | ⟨d, below, -, same⟩ := grown.known.mp ⟨copy, new⟩
      · rw [found] at known
        contradiction
      · have memBelow : d ∈ e.nodes := e.nodes_eq ▸ List.mem_cons_of_mem _ below
        rw [single d (members d memBelow) e mem same] at below
        exact e.not_mem_nodesOf_parts below
    have below : ∀ d ∈ Expr.nodesOf e.parts, d.isRebuilt = true → (m s).2.context.Knows d.node :=
      fun d memBelow rebuiltBelow => grown.known.mpr (.inr ⟨d, memBelow, rebuiltBelow, rfl⟩)
    obtain ⟨last, result⟩ := keepCopy_grown single mem rebuilt (rebuild (m s).1) (node _)
      grown.shared missing below fun {name} named => by rw [copied named, made]
    simp only [run_get, found]
    refine ⟨(grown.trans last).congr fun d => ?_, result⟩
    rw [e.nodes_eq, List.mem_append, List.mem_singleton, List.mem_cons, or_comm]

theorem leaf_renames {e : Expr} (leaf : e.nodes = [e]) (kept : e.isRebuilt = false) :
    Renames N e.nodes (fun name copy => copy = e.renamed name) (pure e) := by
  intro s shared
  refine ⟨.refl shared fun d mem rebuilt => ?_, fun {name} _ => (e.renamed_of_kept name kept).symm⟩
  rw [leaf, List.mem_singleton] at mem
  rw [mem, kept] at rebuilt
  contradiction

mutual

theorem Expr.copy_renames (single : Identified N) : (e : Expr) → (∀ d ∈ e.nodes, d ∈ N) →
    Renames N e.nodes (fun name copy => copy = e.renamed name) e.copy
  | .literal .., _ | .parameter .., _ | .path .., _ => leaf_renames rfl rfl
  | .call node function arguments implied notes, members => by
    have below := copyAll_renames single arguments fun d mem => members d (List.mem_cons_of_mem _ mem)
    rw [copy]
    exact copyOnce_renames single members rfl below (fun _ _ => rfl) fun _ => rfl
  | .tuple node elements notes, members => by
    have below := copyAll_renames single elements fun d mem => members d (List.mem_cons_of_mem _ mem)
    rw [copy]
    exact copyOnce_renames single members rfl below (fun _ _ => rfl) fun _ => rfl

theorem Expr.copyAll_renames (single : Identified N) : (es : List Expr) → (∀ d ∈ Expr.nodesOf es, d ∈ N) →
    Renames N (Expr.nodesOf es) (fun name copied => copied = Expr.renamedAll name es)
      (Expr.copyAll es)
  | [], _ => .pure fun _ => rfl
  | e :: rest, members => by
    rw [nodesOf, List.forall_mem_append] at members
    rw [copyAll]
    refine (copy_renames single e members.1).bind fun first => ?_
    refine (copyAll_renames single rest members.2).map fun name later others own => ?_
    rw [own, others, renamedAll]

end

mutual

theorem Predicate.copy_renames (single : Identified N) : (p : Predicate) → (∀ d ∈ p.nodes, d ∈ N) →
    Renames N p.nodes (fun name copy => copy = p.renamed name) p.copy
  | .comparison lhs operator rhs, members => by
    rw [nodes, List.forall_mem_append] at members
    rw [copy]
    refine (lhs.copy_renames single members.1).bind fun l => ?_
    refine (rhs.copy_renames single members.2).map fun name r right left => ?_
    rw [left, right, renamed]
  | .inList test items negated, members => by
    rw [nodes, List.forall_mem_append] at members
    rw [copy]
    refine (test.copy_renames single members.1).bind fun t => ?_
    refine (Expr.copyAll_renames single items members.2).map fun name copied all own => ?_
    rw [own, all, renamed]
  | .and children, members => by
    rw [copy]
    refine (copyAll_renames single children members).map fun name copied all => ?_
    rw [all, renamed]
  | .or children, members => by
    rw [copy]
    refine (copyAll_renames single children members).map fun name copied all => ?_
    rw [all, renamed]
  | .not inner, members => by
    rw [copy]
    refine (copy_renames single inner members).map fun name copied own => ?_
    rw [own, renamed]
  | .isNull e negated, members => by
    rw [copy]
    refine (e.copy_renames single members).map fun name copied own => ?_
    rw [own, renamed]

theorem Predicate.copyAll_renames (single : Identified N) : (ps : List Predicate) →
    (∀ d ∈ Predicate.nodesOf ps, d ∈ N) →
    Renames N (Predicate.nodesOf ps) (fun name copied => copied = Predicate.renamedAll name ps)
      (Predicate.copyAll ps)
  | [], _ => .pure fun _ => rfl
  | p :: rest, members => by
    rw [nodesOf, List.forall_mem_append] at members
    rw [copyAll]
    refine (copy_renames single p members.1).bind fun first => ?_
    refine (copyAll_renames single rest members.2).map fun name later others own => ?_
    rw [own, others, renamedAll]

end

theorem copyRestriction_renames (single : Identified N) (restriction : Option Predicate)
    (members : ∀ d ∈ restrictionNodes restriction, d ∈ N) :
    Renames N (restrictionNodes restriction)
      (fun name copy => copy = restriction.map (Predicate.renamed name)) (copyRestriction restriction) := by
  cases restriction with
  | none => exact .pure fun _ => rfl
  | some p => exact (p.copy_renames single members).map fun _ _ own => congrArg some own

theorem ValuesRoot.copy_renames (single : Identified N) (root : ValuesRoot)
    (members : ∀ d ∈ root.rows.flatMap Expr.nodesOf, d ∈ N) :
    Renames N (root.rows.flatMap Expr.nodesOf) (fun name copy => copy = root.renamed name)
      root.copy := by
  rw [List.forall_mem_flatMap] at members
  have rows := Renames.mapM Expr.renamedAll root.rows fun row mem =>
    Expr.copyAll_renames single row (members row mem)
  refine rows.map fun name rows all => ?_
  rw [all, renamed]

theorem Selection.copy_renames (single : Identified N) (item : Selection)
    (members : ∀ d ∈ item.expr.nodes, d ∈ N) :
    Renames N item.expr.nodes (fun name copy => copy = item.renamed name) item.copy := by
  refine (item.expr.copy_renames single members).map fun name copied own => ?_
  rw [own, renamed]

theorem Assignment.copy_renames (single : Identified N) (a : Assignment)
    (members : ∀ d ∈ a.value.nodes, d ∈ N) :
    Renames N a.value.nodes (fun name copy => copy = a.renamed name) a.copy := by
  refine (a.value.copy_renames single members).map fun name copied own => ?_
  rw [own, renamed]

/-- The copy of a statement is the statement under the identities of the copies of its nodes. -/
theorem Statement.copy_renames (single : Identified N) (s : Statement) (members : ∀ d ∈ s.nodes, d ∈ N) :
    Renames N s.nodes (fun name copy => copy = s.renamed name) s.copy := by
  cases s with
  | select s =>
    simp only [nodes, List.forall_mem_append, List.forall_mem_flatMap] at members
    obtain ⟨⟨values, selections⟩, restriction⟩ := members
    have roots := Renames.mapM ValuesRoot.renamed s.values fun root mem =>
      root.copy_renames single (List.forall_mem_flatMap.mpr (values root mem))
    have items := Renames.mapM Selection.renamed s.selections fun item mem =>
      item.copy_renames single (selections item mem)
    have restricted := copyRestriction_renames single s.restriction restriction
    rw [nodes, List.append_assoc]
    refine roots.bind fun copies => items.bind fun selected => ?_
    refine restricted.map fun name restriction last selections values => ?_
    rw [values, selections, last, renamed]
  | update u =>
    simp only [nodes, List.forall_mem_append, List.forall_mem_flatMap] at members
    obtain ⟨assigned, restriction⟩ := members
    have values := Renames.mapM Assignment.renamed u.assignments fun a mem =>
      a.copy_renames single (assigned a mem)
    refine values.bind fun copies => ?_
    refine (copyRestriction_renames single u.restriction restriction).map fun name _ last values => ?_
    rw [values, last, renamed]
  | delete d =>
    refine (copyRestriction_renames single d.restriction members).map fun name _ last => ?_
    rw [last, renamed]

/-- A first copy of a statement is the statement renamed, and has one entry for each rebuilt node. -/
theorem copyInto_renamed {s : Statement} (shares : s.Shares) (w : Workspace) :
    ∃ copies : CopyContext, ∃ next,
      copyInto s.copy .empty w = (s.renamed copies.name, copies, { w with nextNode := next }) ∧
      Copying.Grown s.nodes s.nodes ⟨.empty, w.nextNode⟩ ⟨copies, next⟩ ∧
      Copying.Numbered w.nextNode ⟨copies, next⟩ := by
  have shared : Copying.Shared s.nodes ⟨.empty, w.nextNode⟩ := by
    refine ⟨?_, ?_⟩
    · intro e _ _ copy found
      contradiction
    · rintro e _ ⟨copy, found⟩
      contradiction
  have numbered : Copying.Numbered w.nextNode ⟨.empty, w.nextNode⟩ := by
    refine ⟨?_, ?_, Nat.le_refl _⟩
    · intro node other copy copy' found
      contradiction
    · intro node copy found
      contradiction
  obtain ⟨grown, made⟩ := s.copy_renames shares (fun _ mem => mem) shared
  refine ⟨_, _, ?_, grown, grown.numbered numbered⟩
  rw [← made (CopyContext.namedBy_name _)]
  rfl

section
variable {s : Statement} {c : CopyContext} {start next : NodeId}

/-- Each rebuilt node of a copied statement has its copy in the context. -/
theorem Copying.Grown.entry (grown : Grown s.nodes s.nodes ⟨.empty, start⟩ ⟨c, next⟩) {e : Expr}
    (mem : e ∈ s.nodes) (rebuilt : e.isRebuilt = true) :
    c.copies.find? e.node = some (e.renamed c.name) := by
  obtain ⟨copy, found⟩ := grown.known.mpr (.inr ⟨e, mem, rebuilt, rfl⟩)
  rw [← grown.shared.renamed e mem rebuilt found c.namedBy_name]
  exact found

theorem Copying.Grown.size_eq (grown : Grown s.nodes s.nodes ⟨.empty, start⟩ ⟨c, next⟩) :
    c.size = ((s.nodes.filter Expr.isRebuilt).map Expr.node).dedup.length := by
  have listed : c.copies.keys.Perm ((s.nodes.filter Expr.isRebuilt).map Expr.node).dedup := by
    refine (List.perm_ext_iff_of_nodup c.copies.keys_nodup (List.nodup_dedup _)).mpr fun node => ?_
    rw [KeyedList.mem_keys_iff, List.mem_dedup, List.mem_map]
    refine grown.known.trans ?_
    simp [CopyContext.Knows, CopyContext.empty, and_assoc]
  rw [← listed.length_eq, KeyedList.keys, List.length_map]
  rfl

/-- Identities of the copy are those of the statement where it keeps the node, and new where it does not. -/
theorem renamed_node_iff (shares : s.Shares) (handedOut : ∀ e ∈ s.nodes, e.node < start)
    (grown : Copying.Grown s.nodes s.nodes ⟨.empty, start⟩ ⟨c, next⟩)
    (numbered : Copying.Numbered start ⟨c, next⟩) {a b : Expr} (memA : a ∈ s.nodes) (memB : b ∈ s.nodes) :
    (a.renamed c.name).node = (b.renamed c.name).node ↔ a.node = b.node := by
  have apart {a b : Expr} (memA : a ∈ s.nodes) (memB : b ∈ s.nodes) (rebuilt : a.isRebuilt = true)
      (kept : b.isRebuilt = false) : (a.renamed c.name).node ≠ b.node ∧ a.node ≠ b.node := by
    refine ⟨fun same => ?_, fun same => ?_⟩
    · have late := (numbered.within (grown.entry memA rebuilt)).1
      exact absurd (same ▸ handedOut b memB) (Nat.not_lt.mpr late)
    · rw [shares a memA b memB same, kept] at rebuilt
      contradiction
  cases rebuiltA : a.isRebuilt with
  | true =>
    cases rebuiltB : b.isRebuilt with
    | true =>
      refine ⟨numbered.single (grown.entry memA rebuiltA) (grown.entry memB rebuiltB), fun same => ?_⟩
      rw [shares a memA b memB same]
    | false =>
      rw [b.renamed_of_kept _ rebuiltB]
      have different := apart memA memB rebuiltA rebuiltB
      exact iff_of_false different.1 different.2
  | false =>
    rw [a.renamed_of_kept _ rebuiltA]
    cases rebuiltB : b.isRebuilt with
    | true =>
      have different := apart memB memA rebuiltB rebuiltA
      exact iff_of_false different.1.symm different.2.symm
    | false => rw [b.renamed_of_kept _ rebuiltB]

/-- A statement copied again into the context that has its copies comes out as it did. -/
theorem Copying.Grown.again (shares : s.Shares)
    (grown : Grown s.nodes s.nodes ⟨.empty, start⟩ ⟨c, next⟩) (later : Workspace) :
    copyInto s.copy c later = (s.renamed c.name, c, later) := by
  have shared : Copying.Shared s.nodes ⟨c, later.nextNode⟩ := ⟨grown.shared.renamed, grown.shared.closed⟩
  have known : ∀ e ∈ s.nodes, e.isRebuilt = true → c.Knows e.node :=
    fun e mem rebuilt => ⟨_, grown.entry mem rebuilt⟩
  obtain ⟨grownAgain, made⟩ := s.copy_renames shares (fun _ mem => mem) shared
  have state := grownAgain.eq_of_known known
  rw [state] at made
  have ran : s.copy ⟨c, later.nextNode⟩ = (s.renamed c.name, ⟨c, later.nextNode⟩) :=
    Prod.ext (made c.namedBy_name) state
  rw [copyInto, ran]

end

/-- A copy that was made under a renaming, with the context it was made in and the workspace then. -/
structure Statement.CopiedAs (s copy : Statement) (c : CopyContext) (w : Workspace)
    (name : NodeId → NodeId) : Prop where
  same : copy = s.renamed name
  /-- Literals, parameters and paths are what they were. -/
  leaves : ∀ {i : Nat} {e}, s.nodes[i]? = some e → e.isRebuilt = false → copy.nodes[i]? = some e
  calls : ∀ {i : Nat} {node function arguments implied notes},
    s.nodes[i]? = some (.call node function arguments implied notes) →
      copy.nodes[i]? = some (.call (name node) function (Expr.renamedAll name arguments) implied notes)
  tuples : ∀ {i : Nat} {node elements notes}, s.nodes[i]? = some (.tuple node elements notes) →
    copy.nodes[i]? = some (.tuple (name node) (Expr.renamedAll name elements) notes)
  sharing : ∀ {i j : Nat} {a b a' b'}, s.nodes[i]? = some a → s.nodes[j]? = some b →
    copy.nodes[i]? = some a' → copy.nodes[j]? = some b' → (a'.node = b'.node ↔ a.node = b.node)
  new : ∀ e ∈ copy.nodes, e.isRebuilt = true → ∀ other ∈ s.nodes, e.node ≠ other.node
  unresolved : ∀ e ∈ copy.nodes, e.isRebuilt = true → w.types.find? e.node = none
  entries : ∀ e ∈ s.nodes, e.isRebuilt = true → c.find? e = some (e.renamed name)
  size : c.size = ((s.nodes.filter Expr.isRebuilt).map Expr.node).dedup.length
  again : ∀ later : Workspace, copyInto s.copy c later = (copy, c, later)

/-- Copying a statement whose nodes were handed out before, in an empty context. -/
theorem copy_keeps_sharing {s : Statement} {w : Workspace} (shares : s.Shares)
    (handedOut : ∀ e ∈ s.nodes, e.node < w.nextNode) (fresh : w.Fresh) :
    ∃ copy c w' name, copyInto s.copy .empty w = (copy, c, w') ∧ s.CopiedAs copy c w' name := by
  obtain ⟨c, next, ran, grown, numbered⟩ := copyInto_renamed shares w
  have at_place {i : Nat} {e : Expr} (place : s.nodes[i]? = some e) :
      (s.renamed c.name).nodes[i]? = some (e.renamed c.name) := by
    rw [s.nodes_renamed, List.getElem?_map, place, Option.map_some]
  have late {e : Expr} (mem : e ∈ (s.renamed c.name).nodes) (rebuilt : e.isRebuilt = true) :
      w.nextNode ≤ e.node := by
    rw [s.nodes_renamed, List.mem_map] at mem
    obtain ⟨d, member, rfl⟩ := mem
    rw [Expr.isRebuilt_renamed] at rebuilt
    exact (numbered.within (grown.entry member rebuilt)).1
  refine ⟨_, c, _, c.name, ran, rfl, ?_, at_place, at_place, ?_, ?_, ?_, fun e => grown.entry,
    grown.size_eq, grown.again shares⟩
  · intro i e place kept
    rw [at_place place, e.renamed_of_kept _ kept]
  · intro i j a b a' b' placeA placeB placeA' placeB'
    rw [at_place placeA] at placeA'
    rw [at_place placeB] at placeB'
    obtain rfl := Option.some.inj placeA'
    obtain rfl := Option.some.inj placeB'
    exact renamed_node_iff shares handedOut grown numbered (List.mem_of_getElem? placeA)
      (List.mem_of_getElem? placeB)
  · intro e mem rebuilt other memOther
    exact Nat.ne_of_gt (Nat.lt_of_lt_of_le (handedOut other memOther) (late mem rebuilt))
  · intro e mem rebuilt
    refine Option.eq_none_iff_forall_ne_some.mpr fun type found => ?_
    exact absurd (fresh found) (Nat.not_lt.mpr (late mem rebuilt))

/-! A select that holds one call as a cell of inline rows, in a tuple that it selects twice, and in its
restriction. -/
namespace Diamond
open Dates

def limit : Expr := .parameter 0 ⟨0, ⟨.named "limit", none, false⟩, none, none⟩

def day : Expr := .call 1 today [] none .none

def pair : Expr := .tuple 2 [day, limit] .none

def rows : Path := ⟨["dates"], by simp, by decide⟩

def statement : Statement := .select {
  roots := []
  values := [⟨rows, ["day"], [[day]]⟩]
  selections := [⟨pair, none⟩, ⟨pair, some "again"⟩]
  restriction := some (.comparison day .less limit) }

theorem nodes_listed : statement.nodes ⊆ [limit, day, pair] := by
  have places : statement.nodes = [day, pair, day, limit, pair, day, limit, day, limit] := rfl
  rw [places]
  simp

/-- The call and the tuple are copied once each, to whatever number of places. -/
theorem call_is_copied_once : ∃ copy c w' name,
    copyInto statement.copy .empty ⟨3, .empty, []⟩ = (copy, c, w') ∧
      statement.CopiedAs copy c w' name ∧ w'.nextNode = 5 ∧ c.size = 2 ∧
      (copy.nodes.map Expr.node) = [3, 4, 3, 0, 4, 3, 0, 3, 0] := by
  have handedOut : ∀ e ∈ statement.nodes, e.node < 3 := fun e mem => by
    have listed : ∀ e ∈ [limit, day, pair], e.node < 3 := by decide
    exact listed e (nodes_listed mem)
  have fresh : (⟨3, .empty, []⟩ : Workspace).Fresh := by
    intro node type found
    contradiction
  obtain ⟨_, _, _, name, ran, copied⟩ := copy_keeps_sharing (w := ⟨3, .empty, []⟩)
    (identified_of_listed (by decide) nodes_listed) handedOut fresh
  cases ran
  exact ⟨_, _, _, name, rfl, copied, rfl, copied.size, rfl⟩

end Diamond

end SemanticQuery.Query
