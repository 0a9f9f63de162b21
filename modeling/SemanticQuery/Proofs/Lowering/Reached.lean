import SemanticQuery.Proofs.Cache.Untouched
import SemanticQuery.Proofs.Query.Numbering
import SemanticQuery.Proofs.Query.Sharing
import SemanticQuery.Query.Builder

/-! Nodes and workspaces that work on statements can lead to. A builder makes nodes of nodes it made before,
and in between, in whatever order, types are asked for, statements are copied, interpreted and lowered. In
each such workspace the types that are kept are the ones the nodes have by themselves. -/
namespace SemanticQuery.Lowering
open Query Binding Interpretation

/-- The nodes made so far, with those of copies, and the workspace that all steps together led to. A step
counts whether it fails or not. -/
inductive Reached : List Expr → Workspace → Prop
  | start : Reached [] .empty
  /-- A literal, a parameter, a path or a tuple. -/
  | made {N : List Expr} {w : Workspace} (reached : Reached N w) (e : Expr) (own : e.node = w.nextNode)
      (bare : e.called? = none) (parts : e.parts ⊆ N) :
      Reached (e :: N) { w with nextNode := w.nextNode + 1 }
  | called {N : List Expr} {w w' : Workspace} (reached : Reached N w) (b : Builder) (name : String)
      {arguments : List Expr} (parts : arguments ⊆ N) (implied : Option ExprType) (notes : Notes)
      {e : Expr} (made : b.call name arguments implied notes w = .ok e w') : Reached (e :: N) w'
  | refused {N : List Expr} {w w' : Workspace} (reached : Reached N w) (b : Builder) (name : String)
      {arguments : List Expr} (parts : arguments ⊆ N) (implied : Option ExprType) (notes : Notes)
      {failure : FunctionError} (fails : b.call name arguments implied notes w = .error failure w') :
      Reached N w'
  | asked {N : List Expr} {w : Workspace} (reached : Reached N w) {e : Expr} (mem : e ∈ N) :
      Reached N (ended (e.type w)).2
  | copied {N : List Expr} {w : Workspace} (reached : Reached N w) {s : Statement}
      (within : s.nodes ⊆ N) :
      Reached ((copyInto s.copy .empty w).1.nodes ++ N) (copyInto s.copy .empty w).2.2
  | lowered {N : List Expr} {w : Workspace} (reached : Reached N w) {s : Statement} (within : s.nodes ⊆ N)
      (model : Model) (strict : Bool) (expansions : OccurrenceId → List Occurrence) :
      Reached N (ended (lowerStatement model strict expansions s w)).2
  | loweredAlone {N : List Expr} {w : Workspace} (reached : Reached N w) {e : Expr} (mem : e ∈ N)
      (c : Scope) (hint : Option Mapping) (l : Ledger) :
      Reached N (ended (lowerExpr c (pure hint) e ⟨w, l⟩)).2.work
  /-- An interpretation takes a number of its own. -/
  | numbered {N : List Expr} {w : Workspace} (reached : Reached N w) :
      Reached N { w with nextNode := w.nextNode + 1 }
  /-- Events are reported and read off. -/
  | reported {N : List Expr} {w : Workspace} (reached : Reached N w) (events : List Event) :
      Reached N { w with events }

/-- Nodes with identities of their own, and a workspace that keeps none but their own types. -/
structure Consistent (N : List Expr) (w : Workspace) : Prop where
  single : Identified N
  closed : ClosedNodes N
  handedOut : ∀ e ∈ N, e.node < w.nextNode
  fresh : w.Fresh
  kept : ∀ e ∈ N, e.isRebuilt = true → ∀ {type}, w.types.find? e.node = some type → e.ownType = .ok type

theorem find_register (r : Registry) (f : FunctionDef) : (r.register f).find f.name = .ok f := by
  rw [Registry.find, Registry.register, KeyedList.find?_insert_self]

section
variable {b : Builder} {name : String} {function : FunctionDef} {arguments : List Expr}
  {implied : Option ExprType} {notes : Notes}

/-- Arguments that nothing is required of are not asked for types. -/
theorem call_unchecked (found : b.functions.find name = .ok function)
    (unchecked : function.validator = none) (w : Workspace) :
    b.call name arguments implied notes w =
      .ok (.call w.nextNode ⟨function, b.catalog⟩ arguments implied notes)
        { w with nextNode := w.nextNode + 1 } := by
  simp only [Builder.call, Bind.bind, EStateM.bind, found, MonadExcept.ofExcept, Pure.pure, EStateM.pure,
    unchecked]
  rfl

/-- What building a call does: the arguments may be asked for types, and where that goes well the call takes
the next number. -/
theorem call_cases {N : List Expr} (apart : Apart N) (members : ∀ d ∈ Expr.nodesOf arguments, d ∈ N)
    (w : Workspace) :
    (∃ failure w', b.call name arguments implied notes w = .error failure w' ∧ Asked N w w') ∨
    ∃ function w', Asked N w w' ∧ b.call name arguments implied notes w =
      .ok (.call w'.nextNode ⟨function, b.catalog⟩ arguments implied notes)
        { w' with nextNode := w'.nextNode + 1 } := by
  cases found : b.functions.find name with
  | error failure =>
    refine .inl ⟨failure, w, ?_, .refl N w⟩
    simp only [Builder.call, Bind.bind, EStateM.bind, found]
    rfl
  | ok function =>
    cases checked : function.validator with
    | none => exact .inr ⟨function, w, .refl N w, call_unchecked found checked w⟩
    | some v =>
      have asking := checkArguments_asks apart v function.name members w
      simp only [Builder.call, Bind.bind, EStateM.bind, found, MonadExcept.ofExcept, Pure.pure,
        EStateM.pure, checked]
      cases ran : checkArguments v function.name arguments w with
      | error failure w' =>
        rw [ran] at asking
        exact .inl ⟨failure, w', rfl, asking.asked⟩
      | ok _ w' =>
        rw [ran] at asking
        exact .inr ⟨function, w', asking.asked, rfl⟩

end

/-- A node of a private copy is one that the statement has, or it has taken a number. -/
theorem copyInto_kept_or_new {s : Statement} (shares : s.Shares) (w : Workspace) {e : Expr}
    (mem : e ∈ (copyInto s.copy .empty w).1.nodes) :
    e ∈ s.nodes ∨ e.isRebuilt = true ∧
      w.nextNode ≤ e.node ∧ e.node < (copyInto s.copy .empty w).2.2.nextNode := by
  cases rebuilt : e.isRebuilt with
  | true =>
    obtain ⟨-, numbers, -⟩ := copyInto_numbers s w
    exact .inr ⟨rfl, numbers e mem rebuilt⟩
  | false =>
    obtain ⟨copies, next, ran, -, -⟩ := copyInto_renamed shares w
    rw [ran, Statement.nodes_renamed, List.mem_map] at mem
    obtain ⟨d, member, rfl⟩ := mem
    rw [Expr.isRebuilt_renamed] at rebuilt
    rw [d.renamed_of_kept _ rebuilt]
    exact .inl member

namespace Consistent
variable {N : List Expr} {w w' : Workspace}

theorem sound (consistent : Consistent N w) : w.Sound N where
  apart e mem other memOther _ _ := consistent.single e mem other memOther
  below e mem _ := consistent.handedOut e mem
  fresh := consistent.fresh
  kept := consistent.kept

theorem members (consistent : Consistent N w) {e : Expr} (mem : e ∈ N) : ∀ d ∈ e.nodes, d ∈ N :=
  consistent.closed.nodes_subset e mem

theorem shares (consistent : Consistent N w) {s : Statement} (within : s.nodes ⊆ N) : s.Shares :=
  fun e mem other memOther => consistent.single e (within mem) other (within memOther)

theorem start : Consistent [] .empty where
  single := by simp [Identified]
  closed := .nil
  handedOut := by simp
  fresh := Workspace.empty_fresh
  kept := by simp

theorem asked (consistent : Consistent N w) (asked : Asked N w w') : Consistent N w' := by
  have sound := asked.sound (List.Subset.refl N) consistent.sound
  refine ⟨consistent.single, consistent.closed, ?_, sound.fresh, sound.kept⟩
  rw [asked.next]
  exact consistent.handedOut

/-- A new node has the next number and parts that are there already. -/
theorem made (consistent : Consistent N w) {e : Expr} (own : e.node = w.nextNode) (parts : e.parts ⊆ N) :
    Consistent (e :: N) { w with nextNode := w.nextNode + 1 } where
  single := by
    have apart : ∀ other ∈ N, e.node ≠ other.node := fun other mem =>
      own ▸ Nat.ne_of_gt (consistent.handedOut other mem)
    intro a memA b memB same
    cases List.mem_cons.mp memA with
    | inl new =>
      cases List.mem_cons.mp memB with
      | inl newToo => exact new.trans newToo.symm
      | inr memB => exact absurd (new ▸ same) (apart b memB)
    | inr memA =>
      cases List.mem_cons.mp memB with
      | inl new => exact absurd (new ▸ same.symm) (apart a memA)
      | inr memB => exact consistent.single a memA b memB same
  closed := by
    refine List.forall_mem_cons.mpr ⟨fun part mem => ?_, fun other mem part below => ?_⟩
    · exact List.mem_cons_of_mem _ (parts mem)
    · exact List.mem_cons_of_mem _ (consistent.closed other mem part below)
  handedOut := by
    refine List.forall_mem_cons.mpr ⟨own ▸ Nat.lt_succ_self _, fun other mem => ?_⟩
    exact Nat.lt_succ_of_lt (consistent.handedOut other mem)
  fresh node type found := Nat.lt_succ_of_lt (consistent.fresh found)
  kept := by
    refine List.forall_mem_cons.mpr ⟨fun _ type found => ?_, consistent.kept⟩
    exact absurd (consistent.fresh found) (own ▸ Nat.lt_irrefl _)

theorem numbered (consistent : Consistent N w) : Consistent N { w with nextNode := w.nextNode + 1 } :=
  ⟨consistent.single, consistent.closed, fun e mem => Nat.lt_succ_of_lt (consistent.handedOut e mem),
    fun _ _ found => Nat.lt_succ_of_lt (consistent.fresh found), consistent.kept⟩

theorem copied (consistent : Consistent N w) {s : Statement} (within : s.nodes ⊆ N) :
    Consistent ((copyInto s.copy .empty w).1.nodes ++ N) (copyInto s.copy .empty w).2.2 := by
  obtain ⟨apart, -, later⟩ := copyInto_numbers s w
  have sorted : ∀ e ∈ (copyInto s.copy .empty w).1.nodes ++ N, e ∈ N ∨
      e ∈ (copyInto s.copy .empty w).1.nodes ∧ e.isRebuilt = true ∧
        w.nextNode ≤ e.node ∧ e.node < (copyInto s.copy .empty w).2.2.nextNode := by
    intro e mem
    cases List.mem_append.mp mem with
    | inr old => exact .inl old
    | inl mem =>
      obtain kept | new := copyInto_kept_or_new (consistent.shares within) w mem
      · exact .inl (within kept)
      · exact .inr ⟨mem, new⟩
  have across {e other : Expr} (mem : e ∈ N) (late : w.nextNode ≤ other.node) : e.node ≠ other.node :=
    Nat.ne_of_lt (Nat.lt_of_lt_of_le (consistent.handedOut e mem) late)
  refine ⟨?_, (Statement.nodes_closed _).append consistent.closed, ?_, ?_, ?_⟩
  · intro e mem other memOther same
    obtain old | ⟨new, rebuilt, late, -⟩ := sorted e mem
    · obtain oldOther | ⟨-, -, late, -⟩ := sorted other memOther
      · exact consistent.single e old other oldOther same
      · exact absurd same (across old late)
    · obtain oldOther | ⟨newOther, rebuiltOther, -, -⟩ := sorted other memOther
      · exact absurd same.symm (across oldOther late)
      · exact apart e new other newOther rebuilt rebuiltOther same
  · intro e mem
    obtain old | ⟨-, -, -, below⟩ := sorted e mem
    · exact Nat.lt_of_lt_of_le (consistent.handedOut e old) later
    · exact below
  · intro node type found
    exact Nat.lt_of_lt_of_le (consistent.fresh found) later
  · intro e mem rebuilt type found
    obtain old | ⟨-, -, late, -⟩ := sorted e mem
    · exact consistent.kept e old rebuilt found
    · exact absurd (consistent.fresh found) (Nat.not_lt.mpr late)

end Consistent

theorem Reached.consistent {N : List Expr} {w : Workspace} (reached : Reached N w) :
    Consistent N w := by
  induction reached with
  | start => exact .start
  | made _ e own _ parts ih => exact ih.made own parts
  | @called _ w w' _ b name arguments parts implied notes e made ih =>
    have members := ih.closed.nodesOf_subset arguments fun e mem => parts mem
    obtain ⟨_, _, fails, -⟩ | ⟨function, x, asked, runs⟩ := call_cases ih.sound.apart members w
    · rw [made] at fails
      contradiction
    · rw [made] at runs
      cases runs
      exact (ih.asked asked).made rfl parts
  | @refused _ w w' _ b name arguments parts implied notes failure fails ih =>
    have members := ih.closed.nodesOf_subset arguments fun e mem => parts mem
    obtain ⟨_, _, refused, asked⟩ | ⟨_, _, -, runs⟩ := call_cases ih.sound.apart members w
    · rw [fails] at refused
      cases refused
      exact ih.asked asked
    · rw [fails] at runs
      contradiction
  | asked _ mem ih => exact ih.asked (Expr.type_asked ih.sound.apart _ (ih.members mem) _)
  | copied _ within ih => exact ih.copied within
  | lowered _ within model strict expansions ih =>
    exact ih.asked (lowerStatement_asks ih.sound.apart model strict expansions _ within _).asked
  | loweredAlone _ mem c hint l ih =>
    exact ih.asked (lowerExpr_queries ih.sound.apart c (.pure hint) _ (ih.members mem) ⟨_, l⟩).asked
  | numbered _ ih => exact ih.numbered
  | reported _ events ih => exact ⟨ih.single, ih.closed, ih.handedOut, ih.fresh, ih.kept⟩

/-- A call of a function that requires nothing of its arguments takes the next number. -/
theorem Reached.unchecked {N : List Expr} {w : Workspace} (reached : Reached N w) (f : Callee)
    (unchecked : f.validator = none) {arguments : List Expr} (parts : arguments ⊆ N) :
    Reached (.call w.nextNode f arguments none .none :: N) { w with nextNode := w.nextNode + 1 } :=
  reached.called (.new f.catalog (Registry.empty.register f.toFunctionDef)) f.name parts none .none
    (call_unchecked (find_register .empty f.toFunctionDef) unchecked w)

/-! Interpretations are made of such steps. -/

variable {N : List Expr} {w : Workspace} {s : Statement}

theorem Reached.attempted (reached : Reached N w) (within : s.nodes ⊆ N) (v : Services)
    (t : OccurrenceTable) : ∃ M, N ⊆ M ∧ Reached M (attempt v s t w).2 := by
  refine ⟨(copyInto s.copy .empty w).1.nodes ++ N, List.subset_append_right _ _, ?_⟩
  have lowered := (reached.copied within).lowered (List.subset_append_left _ N) v.model
    v.settings.strictParameterTyping t.expansions
  cases attempt_workspace v s t w with
  | inl left => exact left ▸ lowered
  | inr left => exact left ▸ lowered.numbered

theorem Reached.interpreted (reached : Reached N w) (within : s.nodes ⊆ N) (c : Cache) (model : Model)
    (t : OccurrenceTable) : ∃ M, N ⊆ M ∧ Reached M (c.interpret model s t w).2.2 := by
  obtain left | left | left := c.interpret_workspace model s t w
  · exact ⟨N, List.Subset.refl N, left ▸ reached.reported _⟩
  · exact left ▸ reached.attempted within ⟨model, c.settings⟩ t
  · exact left ▸ (reached.reported _).attempted within ⟨model, c.settings⟩ t

end SemanticQuery.Lowering
