import Mathlib.Data.List.Forall2
import SemanticQuery.Proofs.KeyedList
import SemanticQuery.Proofs.Query.Nodes
import SemanticQuery.Proofs.Query.Visits
import SemanticQuery.Query.Copy

/-! What copying keeps. Nodes of one identity are copied once, so a relation between nodes and their
copies holds across a statement where rebuilding keeps it and it does not tell such nodes apart. -/
namespace SemanticQuery.Query

/-- A relation, over expressions closed under their parts, between a node and its copy. -/
structure CopyRelation (U : Expr → Prop) (R : Expr → Expr → Prop) : Prop where
  arguments : ∀ {node function arguments implied notes},
    U (.call node function arguments implied notes) → ∀ a ∈ arguments, U a
  elements : ∀ {node elements notes}, U (.tuple node elements notes) → ∀ e ∈ elements, U e
  shared : ∀ {e other copy}, U e → U other → e.node = other.node → R e copy → R other copy
  literal : ∀ {node v type}, U (.literal node v type) → R (.literal node v type) (.literal node v type)
  parameter : ∀ {node o}, U (.parameter node o) → R (.parameter node o) (.parameter node o)
  path : ∀ {node source}, U (.path node source) → R (.path node source) (.path node source)
  call : ∀ {node fresh function arguments copies implied notes},
    U (.call node function arguments implied notes) → List.Forall₂ R arguments copies →
      R (.call node function arguments implied notes) (.call fresh function copies implied notes)
  tuple : ∀ {node fresh elements copies notes}, U (.tuple node elements notes) →
    List.Forall₂ R elements copies → R (.tuple node elements notes) (.tuple fresh copies notes)

/-- The copies kept in a context are related to what they are copies of. -/
def CopyContext.Relates (U : Expr → Prop) (R : Expr → Expr → Prop) (c : CopyContext) : Prop :=
  ∀ ⦃e copy⦄, U e → c.find? e = some copy → R e copy

section
variable (U : Expr → Prop) (R : Expr → Expr → Prop)

/-- A copying step with a property of what it makes. -/
def Copies {α : Type} (post : α → Prop) (m : CopyM α) : Prop :=
  ∀ ⦃s : Copying⦄, s.context.Relates U R → post (m s).1 ∧ (m s).2.context.Relates U R

end

variable {U : Expr → Prop} {R : Expr → Expr → Prop} {α β : Type}

namespace Copies

theorem pure {post : α → Prop} {a : α} (holds : post a) : Copies U R post (pure a) :=
  fun _ relates => ⟨holds, relates⟩

theorem bind {before : α → Prop} {after : β → Prop} {m : CopyM α} {f : α → CopyM β}
    (first : Copies U R before m) (later : ∀ a, before a → Copies U R after (f a)) :
    Copies U R after (m >>= f) := by
  intro s relates
  obtain ⟨holds, kept⟩ := first relates
  exact later _ holds kept

theorem get : Copies U R (fun s => s.context.Relates U R) get :=
  fun _ relates => ⟨relates, relates⟩

theorem mapM {post : α → β → Prop} {f : α → CopyM β} (as : List α)
    (each : ∀ a ∈ as, Copies U R (post a) (f a)) : Copies U R (List.Forall₂ post as) (as.mapM f) := by
  induction as with
  | nil => exact .pure .nil
  | cons a rest ih =>
    rw [List.forall_mem_cons] at each
    rw [List.mapM_cons]
    refine .bind each.1 fun b related => ?_
    exact .bind (ih each.2) fun bs later => .pure (.cons related later)

end Copies

/-- The copy kept for a node is one for every node of its identity. -/
theorem keepCopy_copies {e : Expr} (relation : CopyRelation U R) (member : U e)
    {rebuild : NodeId → Expr} (related : ∀ fresh, R e (rebuild fresh)) :
    Copies U R (R e) (keepCopy e.node rebuild) := by
  intro s relates
  refine ⟨related _, ?_⟩
  intro other copy memberOther found
  change (s.context.copies.insert e.node (rebuild s.nextNode)).find? other.node = some copy at found
  obtain ⟨same, rfl⟩ | before := KeyedList.of_find?_insert found
  · exact relation.shared member memberOther same.symm (related _)
  · exact relates memberOther before

/-- A node is copied unless a copy of it is known. -/
theorem copyOnce_copies {e : Expr} (member : U e) {m : CopyM Expr} (copies : Copies U R (R e) m) :
    Copies U R (R e) (do
      match (← get).context.copies.find? e.node with
      | some known => return known
      | none => m) := by
  refine .bind Copies.get fun s relates => ?_
  cases found : s.context.copies.find? e.node with
  | some known => exact .pure (relates member found)
  | none => exact copies

mutual

theorem Expr.copy_copies (relation : CopyRelation U R) : (e : Expr) → U e → Copies U R (R e) e.copy
  | .literal .., member => .pure (relation.literal member)
  | .parameter .., member => .pure (relation.parameter member)
  | .path .., member => .pure (relation.path member)
  | .call node function arguments implied notes, member => by
    rw [copy]
    refine copyOnce_copies member ?_
    refine .bind (copyAll_copies relation arguments (relation.arguments member)) fun copied related => ?_
    exact keepCopy_copies relation member fun fresh => relation.call member related
  | .tuple node elements notes, member => by
    rw [copy]
    refine copyOnce_copies member ?_
    refine .bind (copyAll_copies relation elements (relation.elements member)) fun copied related => ?_
    exact keepCopy_copies relation member fun fresh => relation.tuple member related

theorem Expr.copyAll_copies (relation : CopyRelation U R) : (es : List Expr) → (∀ e ∈ es, U e) →
    Copies U R (List.Forall₂ R es) (Expr.copyAll es)
  | [], _ => .pure .nil
  | e :: rest, members => by
    rw [List.forall_mem_cons] at members
    rw [copyAll]
    refine .bind (copy_copies relation e members.1) fun first related => ?_
    exact .bind (copyAll_copies relation rest members.2) fun later others => .pure (.cons related others)

end

/-! Predicates and statements, related part by part. -/

mutual

inductive Predicate.Related (R : Expr → Expr → Prop) : Predicate → Predicate → Prop
  | comparison {lhs lhs' rhs rhs' : Expr} {operator : Comparison} (left : R lhs lhs')
      (right : R rhs rhs') :
      Predicate.Related R (.comparison lhs operator rhs) (.comparison lhs' operator rhs')
  | inList {test test' : Expr} {items items' : List Expr} {negated : Bool} (tests : R test test')
      (all : List.Forall₂ R items items') :
      Predicate.Related R (.inList test items negated) (.inList test' items' negated)
  | and {children children' : List Predicate} (all : Predicate.RelatedAll R children children') :
      Predicate.Related R (.and children) (.and children')
  | or {children children' : List Predicate} (all : Predicate.RelatedAll R children children') :
      Predicate.Related R (.or children) (.or children')
  | not {inner inner' : Predicate} (related : Predicate.Related R inner inner') :
      Predicate.Related R (.not inner) (.not inner')
  | isNull {e e' : Expr} {negated : Bool} (related : R e e') :
      Predicate.Related R (.isNull e negated) (.isNull e' negated)

inductive Predicate.RelatedAll (R : Expr → Expr → Prop) : List Predicate → List Predicate → Prop
  | nil : Predicate.RelatedAll R [] []
  | cons {p p' : Predicate} {ps ps' : List Predicate} (first : Predicate.Related R p p')
      (later : Predicate.RelatedAll R ps ps') : Predicate.RelatedAll R (p :: ps) (p' :: ps')

end

/-- Sources of inline rows that differ in related cells only. -/
structure ValuesRoot.Related (R : Expr → Expr → Prop) (root root' : ValuesRoot) : Prop where
  path : root'.path = root.path
  columns : root'.columns = root.columns
  rows : List.Forall₂ (List.Forall₂ R) root.rows root'.rows

structure Selection.Related (R : Expr → Expr → Prop) (item item' : Selection) : Prop where
  expr : R item.expr item'.expr
  label : item'.label = item.label

structure Assignment.Related (R : Expr → Expr → Prop) (a a' : Assignment) : Prop where
  target : a'.target = a.target
  value : R a.value a'.value

/-- Statements of one shape whose expressions are related. -/
inductive Statement.Related (R : Expr → Expr → Prop) : Statement → Statement → Prop
  | select {s s' : Select} (roots : s'.roots = s.roots)
      (values : List.Forall₂ (ValuesRoot.Related R) s.values s'.values)
      (selections : List.Forall₂ (Selection.Related R) s.selections s'.selections)
      (restriction : Option.Rel (Predicate.Related R) s.restriction s'.restriction) :
      Statement.Related R (.select s) (.select s')
  | update {u u' : Update} (target : u'.target = u.target)
      (assignments : List.Forall₂ (Assignment.Related R) u.assignments u'.assignments)
      (restriction : Option.Rel (Predicate.Related R) u.restriction u'.restriction) :
      Statement.Related R (.update u) (.update u')
  | delete {d d' : Delete} (target : d'.target = d.target)
      (restriction : Option.Rel (Predicate.Related R) d.restriction d'.restriction) :
      Statement.Related R (.delete d) (.delete d')

mutual

theorem Predicate.copy_copies (relation : CopyRelation U R) : (p : Predicate) → (∀ e ∈ p.nodes, U e) →
    Copies U R (p.Related R) p.copy
  | .comparison lhs _ rhs, members => by
    rw [nodes, List.forall_mem_append] at members
    rw [copy]
    refine .bind (lhs.copy_copies relation (members.1 _ lhs.mem_nodes)) fun l left => ?_
    refine .bind (rhs.copy_copies relation (members.2 _ rhs.mem_nodes)) fun r right => ?_
    exact .pure (.comparison left right)
  | .inList test items _, members => by
    rw [nodes, List.forall_mem_append] at members
    rw [copy]
    refine .bind (test.copy_copies relation (members.1 _ test.mem_nodes)) fun t tests => ?_
    have each : ∀ e ∈ items, U e := fun e mem => members.2 e (Expr.mem_nodesOf mem)
    refine .bind (Expr.copyAll_copies relation items each) fun copied all => ?_
    exact .pure (.inList tests all)
  | .and children, members => by
    rw [copy]
    exact .bind (copyAll_copies relation children members) fun copied all => .pure (.and all)
  | .or children, members => by
    rw [copy]
    exact .bind (copyAll_copies relation children members) fun copied all => .pure (.or all)
  | .not inner, members => by
    rw [copy]
    exact .bind (copy_copies relation inner members) fun copied related => .pure (.not related)
  | .isNull e _, members => by
    rw [copy]
    refine .bind (e.copy_copies relation (members _ e.mem_nodes)) fun copied related => ?_
    exact .pure (.isNull related)

theorem Predicate.copyAll_copies (relation : CopyRelation U R) : (ps : List Predicate) →
    (∀ e ∈ Predicate.nodesOf ps, U e) → Copies U R (Predicate.RelatedAll R ps) (Predicate.copyAll ps)
  | [], _ => .pure .nil
  | p :: rest, members => by
    rw [nodesOf, List.forall_mem_append] at members
    rw [copyAll]
    refine .bind (copy_copies relation p members.1) fun first related => ?_
    exact .bind (copyAll_copies relation rest members.2) fun later all => .pure (.cons related all)

end

theorem copyRestriction_copies (relation : CopyRelation U R) (restriction : Option Predicate)
    (members : ∀ e ∈ restrictionNodes restriction, U e) :
    Copies U R (Option.Rel (Predicate.Related R) restriction) (copyRestriction restriction) := by
  cases restriction with
  | none => exact .pure .none
  | some p => exact .bind (p.copy_copies relation members) fun copied related => .pure (.some related)

theorem ValuesRoot.copy_copies (relation : CopyRelation U R) (root : ValuesRoot)
    (members : ∀ e ∈ root.rows.flatMap Expr.nodesOf, U e) :
    Copies U R (root.Related R) root.copy := by
  have each : ∀ row ∈ root.rows, Copies U R (List.Forall₂ R row) (Expr.copyAll row) := by
    intro row mem
    refine Expr.copyAll_copies relation row fun e member => ?_
    exact members e (List.mem_flatMap.mpr ⟨row, mem, Expr.mem_nodesOf member⟩)
  exact .bind (.mapM root.rows each) fun rows related => .pure ⟨rfl, rfl, related⟩

theorem Selection.copy_copies (relation : CopyRelation U R) (item : Selection)
    (member : U item.expr) : Copies U R (item.Related R) item.copy :=
  .bind (item.expr.copy_copies relation member) fun _ related => .pure ⟨related, rfl⟩

theorem Assignment.copy_copies (relation : CopyRelation U R) (a : Assignment)
    (member : U a.value) : Copies U R (a.Related R) a.copy :=
  .bind (a.value.copy_copies relation member) fun _ related => .pure ⟨rfl, related⟩

/-- A copy of a statement has its shape, and its expressions are copies of the statement's. -/
theorem Statement.copy_copies (relation : CopyRelation U R) (s : Statement)
    (members : ∀ e ∈ s.nodes, U e) : Copies U R (s.Related R) s.copy := by
  cases s with
  | select s =>
    simp only [nodes, List.forall_mem_append] at members
    obtain ⟨⟨values, selections⟩, restriction⟩ := members
    have eachRoot : ∀ root ∈ s.values, Copies U R (root.Related R) root.copy := fun root mem =>
      root.copy_copies relation fun e member => values e (List.mem_flatMap.mpr ⟨root, mem, member⟩)
    have eachItem : ∀ item ∈ s.selections, Copies U R (item.Related R) item.copy := fun item mem =>
      item.copy_copies relation
        (selections _ (List.mem_flatMap.mpr ⟨item, mem, item.expr.mem_nodes⟩))
    refine .bind (.mapM s.values eachRoot) fun _ roots => ?_
    refine .bind (.mapM s.selections eachItem) fun _ items => ?_
    refine .bind (copyRestriction_copies relation s.restriction restriction) fun _ related => ?_
    exact .pure (.select rfl roots items related)
  | update u =>
    simp only [nodes, List.forall_mem_append] at members
    obtain ⟨assigned, restriction⟩ := members
    have each : ∀ a ∈ u.assignments, Copies U R (a.Related R) a.copy := fun a mem =>
      a.copy_copies relation (assigned _ (List.mem_flatMap.mpr ⟨a, mem, a.value.mem_nodes⟩))
    refine .bind (.mapM u.assignments each) fun _ assignments => ?_
    refine .bind (copyRestriction_copies relation u.restriction restriction) fun _ related => ?_
    exact .pure (.update rfl assignments related)
  | delete d =>
    refine .bind (copyRestriction_copies relation d.restriction members) fun _ related => ?_
    exact .pure (.delete rfl related)

/-- A private copy, made in an empty context, is related to its statement. -/
theorem copyInto_related (relation : CopyRelation U R) {s : Statement} (members : ∀ e ∈ s.nodes, U e)
    (w : Workspace) : s.Related R (copyInto s.copy .empty w).1 := by
  have none_known : CopyContext.empty.Relates U R := by
    intro e copy _ found
    contradiction
  exact (s.copy_copies relation members none_known).1

/-! A copy has no parameters but those of its statement. -/

theorem Expr.mem_parametersOf_iff {es : List Expr} {o : Occurrence} :
    o ∈ parametersOf es ↔ ∃ e ∈ es, o ∈ e.parameters := by
  induction es with
  | nil => simp [parametersOf, nodesOf]
  | cons e rest ih => simp only [parametersOf_cons, List.mem_append, ih, List.exists_mem_cons_iff]

theorem forall₂_right {γ : Type} {Q : γ → Prop} {as : List α} {cs : List γ}
    (related : List.Forall₂ (fun _ c => Q c) as cs) : ∀ c ∈ cs, Q c := by
  induction related with
  | nil => simp
  | cons first _ ih => exact List.forall_mem_cons.mpr ⟨first, ih⟩

section
variable {P : Occurrence → Prop}

mutual

theorem Predicate.Related.parameters : {p p' : Predicate} →
    p.Related (fun _ copy => ∀ o ∈ copy.parameters, P o) p' →
      ∀ o ∈ p'.nodes.filterMap Expr.occurrence?, P o
  | .comparison .., .comparison .., related => by
    cases related with
    | comparison left right =>
      rw [nodes, List.filterMap_append]
      exact List.forall_mem_append.mpr ⟨left, right⟩
  | .inList .., .inList _ items' _, related => by
    cases related with
    | inList tests all =>
      rw [nodes, List.filterMap_append]
      refine List.forall_mem_append.mpr ⟨tests, fun o mem => ?_⟩
      obtain ⟨e, member, own⟩ := Expr.mem_parametersOf_iff.mp mem
      exact forall₂_right all e member o own
  | .and _, .and _, related => by
    cases related with
    | and all => exact Predicate.RelatedAll.parameters all
  | .or _, .or _, related => by
    cases related with
    | or all => exact Predicate.RelatedAll.parameters all
  | .not _, .not _, related => by
    cases related with
    | not related =>
      rw [nodes]
      exact Predicate.Related.parameters related
  | .isNull .., .isNull .., related => by
    cases related with
    | isNull related => exact related

theorem Predicate.RelatedAll.parameters : {ps ps' : List Predicate} →
    Predicate.RelatedAll (fun _ copy => ∀ o ∈ copy.parameters, P o) ps ps' →
      ∀ o ∈ (Predicate.nodesOf ps').filterMap Expr.occurrence?, P o
  | [], [], _ => by simp [Predicate.nodesOf]
  | _ :: _, _ :: _, related => by
    cases related with
    | cons first later =>
      rw [Predicate.nodesOf, List.filterMap_append]
      exact List.forall_mem_append.mpr
        ⟨Predicate.Related.parameters first, Predicate.RelatedAll.parameters later⟩

end

theorem parameters_of_restriction {restriction restriction' : Option Predicate}
    (related : Option.Rel (Predicate.Related fun _ copy => ∀ o ∈ copy.parameters, P o)
      restriction restriction') :
    ∀ o ∈ (restrictionNodes restriction').filterMap Expr.occurrence?, P o := by
  cases related with
  | none => simp [restrictionNodes]
  | some related => exact related.parameters

theorem parameters_of_flatMap {γ δ : Type} {Q : γ → δ → Prop} {g : δ → List Expr} {cs : List γ}
    {ds : List δ} (each : ∀ c d, Q c d → ∀ o ∈ (g d).filterMap Expr.occurrence?, P o)
    (related : List.Forall₂ Q cs ds) : ∀ o ∈ (ds.flatMap g).filterMap Expr.occurrence?, P o := by
  induction related with
  | nil => simp
  | cons first _ ih =>
    rw [List.flatMap_cons, List.filterMap_append]
    exact List.forall_mem_append.mpr ⟨each _ _ first, ih⟩

theorem parameters_of_row {row row' : List Expr}
    (related : List.Forall₂ (fun _ copy => ∀ o ∈ copy.parameters, P o) row row') :
    ∀ o ∈ Expr.parametersOf row', P o := by
  intro o mem
  obtain ⟨e, member, own⟩ := Expr.mem_parametersOf_iff.mp mem
  exact forall₂_right related e member o own

theorem Statement.Related.parameters {s s' : Statement}
    (related : s.Related (fun _ copy => ∀ o ∈ copy.parameters, P o) s') :
    ∀ o ∈ s'.parameters, P o := by
  unfold Statement.parameters
  cases related with
  | select roots values selections restriction =>
    simp only [Statement.nodes, List.filterMap_append, List.forall_mem_append]
    refine ⟨⟨?_, ?_⟩, parameters_of_restriction restriction⟩
    · refine parameters_of_flatMap (fun root root' same => ?_) values
      exact parameters_of_flatMap (fun row row' cells => parameters_of_row cells) same.rows
    · exact parameters_of_flatMap (fun item item' same => same.expr) selections
  | update target assignments restriction =>
    simp only [Statement.nodes, List.filterMap_append, List.forall_mem_append]
    refine ⟨?_, parameters_of_restriction restriction⟩
    exact parameters_of_flatMap (fun a a' same => same.value) assignments
  | delete target restriction => exact parameters_of_restriction restriction

end

theorem parameters_relation (s : Statement) : CopyRelation (· ∈ s.nodes)
    (fun _ copy => ∀ o ∈ copy.parameters, o ∈ s.parameters) where
  arguments member a below := s.nodes_closed _ member a below
  elements member e below := s.nodes_closed _ member e below
  shared _ _ _ own := own
  literal _ := by
    intro o mem
    contradiction
  parameter {node o} member := by
    intro other mem
    obtain rfl := List.mem_singleton.mp mem
    exact List.mem_filterMap.mpr ⟨_, member, rfl⟩
  path _ := by
    intro o mem
    contradiction
  call _ related := parameters_of_row related
  tuple _ related := parameters_of_row related

theorem copy_parameters (s : Statement) (w : Workspace) :
    ∀ o ∈ (copyInto s.copy .empty w).1.parameters, o ∈ s.parameters :=
  (copyInto_related (parameters_relation s) (fun _ mem => mem) w).parameters

end SemanticQuery.Query
