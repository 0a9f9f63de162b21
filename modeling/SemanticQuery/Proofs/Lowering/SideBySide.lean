import Mathlib.Data.List.InsertIdx
import SemanticQuery.Lowering.Statement
import SemanticQuery.Proofs.Query.Answers
import SemanticQuery.Proofs.Query.Bare

/-! Lowering two statements side by side. Steps over bare equal parts both fail, with errors that match, or
they make the same tree and allocate the same groups for occurrences that answer to each other. -/
namespace SemanticQuery.Lowering
open Query

/-- An expansion that answers to another, has its type, and is refused with an error that matches. -/
structure ExpansionAnswers (answers : OccurrenceId → OccurrenceId → Prop)
    (errors : LoweringError → LoweringError → Prop) (e e' : Occurrence) : Prop where
  answers : answers e.id e'.id
  types : e.type? = e'.type?
  refused : errors (.untypedParameter e.key.text) (.untypedParameter e'.key.text)

/-- The nodes and the expansions of two statements, with the occurrences and errors of the second that answer
to those of the first. An occurrence that both have answers to itself; expansions of it answer to each
other by position. -/
structure Pairing where
  left : List Expr
  right : List Expr
  answers : OccurrenceId → OccurrenceId → Prop
  errors : LoweringError → LoweringError → Prop
  fails : ∀ e, errors e e
  leftExpansions : OccurrenceId → List Occurrence
  rightExpansions : OccurrenceId → List Occurrence
  own : ∀ {node o}, .parameter node o ∈ left → answers o.id o.id
  expanded : ∀ {node o}, .parameter node o ∈ left →
    List.Forall₂ (ExpansionAnswers answers errors) (leftExpansions o.id) (rightExpansions o.id)

/-- A scope that differs in its expansions only. -/
def Scope.under (c : Scope) (expansions : OccurrenceId → List Occurrence) : Scope :=
  { c with expansions }

/-- Ledgers with the same groups, for occurrences that answer to each other. -/
abbrev Ledger.Matches (answers : OccurrenceId → OccurrenceId → Prop) (l l' : Ledger) : Prop :=
  List.Forall₂ (fun g g' => answers g.1 g'.1 ∧ g.2 = g'.2) l.entries l'.entries

namespace Pairing

/-- States between two steps: what is kept for nodes is right on both sides, and the ledgers have the
same groups. -/
structure Alike (π : Pairing) (p p' : Progress) : Prop where
  left : p.work.Sound π.left
  right : p'.work.Sound π.right
  groups : p.ledger.Matches π.answers p'.ledger
  next : p.ledger.next = p'.ledger.next

inductive Outcome (π : Pairing) {α β : Type} (R : α → β → Prop) :
    EStateM.Result LoweringError Progress α → EStateM.Result LoweringError Progress β → Prop
  | ok {a : α} {b : β} {p p' : Progress} (related : R a b) (alike : π.Alike p p') :
      Outcome π R (.ok a p) (.ok b p')
  | error {e e' : LoweringError} {p p' : Progress} (failed : π.errors e e') (alike : π.Alike p p') :
      Outcome π R (.error e p) (.error e' p')

def Agrees (π : Pairing) {α β : Type} (R : α → β → Prop) (m : LowerM α) (m' : LowerM β) : Prop :=
  ∀ ⦃p p' : Progress⦄, π.Alike p p' → π.Outcome R (m p) (m' p')

/-- Steps that agree on what they make. -/
abbrev Same (π : Pairing) {α : Type} (m m' : LowerM α) : Prop := π.Agrees Eq m m'

variable {π : Pairing} {α β γ δ : Type}

theorem Agrees.pure {R : α → β → Prop} {a : α} {b : β} (related : R a b) :
    π.Agrees R (pure a) (pure b) := fun _ _ alike => .ok related alike

theorem Agrees.throw {R : α → β → Prop} {e e' : LoweringError} (failed : π.errors e e') :
    π.Agrees R (throw e) (throw e') := fun _ _ alike => .error failed alike

theorem Agrees.bind {R : α → β → Prop} {Q : γ → δ → Prop} {m : LowerM α} {m' : LowerM β}
    {f : α → LowerM γ} {f' : β → LowerM δ} (first : π.Agrees R m m')
    (later : ∀ a b, R a b → π.Agrees Q (f a) (f' b)) : π.Agrees Q (m >>= f) (m' >>= f') := by
  intro p p' alike
  have outcome := first alike
  simp only [Bind.bind, EStateM.bind]
  cases left : m p with
  | ok a q =>
    cases right : m' p' with
    | ok b q' =>
      rw [left, right] at outcome
      cases outcome with
      | ok related alike => exact later a b related alike
    | error e' q' =>
      rw [left, right] at outcome
      cases outcome
  | error e q =>
    cases right : m' p' with
    | ok b q' =>
      rw [left, right] at outcome
      cases outcome
    | error e' q' =>
      rw [left, right] at outcome
      cases outcome with
      | error failed alike => exact .error failed alike

namespace Same

theorem throw (e : LoweringError) : π.Same (throw e : LowerM α) (throw e) := Agrees.throw (π.fails e)

theorem bind {Q : γ → δ → Prop} {m m' : LowerM α} {f : α → LowerM γ} {f' : α → LowerM δ}
    (first : π.Same m m') (later : ∀ a, π.Agrees Q (f a) (f' a)) :
    π.Agrees Q (m >>= f) (m' >>= f') := by
  refine Agrees.bind first ?_
  rintro a _ rfl
  exact later a

theorem liftMapping (x : Except MappingError α) : π.Same (liftMapping x) (liftMapping x) := by
  cases x with
  | ok a => exact .pure rfl
  | error e => exact .throw _

theorem liftFunction (x : Except FunctionError α) : π.Same (liftFunction x) (liftFunction x) := by
  cases x with
  | ok a => exact .pure rfl
  | error e => exact .throw _

theorem report (e : Event) : π.Same (report e) (report e) := fun _ _ alike =>
  .ok rfl ⟨alike.left.report e, alike.right.report e, alike.groups, alike.next⟩

/-- Groups allocated for occurrences that answer to each other are equal. -/
theorem allocate {id id' : OccurrenceId} (answers : π.answers id id')
    (types : List (Option ColumnType)) : π.Same (allocate id types) (allocate id' types) := by
  intro p p' alike
  have group : numberSlots p.ledger.next types = numberSlots p'.ledger.next types := by
    rw [alike.next]
  refine .ok group ⟨alike.left, alike.right, ?_, congrArg (· + types.length) alike.next⟩
  exact List.rel_append alike.groups (.cons ⟨answers, group⟩ .nil)

end Same

/-- Bare equal expressions, one from each side. -/
structure Pairs (π : Pairing) (e e' : Expr) : Prop where
  left : ∀ d ∈ e.nodes, d ∈ π.left
  right : ∀ d ∈ e'.nodes, d ∈ π.right
  bare : e.bare = e'.bare

abbrev PairsAll (π : Pairing) (es es' : List Expr) : Prop := List.Forall₂ π.Pairs es es'

theorem pairsAll {es es' : List Expr} (left : ∀ d ∈ Expr.nodesOf es, d ∈ π.left)
    (right : ∀ d ∈ Expr.nodesOf es', d ∈ π.right) (bare : Expr.bareAll es = Expr.bareAll es') :
    π.PairsAll es es' := by
  induction es generalizing es' with
  | nil =>
    cases es' with
    | nil => exact .nil
    | cons => contradiction
  | cons e rest ih =>
    cases es' with
    | nil => contradiction
    | cons e' rest' =>
      rw [Expr.nodesOf, List.forall_mem_append] at left right
      rw [Expr.bareAll, Expr.bareAll, List.cons.injEq] at bare
      exact .cons ⟨left.1, right.1, bare.1⟩ (ih left.2 right.2 bare.2)

theorem Pairs.ownType {e e' : Expr} (pairs : π.Pairs e e') : e.ownType = e'.ownType := by
  rw [← e.ownType_bare, pairs.bare, e'.ownType_bare]

theorem Pairs.runTyping {e e' : Expr} (pairs : π.Pairs e e') :
    π.Same (runTyping e.type) (runTyping e'.type) := by
  intro p p' alike
  obtain ⟨w, sound, ran⟩ := e.type_typed pairs.left alike.left
  obtain ⟨w', sound', ran'⟩ := e'.type_typed pairs.right alike.right
  rw [← pairs.ownType] at ran'
  simp only [Lowering.runTyping]
  cases own : e.ownType with
  | ok type =>
    rw [own] at ran ran'
    rw [ran, ran']
    exact .ok rfl ⟨sound, sound', alike.groups, alike.next⟩
  | error failure =>
    rw [own] at ran ran'
    rw [ran, ran']
    exact .error (π.fails _) ⟨sound, sound', alike.groups, alike.next⟩

end Pairing

/-- A hint that comes to one answer, whatever was resolved before. -/
abbrev Hints (N : List Expr) (h : Hint) (m : Option Mapping) : Prop := Yields N h m

section
variable {N : List Expr}

theorem quietly_run {e : Expr} (members : ∀ d ∈ e.nodes, d ∈ N) {w : Workspace} (sound : w.Sound N) :
    ∃ w' : Workspace, w'.Sound N ∧ quietly e.type w = (quietType e, w') := by
  obtain ⟨w', kept, ran⟩ := e.type_typed members sound
  refine ⟨w', kept, ?_⟩
  rw [quietly, ran, quietType]
  cases e.ownType <;> rfl

theorem typeHint_hints (c : Scope) {e : Expr} (members : ∀ d ∈ e.nodes, d ∈ N) :
    Hints N (typeHint c e) ((quietType e).bind c.mapping?) := by
  intro w sound
  obtain ⟨w', kept, ran⟩ := quietly_run members sound
  refine ⟨w', kept, ?_⟩
  simp only [typeHint, Bind.bind, StateT.bind, ran]
  cases quietType e <;> rfl

/-- What an argument without a type is taken for. -/
def argumentMapping (c : Scope) (function : Callee) (implied : Option ExprType) (arguments : List Expr)
    (index : Nat) : Option Mapping :=
  match function.arguments with
  | none => none
  | some rule =>
    (rule.mapping function.name implied (Expr.seenAll arguments) index c.surroundings).result
      (Expr.ownTypeAmong arguments)

theorem argumentHint_hints (c : Scope) (function : Callee) (implied : Option ExprType)
    {arguments : List Expr} (members : ∀ d ∈ Expr.nodesOf arguments, d ∈ N) (index : Nat) :
    Hints N (argumentHint c function implied arguments index)
      (argumentMapping c function implied arguments index) := by
  unfold argumentHint argumentMapping
  cases function.arguments with
  | none => exact .pure none
  | some rule => exact .run (fun place => .answered (Expr.typeAmong_typed arguments members place)) _

theorem elementHint_hints {h : Hint} {m : Option Mapping} (hints : Hints N h m) (index : Nat) :
    Hints N (elementHint h index) (m.bind (Mapping.componentAt? · index)) := by
  intro w sound
  obtain ⟨w', kept, ran⟩ := hints sound
  refine ⟨w', kept, ?_⟩
  simp only [elementHint, Bind.bind, StateT.bind, ran]
  cases m <;> rfl

end

namespace Pairing
variable {π : Pairing}

/-- Hints that come to one answer on both sides. -/
def SameHint (π : Pairing) (h h' : Hint) : Prop := ∃ m, Hints π.left h m ∧ Hints π.right h' m

theorem SameHint.pure (m : Option Mapping) : π.SameHint (pure m) (pure m) :=
  ⟨m, fun w sound => ⟨w, sound, rfl⟩, fun w sound => ⟨w, sound, rfl⟩⟩

theorem SameHint.runHint {h h' : Hint} (same : π.SameHint h h') :
    π.Same (runHint h) (runHint h') := by
  obtain ⟨m, left, right⟩ := same
  intro p p' alike
  obtain ⟨w, sound, ran⟩ := left alike.left
  obtain ⟨w', sound', ran'⟩ := right alike.right
  simp only [Lowering.runHint, ran, ran']
  exact .ok rfl ⟨sound, sound', alike.groups, alike.next⟩

theorem Pairs.quietType {e e' : Expr} (pairs : π.Pairs e e') : quietType e = quietType e' := by
  rw [Query.quietType, Query.quietType, pairs.ownType]

variable (c : Scope) (x x' : OccurrenceId → List Occurrence)

theorem Pairs.typeHint {e e' : Expr} (pairs : π.Pairs e e') :
    π.SameHint (typeHint (c.under x) e) (typeHint (c.under x') e') :=
  ⟨_, typeHint_hints _ pairs.left, pairs.quietType ▸ typeHint_hints _ pairs.right⟩

theorem PairsAll.members {es es' : List Expr} (pairs : π.PairsAll es es') :
    (∀ d ∈ Expr.nodesOf es, d ∈ π.left) ∧ ∀ d ∈ Expr.nodesOf es', d ∈ π.right := by
  induction pairs with
  | nil => simp [Expr.nodesOf]
  | cons first _ ih =>
    rw [Expr.nodesOf, Expr.nodesOf, List.forall_mem_append, List.forall_mem_append]
    exact ⟨⟨first.left, ih.1⟩, ⟨first.right, ih.2⟩⟩

theorem PairsAll.bare {es es' : List Expr} (pairs : π.PairsAll es es') :
    Expr.bareAll es = Expr.bareAll es' := by
  induction pairs with
  | nil => rfl
  | cons first _ ih => rw [Expr.bareAll, Expr.bareAll, first.bare, ih]

/-- Whatever a function makes of arguments, it makes of those that are bare equal to them. -/
theorem PairsAll.argumentMapping {es es' : List Expr} (pairs : π.PairsAll es es') (function : Callee)
    (implied : Option ExprType) (index : Nat) :
    argumentMapping (c.under x) function implied es index =
      argumentMapping (c.under x') function implied es' index := by
  have seen : Expr.seenAll es = Expr.seenAll es' := by
    rw [← Expr.seenAll_bareAll, pairs.bare, Expr.seenAll_bareAll]
  have types : Expr.ownTypeAmong es = Expr.ownTypeAmong es' := by
    funext place
    rw [← Expr.ownTypeAmong_bareAll, pairs.bare, Expr.ownTypeAmong_bareAll]
  rw [Lowering.argumentMapping, seen, types]
  rfl

theorem PairsAll.argumentHint {es es' : List Expr} (pairs : π.PairsAll es es') (function : Callee)
    (implied : Option ExprType) (index : Nat) :
    π.SameHint (argumentHint (c.under x) function implied es index)
      (argumentHint (c.under x') function implied es' index) :=
  ⟨_, argumentHint_hints _ function implied pairs.members.1 index,
    pairs.argumentMapping c x x' function implied index ▸
      argumentHint_hints _ function implied pairs.members.2 index⟩

theorem SameHint.elementHint {h h' : Hint} (same : π.SameHint h h') (index : Nat) :
    π.SameHint (elementHint h index) (elementHint h' index) := by
  obtain ⟨m, left, right⟩ := same
  exact ⟨_, elementHint_hints left index, elementHint_hints right index⟩

end Pairing

end SemanticQuery.Lowering
