import SemanticQuery.Proofs.KeyedList
import SemanticQuery.Proofs.Outcome
import SemanticQuery.Proofs.Query.Nodes
import SemanticQuery.Query.Typing

/-! Typing without memory. As long as the types kept for nodes are the ones their expressions have, what
is kept does not show: an expression is typed as if nothing were known. -/
namespace SemanticQuery.Query

namespace Expr

mutual

/-- The type that is resolved where nothing is kept, for the expression or what stands at a place in it. -/
def ownTypeWithin : Expr → Place → TypeAnswer
  | literal _ _ type, [] => .ok (some type)
  | parameter _ occurrence, [] => .ok occurrence.type?
  | path _ source, [] => .ok (some (.path source))
  | tuple .., [] => .ok (some (.domain .composite))
  | call _ function arguments implied _, [] =>
    (function.returns.resolve implied (seenAll arguments) function.catalog).run.result
      fun place => ownTypeAmong arguments place
  | call _ _ arguments _ _, index :: below => ownTypeAmong arguments (index :: below)
  | tuple _ elements _, index :: below => ownTypeAmong elements (index :: below)
  | literal .., _ :: _ | parameter .., _ :: _ | path .., _ :: _ => .ok none

def ownTypeAmong : List Expr → Place → TypeAnswer
  | [], _ | _, [] => .ok none
  | e :: _, 0 :: below => e.ownTypeWithin below
  | _ :: rest, (index + 1) :: below => ownTypeAmong rest (index :: below)

end

/-- The type of the expression by itself: what is resolved for it where nothing is kept. -/
def ownType (e : Expr) : TypeAnswer := e.ownTypeWithin []

/-- Calls and tuples, which copying rebuilds under identities of their own. -/
def isRebuilt : Expr → Bool
  | call .. | tuple .. => true
  | literal .. | parameter .. | path .. => false

end Expr

/-- Calls and tuples that their identities tell apart. -/
def Apart (N : List Expr) : Prop :=
  ∀ e ∈ N, ∀ other ∈ N, e.isRebuilt = true → other.isRebuilt = true → e.node = other.node → e = other

namespace Workspace

/-- Types are kept only for nodes that were handed out. -/
def Fresh (w : Workspace) : Prop := ∀ ⦃node type⦄, w.types.find? node = some type → node < w.nextNode

theorem empty_fresh : empty.Fresh := by
  intro node type found
  contradiction

/-- Expressions whose rebuilt nodes have identities that were handed out and are not shared, and whose
kept types are their own. -/
structure Sound (N : List Expr) (w : Workspace) : Prop where
  apart : ∀ e ∈ N, ∀ other ∈ N, e.isRebuilt = true → other.isRebuilt = true → e.node = other.node →
    e = other
  below : ∀ e ∈ N, e.isRebuilt = true → e.node < w.nextNode
  fresh : w.Fresh
  kept : ∀ e ∈ N, e.isRebuilt = true → ∀ {type}, w.types.find? e.node = some type →
    e.ownType = .ok type

variable {N : List Expr} {w : Workspace}

theorem Sound.report (sound : w.Sound N) (event : Event) : (w.report event).Sound N :=
  ⟨sound.apart, sound.below, sound.fresh, sound.kept⟩

theorem Sound.keepType (sound : w.Sound N) {e : Expr} (mem : e ∈ N) (rebuilt : e.isRebuilt = true)
    {type : Option ExprType} (own : e.ownType = .ok type) : (w.keepType e.node type).Sound N where
  apart := sound.apart
  below := sound.below
  fresh node found kept := by
    obtain ⟨same, -⟩ | before := KeyedList.of_find?_insert kept
    · exact same ▸ sound.below e mem rebuilt
    · exact sound.fresh before
  kept other memOther rebuiltOther found kept := by
    obtain ⟨same, known⟩ | before := KeyedList.of_find?_insert kept
    · obtain rfl := sound.apart other memOther e mem rebuiltOther rebuilt same
      rw [own, known]
    · exact sound.kept other memOther rebuiltOther before

end Workspace

/-- A typing step that comes out as if nothing were kept. -/
def Typed {α : Type} (N : List Expr) (m : TypingM α) (outcome : Except FunctionError α) : Prop :=
  ∀ ⦃w : Workspace⦄, w.Sound N → ∃ w' : Workspace, w'.Sound N ∧ m w =
    match outcome with
    | .ok a => .ok a w'
    | .error e => .error e w'

variable {N : List Expr} {α β : Type}

namespace Typed

theorem pure (a : α) : Typed N (pure a) (.ok a) := fun w sound => ⟨w, sound, rfl⟩

theorem throw (e : FunctionError) : Typed (α := α) N (throw e) (.error e) := fun w sound =>
  ⟨w, sound, rfl⟩

theorem bind {m : TypingM α} {f : α → TypingM β} {outcome : Except FunctionError α}
    {later : α → Except FunctionError β} (first : Typed N m outcome)
    (next : ∀ a, outcome = .ok a → Typed N (f a) (later a)) :
    Typed N (m >>= f) (outcome >>= later) := by
  intro w sound
  obtain ⟨w', kept, ran⟩ := first sound
  cases outcome with
  | error e => exact ⟨w', kept, by simp only [Bind.bind, EStateM.bind, ran]; rfl⟩
  | ok a =>
    obtain ⟨w'', last, ranLater⟩ := next a rfl kept
    refine ⟨w'', last, ?_⟩
    simp only [Bind.bind, EStateM.bind, ran]
    exact ranLater

/-- What follows only passes on what it is given. -/
theorem pass {m : TypingM α} {f : α → TypingM α} {outcome : Except FunctionError α}
    (first : Typed N m outcome) (next : ∀ a, outcome = .ok a → Typed N (f a) (.ok a)) :
    Typed N (m >>= f) outcome := by
  have passed : Typed N (m >>= f) (outcome >>= Pure.pure) := first.bind next
  rwa [bind_pure] at passed

theorem keepResolved {e : Expr} (mem : e ∈ N) (rebuilt : e.isRebuilt = true) (function : String)
    {type : Option ExprType} (own : e.ownType = .ok type) :
    Typed N (keepResolved e.node function type) (.ok type) := fun _ sound =>
  ⟨_, (sound.report (.functionResolved function)).keepType mem rebuilt own, rfl⟩

theorem ended_eq {m : TypingM α} {outcome : Except FunctionError α} (typed : Typed N m outcome)
    {w : Workspace} (sound : w.Sound N) : (ended (m w)).1 = outcome := by
  obtain ⟨w', -, ran⟩ := typed sound
  rw [ran]
  cases outcome with
  | ok a | error e => rfl

end Typed

/-- A step that always comes to one answer, and keeps what is kept right. -/
def Yields {α : Type} (N : List Expr) (m : StateM Workspace α) (a : α) : Prop :=
  ∀ ⦃w : Workspace⦄, w.Sound N → ∃ w' : Workspace, w'.Sound N ∧ m w = (a, w')

namespace Yields

theorem pure (a : α) : Yields N (pure a) a := fun w sound => ⟨w, sound, rfl⟩

theorem bind {m : StateM Workspace α} {f : α → StateM Workspace β} {a : α} {b : β} (first : Yields N m a)
    (later : Yields N (f a) b) : Yields N (m >>= f) b := by
  intro w sound
  obtain ⟨w', kept, ran⟩ := first sound
  obtain ⟨w'', last, ranLater⟩ := later kept
  refine ⟨w'', last, ?_⟩
  simp only [Bind.bind, StateT.bind, ran]
  exact ranLater

theorem answered {m : TypingM α} {outcome : Except FunctionError α} (typed : Typed N m outcome) :
    Yields N (answered m) outcome := by
  intro w sound
  obtain ⟨w', kept, ran⟩ := typed sound
  refine ⟨w', kept, ?_⟩
  rw [Query.answered, ran]
  cases outcome <;> rfl

/-- An inquiry comes to one result where each question has one answer. -/
theorem run {Q A : Type} {answers : Q → StateM Workspace A} {known : Q → A}
    (each : ∀ question, Yields N (answers question) (known question)) :
    (x : Inquiry Q A α) → Yields N (x.run answers) (x.result known)
  | .done result => .pure result
  | .ask question next => (each question).bind (run each (next (known question)))

end Yields

theorem Typed.resolveWith {typeAt : Place → TypingM (Option ExprType)} {own : Place → TypeAnswer}
    (each : ∀ place, Typed N (typeAt place) (own place)) (x : Resolution α) :
    Typed N (resolveWith typeAt x) (x.run.result own) := by
  intro w sound
  obtain ⟨w', kept, ran⟩ := Yields.run (fun place => .answered (each place)) x.run sound
  refine ⟨w', kept, ?_⟩
  rw [Query.resolveWith, ran]
  cases x.run.result own <;> rfl

/-- A kept type is the one that would be resolved. -/
theorem resolveOnce_typed {e : Expr} (mem : e ∈ N) (rebuilt : e.isRebuilt = true)
    {m : TypingM (Option ExprType)} (typed : Typed N m e.ownType) :
    Typed N (do
      match (← get).types.find? e.node with
      | some resolved => return resolved
      | none => m) e.ownType := by
  intro w sound
  cases found : w.types.find? e.node with
  | some resolved =>
    refine ⟨w, sound, ?_⟩
    simp only [run_get_bind, found]
    rw [sound.kept e mem rebuilt found]
    rfl
  | none =>
    obtain ⟨w', kept, ran⟩ := typed sound
    refine ⟨w', kept, ?_⟩
    simp only [run_get_bind, found]
    exact ran

mutual

theorem Expr.typeWithin_typed : (e : Expr) → (∀ d ∈ e.nodes, d ∈ N) → (place : Place) →
    Typed N (e.typeWithin place) (e.ownTypeWithin place)
  | .literal .., _, [] | .literal .., _, _ :: _ => .pure _
  | .parameter .., _, [] | .parameter .., _, _ :: _ => .pure _
  | .path .., _, [] | .path .., _, _ :: _ => .pure _
  | .call node function arguments implied notes, members, [] => by
    have mem := members _ (mem_nodes _)
    have below : ∀ d ∈ nodesOf arguments, d ∈ N := fun d mem => members d (List.mem_cons_of_mem _ mem)
    rw [typeWithin]
    refine resolveOnce_typed mem rfl ?_
    have resolved := Typed.resolveWith (typeAmong_typed arguments below)
      (function.returns.resolve implied (seenAll arguments) function.catalog)
    exact resolved.pass fun type own => .keepResolved mem rfl function.name own
  | .call _ _ arguments _ _, members, index :: below => by
    rw [typeWithin, ownTypeWithin]
    exact typeAmong_typed arguments (fun d mem => members d (List.mem_cons_of_mem _ mem)) _
  | .tuple .., _, [] => .pure _
  | .tuple _ elements _, members, index :: below => by
    rw [typeWithin, ownTypeWithin]
    exact typeAmong_typed elements (fun d mem => members d (List.mem_cons_of_mem _ mem)) _

theorem Expr.typeAmong_typed : (es : List Expr) → (∀ d ∈ Expr.nodesOf es, d ∈ N) → (place : Place) →
    Typed N (Expr.typeAmong es place) (Expr.ownTypeAmong es place)
  | [], _, _ | _ :: _, _, [] => .pure _
  | e :: _, members, 0 :: below => by
    rw [nodesOf, List.forall_mem_append] at members
    rw [typeAmong, ownTypeAmong]
    exact typeWithin_typed e members.1 below
  | _ :: rest, members, (index + 1) :: below => by
    rw [nodesOf, List.forall_mem_append] at members
    rw [typeAmong, ownTypeAmong]
    exact typeAmong_typed rest members.2 (index :: below)

end

theorem Expr.type_typed (e : Expr) (members : ∀ d ∈ e.nodes, d ∈ N) : Typed N e.type e.ownType :=
  e.typeWithin_typed members []

/-! Two functions that require nothing of their arguments: the date of today, and the later of some dates. -/
namespace Dates

def date : BasicType := ⟨"date", .date, .date⟩

def today : Callee := ⟨⟨"current_date", .invariant date, none, none, .keyword⟩, .empty⟩

def later : Callee := ⟨⟨"greatest", .highest, none, none, .standard⟩, .empty⟩

end Dates

end SemanticQuery.Query
