import SemanticQuery.Proofs.KeyedList
import SemanticQuery.Proofs.Outcome
import SemanticQuery.Query.Typing

/-! Result types are settled. Whatever is asked for and whatever fails, a type that is kept for a node stays
as it is, and a node that was asked for with success has a type kept for it. -/
namespace SemanticQuery.Query

/-- What is kept for nodes is still kept for them. -/
def Workspace.Keeps (w w' : Workspace) : Prop :=
  ∀ ⦃node type⦄, w.types.find? node = some type → w'.types.find? node = some type

namespace Workspace.Keeps
variable {w w' w'' : Workspace}

theorem refl (w : Workspace) : w.Keeps w := fun _ _ found => found

theorem trans (first : w.Keeps w') (later : w'.Keeps w'') : w.Keeps w'' := fun _ _ found =>
  later (first found)

/-- A type is kept for a node that had none. -/
theorem keepType (kept : w.Keeps w') {node : NodeId} (unknown : w.types.find? node = none)
    (type : Option ExprType) : w.Keeps (w'.keepType node type) := by
  intro other found known
  have different : other ≠ node := by
    rintro rfl
    rw [unknown] at known
    contradiction
  exact (KeyedList.find?_insert_of_ne different).trans (kept known)

end Workspace.Keeps

/-- A step that keeps the types of nodes, also where it fails. -/
def Keeping {ε σ α : Type} (work : σ → Workspace) (m : EStateM ε σ α) : Prop :=
  ∀ s, (work s).Keeps (work (ended (m s)).2)

namespace Keeping
variable {ε σ α β : Type} {work : σ → Workspace}

theorem pure (a : α) : Keeping work (pure a : EStateM ε σ α) := fun s => .refl (work s)

theorem throw (e : ε) : Keeping work (throw e : EStateM ε σ α) := fun s => .refl (work s)

theorem bind {m : EStateM ε σ α} {f : α → EStateM ε σ β} (first : Keeping work m)
    (later : ∀ a, Keeping work (f a)) : Keeping work (m >>= f) := by
  intro s
  have kept := first s
  simp only [Bind.bind, EStateM.bind]
  cases ran : m s with
  | error e s' =>
    rw [ran] at kept
    exact kept
  | ok a s' =>
    rw [ran] at kept
    exact kept.trans (later a s')

theorem ran {m : EStateM ε σ α} (keeping : Keeping work m) {s s' : σ} {a : α} (run : m s = .ok a s') :
    (work s).Keeps (work s') := by
  have kept := keeping s
  rw [run] at kept
  exact kept

end Keeping

/-- A step that cannot fail and keeps the types of nodes. -/
def Retains {α : Type} (m : StateM Workspace α) : Prop := ∀ w : Workspace, w.Keeps (m w).2

namespace Retains
variable {α β : Type}

theorem pure (a : α) : Retains (pure a) := fun w => .refl w

theorem bind {m : StateM Workspace α} {f : α → StateM Workspace β} (first : Retains m)
    (later : ∀ a, Retains (f a)) : Retains (m >>= f) := fun w => (first w).trans (later _ _)

theorem answered {m : TypingM α} (keeping : Keeping id m) : Retains (answered m) := by
  intro w
  have kept := keeping w
  unfold Query.answered
  cases ran : m w with
  | ok | error =>
    rw [ran] at kept
    exact kept

/-- An inquiry keeps what those keep who answer it. -/
theorem run {Q A : Type} {answers : Q → StateM Workspace A} (each : ∀ question, Retains (answers question))
    (x : Inquiry Q A α) : Retains (x.run answers) :=
  x.run_holds .pure fun question _ => (each question).bind

end Retains

theorem Keeping.resolveWith {α : Type} {typeAt : Place → TypingM (Option ExprType)}
    (each : ∀ place, Keeping id (typeAt place)) (x : Resolution α) :
    Keeping id (resolveWith typeAt x) := by
  intro w
  have kept := Retains.run (fun place => .answered (each place)) x.run w
  unfold Query.resolveWith
  cases ran : x.run.run (fun place => Query.answered (typeAt place)) w with
  | mk outcome w' =>
    rw [ran] at kept
    cases outcome with
    | ok | error => exact kept

/-- A node without a type is given one behind steps that keep the types of others. -/
theorem keepResolved_keeps {m : TypingM (Option ExprType)} (parts : Keeping id m) {node : NodeId}
    {function : String} {w : Workspace} (unknown : w.types.find? node = none) :
    w.Keeps (ended ((m >>= keepResolved node function) w)).2 := by
  have kept := parts w
  simp only [Bind.bind, EStateM.bind]
  cases ran : m w with
  | error e w' =>
    rw [ran] at kept
    exact kept
  | ok type w' =>
    rw [ran] at kept
    exact Workspace.Keeps.keepType kept unknown type

mutual

theorem Expr.typeWithin_keeps : (e : Expr) → (place : Place) → Keeping id (e.typeWithin place)
  | .literal .., [] | .parameter .., [] | .path .., [] | .tuple .., [] => .pure _
  | .literal .., _ :: _ | .parameter .., _ :: _ | .path .., _ :: _ => .pure _
  | .call node function arguments implied notes, [] => by
    intro w
    rw [typeWithin]
    cases found : w.types.find? node with
    | some resolved =>
      simp only [run_get_bind, found]
      exact .refl w
    | none =>
      simp only [run_get_bind, found]
      exact keepResolved_keeps (.resolveWith (typeAmong_keeps arguments) _) found
  | .call _ _ arguments _ _, index :: below => by
    rw [typeWithin]
    exact typeAmong_keeps arguments (index :: below)
  | .tuple _ elements _, index :: below => by
    rw [typeWithin]
    exact typeAmong_keeps elements (index :: below)

theorem Expr.typeAmong_keeps : (es : List Expr) → (place : Place) → Keeping id (Expr.typeAmong es place)
  | [], _ | _ :: _, [] => .pure _
  | e :: _, 0 :: below => by
    rw [typeAmong]
    exact typeWithin_keeps e below
  | _ :: rest, (index + 1) :: below => by
    rw [typeAmong]
    exact typeAmong_keeps rest (index :: below)

end

theorem Expr.type_keeps (e : Expr) : Keeping id e.type := e.typeWithin_keeps []

theorem keepResolved_kept {m : TypingM (Option ExprType)} {node : NodeId} {function : String}
    {w w' : Workspace} {type : Option ExprType} (ran : (m >>= keepResolved node function) w = .ok type w') :
    w'.types.find? node = some type := by
  obtain ⟨found, v, -, kept⟩ := run_bind_ok.mp ran
  cases kept
  exact KeyedList.find?_insert_self ..

/-- The type a call was found to have is kept for its node. -/
theorem Expr.type_of_call {node : NodeId} {function : Callee} {arguments : List Expr}
    {implied type : Option ExprType} {notes : Notes} {w w' : Workspace}
    (asked : (call node function arguments implied notes).type w = .ok type w') :
    w'.types.find? node = some type := by
  rw [Expr.type, Expr.typeWithin] at asked
  cases found : w.types.find? node with
  | some resolved =>
    simp only [run_get_bind, found] at asked
    cases asked
    exact found
  | none =>
    simp only [run_get_bind, found] at asked
    exact keepResolved_kept asked

/-- Once a type was found, it is the answer from then on, and asking changes nothing. -/
theorem Expr.type_settled {e : Expr} {w w' w'' : Workspace} {type : Option ExprType}
    (asked : e.type w = .ok type w') (kept : w'.Keeps w'') : e.type w'' = .ok type w'' := by
  cases e with
  | literal | parameter | path | tuple =>
    rw [Expr.type, Expr.typeWithin] at asked
    cases asked
    rw [Expr.type, Expr.typeWithin]
    rfl
  | call node function arguments implied notes =>
    have known := kept (type_of_call asked)
    rw [Expr.type, Expr.typeWithin]
    simp only [run_get_bind, known]
    rfl

end SemanticQuery.Query
