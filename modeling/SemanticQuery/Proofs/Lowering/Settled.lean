import SemanticQuery.Proofs.Lowering.Allocation
import SemanticQuery.Proofs.Query.Settled

/-! Hints that are settled. Lowering keeps the types that were found, whether it fails or not, so that the
type of an expression that has been lowered is the same hint from then on. -/
namespace SemanticQuery.Lowering
open Query

/-- A hint that keeps the types of nodes when it is worked out. -/
abbrev HintKeeps (h : Hint) : Prop := Retains h

/-- A lowering step that keeps the types of nodes. -/
abbrev KeepsTypes {α : Type} (m : LowerM α) : Prop := Keeping Progress.work m

namespace KeepsTypes
variable {α β : Type}

theorem seq {m : LowerM α} {f : α → LowerM β} (first : KeepsTypes m) (later : ∀ a, KeepsTypes (f a)) :
    KeepsTypes (m >>= f) := Keeping.bind first later

/-- The last step only puts together what was made. -/
theorem map {m : LowerM α} {f : α → β} (first : KeepsTypes m) : KeepsTypes (do let a ← m; return f a) :=
  first.seq fun a => .pure (f a)

theorem runTyping {m : TypingM α} (keeping : Keeping id m) : KeepsTypes (runTyping m) := by
  intro p
  have kept := keeping p.work
  simp only [Lowering.runTyping]
  cases ran : m p.work with
  | ok a w | error e w =>
    rw [ran] at kept
    exact kept

theorem runHint {h : Hint} (hint : HintKeeps h) : KeepsTypes (runHint h) := fun p => hint p.work

theorem liftMapping (x : Except MappingError α) : KeepsTypes (liftMapping x) := by
  cases x with
  | ok a => exact .pure a
  | error e => exact .throw _

theorem liftFunction (x : Except FunctionError α) : KeepsTypes (liftFunction x) := by
  cases x with
  | ok a => exact .pure a
  | error e => exact .throw _

theorem allocate (id : OccurrenceId) (types : List (Option ColumnType)) :
    KeepsTypes (allocate id types) := fun p => .refl p.work

theorem report (event : Event) : KeepsTypes (report event) := fun p => .refl p.work

end KeepsTypes

/-! Hints. -/

namespace HintKeeps

theorem pure (m : Option Mapping) : HintKeeps (pure m) := fun w => .refl w

theorem elementHint {h : Hint} (hint : HintKeeps h) (index : Nat) : HintKeeps (elementHint h index) := by
  intro w
  have kept := hint w
  simp only [Lowering.elementHint, Bind.bind, StateT.bind]
  cases ran : h w with
  | mk m w' =>
    rw [ran] at kept
    cases m with
    | none | some m => exact kept

end HintKeeps

section
variable (c : Scope)

theorem quietly_keeps (e : Expr) (w : Workspace) : w.Keeps (quietly e.type w).2 := by
  have kept := e.type_keeps w
  unfold quietly
  cases ran : e.type w with
  | ok | error =>
    rw [ran] at kept
    exact kept

theorem typeHint_keeps (e : Expr) : HintKeeps (typeHint c e) := by
  intro w
  have kept := quietly_keeps e w
  simp only [typeHint, Bind.bind, StateT.bind]
  cases ran : quietly e.type w with
  | mk type w' =>
    rw [ran] at kept
    cases type with
    | none | some type => exact kept

theorem argumentHint_keeps (function : Callee) (implied : Option ExprType) (arguments : List Expr)
    (index : Nat) : HintKeeps (argumentHint c function implied arguments index) := by
  unfold argumentHint
  split
  · exact .pure none
  · exact .run (fun place => .answered (Expr.typeAmong_keeps arguments place)) _

/-! Expressions. -/

variable {h : Hint}

theorem lowerLiteral_keeps (hint : HintKeeps h) (v : Value) (type : ExprType) :
    KeepsTypes (lowerLiteral c h v type) := by
  have written (m : Mapping) : KeepsTypes (do
      let values ← liftMapping (m.decompose v)
      return Sql.Expr.ofList (values.map fun cv => .literal cv.value cv.type)) :=
    KeepsTypes.map (.liftMapping _)
  apply KeepsTypes.seq (.liftMapping (c.mapping type))
  intro known
  cases known with
  | some m => exact written m
  | none =>
    apply KeepsTypes.seq (.runHint hint)
    intro hinted
    cases hinted with
    | none => exact .throw _
    | some m => exact written m

theorem lowerHinted_keeps (hint : HintKeeps h) (o : Occurrence) : KeepsTypes (lowerHinted c h o) := by
  apply KeepsTypes.seq (.runHint hint)
  intro mapping
  cases mapping with
  | some m => exact KeepsTypes.map (.allocate _ _)
  | none =>
    cases c.strict with
    | true => exact .throw _
    | false => exact KeepsTypes.map (.allocate _ _)

theorem lowerParameter_keeps (hint : HintKeeps h) (o : Occurrence) :
    KeepsTypes (lowerParameter c h o) := by
  unfold lowerParameter
  cases o.type? with
  | none => exact lowerHinted_keeps c hint o
  | some type =>
    apply KeepsTypes.seq (.liftMapping (c.mapping type))
    intro own
    cases own with
    | none => exact lowerHinted_keeps c hint o
    | some m => exact KeepsTypes.map (.allocate _ _)

theorem lowerPath_keeps (source : PathRef) : KeepsTypes (lowerPath c source) := by
  unfold lowerPath
  split
  · exact .throw _
  · exact KeepsTypes.map (.liftMapping _)

theorem resultMapping_keeps (function : String) (type : Option ExprType) :
    KeepsTypes (resultMapping c function type) := by
  unfold resultMapping
  split
  · exact .pure _
  · split
    · exact .pure _
    · exact KeepsTypes.map (.report _)

theorem callMapping_keeps (function : Callee) (type : Option ExprType) (arguments : List Sql.Expr) :
    KeepsTypes (callMapping c function type arguments) := by
  unfold callMapping
  split
  · exact .pure _
  · exact Inquiry.run_holds .pure (fun _ _ => (resultMapping_keeps c _ _).seq) _

theorem checkLowered_keeps (function : Callee) (arguments : List Sql.Expr) :
    KeepsTypes (checkLowered function arguments) := by
  unfold checkLowered
  split
  · exact .liftFunction _
  · exact .pure _

theorem callParts_keeps (function : Callee) (type : Option ExprType)
    {lowering : LowerM (List Sql.Expr)} (arguments : KeepsTypes lowering) : KeepsTypes (do
      let lowered ← lowering
      checkLowered function lowered
      let mapping ← callMapping c function type lowered
      return Sql.Expr.call function.name function.style lowered type mapping) := by
  apply KeepsTypes.seq arguments
  intro lowered
  apply KeepsTypes.seq (checkLowered_keeps function lowered)
  intro _
  exact KeepsTypes.map (callMapping_keeps c function type lowered)

mutual

theorem lowerExpr_keeps {h : Hint} (hint : HintKeeps h) : (e : Expr) → KeepsTypes (lowerExpr c h e)
  | .literal _ v type => lowerLiteral_keeps c hint v type
  | .parameter _ o => lowerParameter_keeps c hint o
  | .path _ source => lowerPath_keeps c source
  | .call node function arguments implied notes => by
    simp only [lowerExpr]
    apply KeepsTypes.seq (.runTyping (Expr.type_keeps _))
    intro type
    exact callParts_keeps c function type (lowerArguments_keeps function implied arguments 0 arguments)
  | .tuple _ elements _ => by
    simp only [lowerExpr]
    exact KeepsTypes.map (lowerElements_keeps hint 0 elements)

theorem lowerArguments_keeps (function : Callee) (implied : Option ExprType) (all : List Expr)
    (index : Nat) : (es : List Expr) → KeepsTypes (lowerArguments c function implied all index es)
  | [] => .pure _
  | e :: rest => by
    simp only [lowerArguments]
    apply KeepsTypes.seq (lowerExpr_keeps (argumentHint_keeps c function implied all index) e)
    intro first
    exact KeepsTypes.map (lowerArguments_keeps function implied all (index + 1) rest)

theorem lowerElements_keeps {h : Hint} (hint : HintKeeps h) (index : Nat) :
    (es : List Expr) → KeepsTypes (lowerElements c h index es)
  | [] => .pure _
  | e :: rest => by
    simp only [lowerElements]
    apply KeepsTypes.seq (lowerExpr_keeps (hint.elementHint index) e)
    intro first
    exact KeepsTypes.map (lowerElements_keeps hint (index + 1) rest)

end

variable {e : Expr} {x : Sql.Expr} {p p' : Progress}

theorem runTyping_ok {α : Type} {m : TypingM α} {a : α} (ran : runTyping m p = .ok a p') :
    m p.work = .ok a p'.work := by
  simp only [runTyping] at ran
  split at ran
  next found =>
    cases ran
    exact found
  · contradiction

/-- An expression that was lowered had a type by then: calls are typed first. -/
theorem typed_of_lowered (ran : lowerExpr c h e p = .ok x p') :
    ∃ type w w', e.type w = .ok type w' ∧ w'.Keeps p'.work := by
  have atOnce (type : Option ExprType) (known : ∀ w, e.type w = .ok type w) :
      ∃ type w w', e.type w = .ok type w' ∧ w'.Keeps p'.work :=
    ⟨type, p'.work, p'.work, known _, .refl _⟩
  cases e with
  | literal node v type => exact atOnce (some type) fun w => by rw [Expr.type, Expr.typeWithin]; rfl
  | parameter node o => exact atOnce o.type? fun w => by rw [Expr.type, Expr.typeWithin]; rfl
  | path node source => exact atOnce (some (.path source)) fun w => by rw [Expr.type, Expr.typeWithin]; rfl
  | tuple node elements notes =>
    exact atOnce (some (.domain .composite)) fun w => by rw [Expr.type, Expr.typeWithin]; rfl
  | call node function arguments implied notes =>
    simp only [lowerExpr] at ran
    obtain ⟨type, q, typed, ran⟩ := run_bind_ok.mp ran
    have parts := callParts_keeps c function type
      (lowerArguments_keeps c function implied arguments 0 arguments)
    exact ⟨type, p.work, q.work, runTyping_ok typed, parts.ran ran⟩

/-- Behind an expression that was lowered its type is a hint that stays the same and costs nothing. -/
theorem typeHint_settled (ran : lowerExpr c h e p = .ok x p') :
    ∃ m, ∀ w, p'.work.Keeps w → typeHint c e w = (m, w) := by
  obtain ⟨type, v, v', asked, kept⟩ := typed_of_lowered c ran
  refine ⟨type.bind c.mapping?, fun w later => ?_⟩
  have settled := Expr.type_settled asked (kept.trans later)
  simp only [typeHint, quietly, Bind.bind, StateT.bind, settled]
  cases type <;> rfl

end

end SemanticQuery.Lowering
