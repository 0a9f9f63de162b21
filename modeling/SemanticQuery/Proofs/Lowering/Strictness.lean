import SemanticQuery.Proofs.Lowering.References

/-! Lowering with and without a refusal of parameters that have no type. Up to the first such parameter
both take the same steps; there the stricter one ends, and what the other one makes, if anything, has
a slot without a type. -/
namespace SemanticQuery.Lowering
open Query

/-- The scope in which a parameter without a type is refused. -/
def Scope.demanding (c : Scope) : Scope := { c with strict := true }

/-- Groups whose slots all have a type. -/
abbrev FullyTyped (gs : Groups) : Prop := ∀ g ∈ gs, ∀ slot ∈ g.2, slot.type ≠ none

def Ledger.Typed (l : Ledger) : Prop := FullyTyped l.entries

instance (l : Ledger) : Decidable l.Typed := inferInstanceAs (Decidable (FullyTyped l.entries))

theorem Ledger.Extends.typed_iff {l l' : Ledger} {added : Groups} (grown : l.Extends l' added) :
    l'.Typed ↔ l.Typed ∧ FullyTyped added := by
  rw [Ledger.Typed, Ledger.Typed, grown.entries]
  exact List.forall_mem_append

variable {α β γ δ : Type}

/-- How two runs from one state end, the first of which may have been refused. What it makes otherwise can
be read off what the second one makes. -/
inductive Tightened (view : β → α) (p : Progress) :
    EStateM.Result LoweringError Progress α → EStateM.Result LoweringError Progress β → Prop
  | kept {b : β} {p' : Progress} (typed : p'.ledger.Typed ↔ p.ledger.Typed) :
      Tightened view p (.ok (view b) p') (.ok b p')
  | failed {e : LoweringError} {p' : Progress} : Tightened view p (.error e p') (.error e p')
  | refused {key : String} {p' : Progress} {result : EStateM.Result LoweringError Progress β}
      (untyped : ∀ b q, result = .ok b q → ¬ q.ledger.Typed) :
      Tightened view p (.error (.untypedParameter key) p') result

def Tightens (view : β → α) (strict : LowerM α) (lax : LowerM β) : Prop :=
  ∀ p, Tightened view p (strict p) (lax p)

/-- A slot without a type stays in the ledger. -/
theorem Tightened.typed_before {view : β → α} {p p' : Progress} {b : β}
    {result : EStateM.Result LoweringError Progress α} (tightened : Tightened view p result (.ok b p'))
    (typed : p'.ledger.Typed) : p.ledger.Typed := by
  cases tightened with
  | kept same => exact same.mp typed
  | refused untyped => exact absurd typed (untyped b p' rfl)

/-- The start may be moved back over slots that have types. -/
theorem Tightened.earlier {view : β → α} {p q : Progress} {result : EStateM.Result LoweringError Progress α}
    {result' : EStateM.Result LoweringError Progress β} (same : q.ledger.Typed ↔ p.ledger.Typed)
    (tightened : Tightened view q result result') : Tightened view p result result' := by
  cases tightened with
  | kept typed => exact .kept (typed.trans same)
  | failed => exact .failed
  | refused untyped => exact .refused untyped

namespace Tightens

theorem bind {view : β → α} {last : δ → γ} {strict : LowerM α} {lax : LowerM β} {f : α → LowerM γ}
    {f' : β → LowerM δ} (first : Tightens view strict lax)
    (later : ∀ b, Tightens last (f (view b)) (f' b)) : Tightens last (strict >>= f) (lax >>= f') := by
  intro p
  have outcome := first p
  simp only [Bind.bind, EStateM.bind]
  generalize strict p = result at outcome ⊢
  cases ran : lax p with
  | ok b q =>
    rw [ran] at outcome
    have outcomeLater := later b q
    cases outcome with
    | kept typed => exact outcomeLater.earlier typed
    | refused untyped =>
      -- The stricter run has ended here; the other one keeps its slot without a type to the end.
      apply Tightened.refused
      intro d p' ranLater typed
      rw [show f' b q = .ok d p' from ranLater] at outcomeLater
      exact untyped b q rfl (outcomeLater.typed_before typed)
  | error e q =>
    rw [ran] at outcome
    cases outcome with
    | failed => exact .failed
    | refused _ => exact .refused nofun

/-- Both start with a step that makes the same for each. -/
theorem step {last : δ → γ} {strict lax : LowerM α} {f : α → LowerM γ} {f' : α → LowerM δ}
    (first : Tightens id strict lax) (later : ∀ a, Tightens last (f a) (f' a)) :
    Tightens last (strict >>= f) (lax >>= f') :=
  bind first later

theorem pure {view : β → α} (b : β) : Tightens view (pure (view b)) (pure b) := fun _ => .kept .rfl

theorem map {strict lax : LowerM α} (first : Tightens id strict lax) (make : α → β) :
    Tightens id (do let a ← strict; return make a) (do let a ← lax; return make a) :=
  step first fun _ => .pure _

theorem pair {strict lax : LowerM α} {strict' lax' : LowerM β} (first : Tightens id strict lax)
    (second : Tightens id strict' lax') (make : α → β → γ) :
    Tightens id (do let a ← strict; let b ← strict'; return make a b)
      (do let a ← lax; let b ← lax'; return make a b) :=
  step first fun a => map second (make a)

/-- A step that adds slots with types only is the same for both. -/
theorem of_typed {m : LowerM α} (typed : Allocates (fun _ added => FullyTyped added) m) :
    Tightens id m m := by
  intro p
  cases ran : m p with
  | ok a p' =>
    obtain ⟨added, grown, full⟩ := typed ran
    apply Tightened.kept
    rw [grown.typed_iff]
    exact and_iff_left full
  | error e p' => exact .failed

theorem of_silent {m : LowerM α} (silent : Silent m) : Tightens id m m := by
  apply of_typed
  apply silent.imp
  rintro a _ rfl
  exact nofun

/-- A refusal in place of a step that leaves a slot without a type. -/
theorem of_untyped {view : β → α} {m : LowerM β} (key : String)
    (untyped : Allocates (fun _ added => ¬FullyTyped added) m) :
    Tightens view (throw (.untypedParameter key) : LowerM α) m := by
  intro p
  apply Tightened.refused
  intro b q ran typed
  obtain ⟨added, grown, missing⟩ := untyped ran
  exact missing (grown.typed_iff.mp typed).2

end Tightens

variable (c : Scope) (h : Hint)

/-- Slots of columns have the types of the columns. -/
theorem lowerMapped_tightens (o : Occurrence) (m : Mapping) :
    Tightens id (do let group ← allocate o.id (m.columnTypes.map some); return Sql.Expr.ofSlots group)
      (do let group ← allocate o.id (m.columnTypes.map some); return Sql.Expr.ofSlots group) := by
  apply Tightens.step ?_ fun group => .pure _
  apply Tightens.of_typed
  apply (allocate_allocates o.id _).imp
  rintro group _ ⟨rfl, types⟩ g mem slot found
  obtain rfl := List.mem_singleton.mp mem
  have known : slot.type ∈ m.columnTypes.map some := by
    rw [← types]
    exact List.mem_map_of_mem found
  obtain ⟨type, -, typed⟩ := List.mem_map.mp known
  simp [← typed]

theorem allocate_untyped (o : Occurrence) :
    Allocates (fun _ added => ¬FullyTyped added)
      (do let group ← allocate o.id [none]; return Sql.Expr.ofSlots group) := by
  apply Allocates.bind (allocate_allocates o.id [none])
  rintro group _ ⟨rfl, types⟩
  apply Allocates.pure
  intro full
  have missing : none ∈ group.map Slot.type := by simp [types]
  obtain ⟨slot, found, untyped⟩ := List.mem_map.mp missing
  exact full (o.id, group) (by simp) slot found untyped

theorem lowerHinted_tightens (o : Occurrence) :
    Tightens id (lowerHinted c.demanding h o) (lowerHinted c h o) := by
  apply Tightens.step (.of_silent (.runHint h))
  intro mapping
  cases mapping with
  | some m => exact lowerMapped_tightens o m
  | none =>
    apply Tightens.of_untyped
    cases c.strict with
    | true => exact .throw _
    | false => exact allocate_untyped o

theorem lowerParameter_tightens (o : Occurrence) :
    Tightens id (lowerParameter c.demanding h o) (lowerParameter c h o) := by
  unfold lowerParameter
  cases o.type? with
  | none => exact lowerHinted_tightens c h o
  | some type =>
    apply Tightens.step (.of_silent (.liftMapping (c.mapping type)))
    intro own
    cases own with
    | none => exact lowerHinted_tightens c h o
    | some m => exact lowerMapped_tightens o m

mutual

theorem lowerExpr_tightens (h : Hint) : (e : Expr) →
    Tightens id (lowerExpr c.demanding h e) (lowerExpr c h e)
  | .literal _ v type => .of_silent (lowerLiteral_allocates c h v type fun _ => rfl)
  | .parameter _ o => lowerParameter_tightens c h o
  | .path _ source => .of_silent (lowerPath_allocates c source fun _ _ => rfl)
  | .call node function arguments implied notes => by
    simp only [lowerExpr]
    apply Tightens.step (.of_silent (.runTyping _))
    intro type
    apply Tightens.step (lowerArguments_tightens function implied arguments 0 arguments)
    intro lowered
    have checked := checkLowered_silent function lowered
    have mapped := callMapping_silent c function type lowered
    exact .pair (.of_silent checked) (.of_silent mapped) _
  | .tuple _ elements _ => by
    simp only [lowerExpr]
    exact .map (lowerElements_tightens h 0 elements) _

theorem lowerArguments_tightens (function : Callee) (implied : Option ExprType) (all : List Expr)
    (index : Nat) : (es : List Expr) →
      Tightens id (lowerArguments c.demanding function implied all index es)
        (lowerArguments c function implied all index es)
  | [] => .pure _
  | e :: rest => by
    simp only [lowerArguments]
    have first := lowerExpr_tightens (argumentHint c function implied all index) e
    have later := lowerArguments_tightens function implied all (index + 1) rest
    exact .pair first later _

theorem lowerElements_tightens (h : Hint) (index : Nat) : (es : List Expr) →
    Tightens id (lowerElements c.demanding h index es) (lowerElements c h index es)
  | [] => .pure _
  | e :: rest => by
    simp only [lowerElements]
    have first := lowerExpr_tightens (elementHint h index) e
    have later := lowerElements_tightens h (index + 1) rest
    exact .pair first later _

end

theorem lowerExpansions_tightens (os : List Occurrence) :
    Tightens id (lowerExpansions c.demanding h os) (lowerExpansions c h os) := by
  induction os with
  | nil => exact .pure _
  | cons o rest ih =>
    exact .pair (lowerParameter_tightens c h o) ih _

theorem lowerItems_tightens (items : List Expr) :
    Tightens id (lowerItems c.demanding h items) (lowerItems c h items) := by
  induction items with
  | nil => exact .pure _
  | cons e rest ih =>
    apply Tightens.step (lowerExpr_tightens c h e)
    intro first
    exact .pair (lowerExpansions_tightens c h (expansionsOf c e)) ih _

mutual

theorem lowerPredicate_tightens : (p : Predicate) →
    Tightens id (lowerPredicate c.demanding p) (lowerPredicate c p)
  | .comparison lhs operator rhs => by
    simp only [lowerPredicate]
    have left := lowerExpr_tightens c (typeHint c rhs) lhs
    have right := lowerExpr_tightens c (typeHint c lhs) rhs
    exact .pair left right _
  | .inList test items negated => by
    simp only [lowerPredicate]
    have tested := lowerExpr_tightens c (firstItemHint c items) test
    have listed := lowerItems_tightens c (typeHint c test) items
    exact .pair tested listed _
  | .and children | .or children => by
    simp only [lowerPredicate]
    exact .map (lowerPredicates_tightens children) _
  | .not inner => by
    simp only [lowerPredicate]
    exact .map (lowerPredicate_tightens inner) _
  | .isNull e negated => by
    simp only [lowerPredicate]
    exact .map (lowerExpr_tightens c noHint e) _

theorem lowerPredicates_tightens : (ps : List Predicate) →
    Tightens id (lowerPredicates c.demanding ps) (lowerPredicates c ps)
  | [] => .pure _
  | p :: rest => by
    simp only [lowerPredicates]
    exact .pair (lowerPredicate_tightens p) (lowerPredicates_tightens rest) _

end

theorem lowerRestriction_tightens (restriction : Option Predicate) :
    Tightens id (lowerRestriction c.demanding restriction) (lowerRestriction c restriction) := by
  cases restriction with
  | none => exact .pure _
  | some p =>
    exact .map (lowerPredicate_tightens c p) _

theorem lowerRow_tightens (mappings : List (Option Mapping)) (index : Nat) (row : List Expr) :
    Tightens id (lowerRow c.demanding mappings index row) (lowerRow c mappings index row) := by
  induction row generalizing index with
  | nil => exact .pure _
  | cons cell rest ih =>
    have first := lowerExpr_tightens c (pure (mappings[index]?).join) cell
    have later := ih (index + 1)
    exact .pair first later _

theorem lowerRows_tightens (mappings : List (Option Mapping)) (rows : List (List Expr)) :
    Tightens id (lowerRows c.demanding mappings rows) (lowerRows c mappings rows) := by
  induction rows with
  | nil => exact .pure _
  | cons row rest ih =>
    exact .pair (lowerRow_tightens c mappings 0 row) ih _

theorem lowerSelections_tightens (position : Nat) (items : List Selection) :
    Tightens id (lowerSelections c.demanding position items) (lowerSelections c position items) := by
  induction items generalizing position with
  | nil => exact .pure _
  | cons item rest ih =>
    apply Tightens.step (lowerExpr_tightens c noHint item.expr)
    intro lowered
    have result := itemResult_silent position item lowered
    exact .pair (.of_silent result) (ih (position + lowered.leaves.length)) _

theorem lowerAssignments_tightens (assignments : List Assignment) :
    Tightens id (lowerAssignments c.demanding assignments) (lowerAssignments c assignments) := by
  induction assignments with
  | nil => exact .pure _
  | cons a rest ih =>
    apply Tightens.step (.of_silent (.liftMapping (c.model.resolvePath c.source a.target.path)))
    intro target
    exact .pair (lowerExpr_tightens c (pure (some target.mapping)) a.value) ih _

/-! Sources are entered alike, into scopes that differ in the refusal only. -/

theorem rootTable_tightens (root : Root) :
    Tightens (Prod.map id Scope.demanding) (rootTable c.demanding root) (rootTable c root) := by
  apply Tightens.step (.of_silent (.liftMapping (c.model.entity root.entity)))
  intro entity
  exact Tightens.pure (_, c.add (.entity root.path entity.name _))

theorem addRoots_tightens (roots : List Root) :
    Tightens Scope.demanding (addRoots c.demanding roots) (addRoots c roots) := by
  induction roots generalizing c with
  | nil => exact .pure _
  | cons root rest ih =>
    apply Tightens.bind (rootTable_tightens c root)
    intro entered
    exact ih entered.2

/-- The mappings of columns of inline rows do not depend on the refusal. -/
theorem columnMappings_demanding (rows : List (List Expr)) (index : Nat) (columns : List String) :
    columnMappings c.demanding rows index columns = columnMappings c rows index columns := by
  induction columns generalizing index with
  | nil => rfl
  | cons column rest ih =>
    simp only [columnMappings, ih]
    rfl

theorem addValues_tightens (roots : List ValuesRoot) :
    Tightens Scope.demanding (addValues c.demanding roots) (addValues c roots) := by
  induction roots generalizing c with
  | nil => exact .pure _
  | cons root rest ih =>
    simp only [addValues, columnMappings_demanding]
    apply Tightens.step (.of_silent (columnMappings_silent c root.rows 0 root.columns))
    intro mappings
    apply Tightens.step (lowerRows_tightens c mappings root.rows)
    intro rows
    exact ih (c.add (.values root.path ⟨rows, root.path.rootName, root.columns⟩ mappings [] []))

theorem lowerSelect_tightens (s : Select) :
    Tightens id (lowerSelect c.demanding s) (lowerSelect c s) := by
  apply Tightens.bind (addRoots_tightens c s.roots)
  intro rooted
  apply Tightens.bind (addValues_tightens rooted s.values)
  intro full
  have selected := lowerSelections_tightens full 0 s.selections
  exact .pair selected (lowerRestriction_tightens full s.restriction) _

theorem lowerUpdate_tightens (u : Update) :
    Tightens id (lowerUpdate c.demanding u) (lowerUpdate c u) := by
  apply Tightens.bind (rootTable_tightens c u.target)
  intro entered
  have assigned := lowerAssignments_tightens entered.2 u.assignments
  exact .pair assigned (lowerRestriction_tightens entered.2 u.restriction) _

theorem lowerDelete_tightens (d : Delete) :
    Tightens id (lowerDelete c.demanding d) (lowerDelete c d) := by
  apply Tightens.bind (rootTable_tightens c d.target)
  intro entered
  exact .map (lowerRestriction_tightens entered.2 d.restriction) _

theorem lowerParts_tightens : (s : Statement) → Tightens id (lowerParts c.demanding s) (lowerParts c s)
  | .select s => lowerSelect_tightens c s
  | .update u => lowerUpdate_tightens c u
  | .delete d => lowerDelete_tightens c d

/-- A refusal of parameters without a type rejects statements and changes none: what it lets through is
lowered as without it, over slots that all have a type, and it lets through whatever is lowered so
without it. A statement lowered over a slot without a type is refused for a parameter. -/
theorem strict_typing_only_rejects (model : Model) (expansions : OccurrenceId → List Occurrence)
    (s : Statement) (w : Workspace) :
    (∀ l w', lowerStatement model true expansions s w = .ok l w' →
      lowerStatement model false expansions s w = .ok l w' ∧ l.ledger.Typed) ∧
    ∀ l w', lowerStatement model false expansions s w = .ok l w' →
      (l.ledger.Typed → lowerStatement model true expansions s w = .ok l w') ∧
      (¬l.ledger.Typed →
        ∃ key w'', lowerStatement model true expansions s w = .error (.untypedParameter key) w'') := by
  have outcome : Tightened id ⟨w, .empty⟩ (lowerParts ⟨model, .empty, expansions, true⟩ s ⟨w, .empty⟩)
      (lowerParts ⟨model, .empty, expansions, false⟩ s ⟨w, .empty⟩) :=
    lowerParts_tightens ⟨model, .empty, expansions, false⟩ s ⟨w, .empty⟩
  have start : Ledger.empty.Typed := by decide
  simp only [lowerStatement]
  generalize lowerParts ⟨model, .empty, expansions, true⟩ s ⟨w, .empty⟩ = strict at outcome ⊢
  generalize lowerParts ⟨model, .empty, expansions, false⟩ s ⟨w, .empty⟩ = lax at outcome ⊢
  cases outcome with
  | kept typed =>
    have full := typed.mpr start
    constructor
    · intro l w' run
      cases run
      exact ⟨rfl, full⟩
    · intro l w' run
      cases run
      exact ⟨fun _ => rfl, fun missing => absurd full missing⟩
  | failed =>
    constructor
    · intro l w' run
      contradiction
    · intro l w' run
      contradiction
  | @refused key p' _ untyped =>
    constructor
    · intro l w' run
      contradiction
    · intro l w' run
      cases lax with
      | ok parts q =>
        cases run
        have missing := untyped parts q rfl
        exact ⟨fun full => absurd full missing, fun _ => ⟨key, p'.work, rfl⟩⟩
      | error e q => contradiction

/-! A restriction of people by age gives its parameter a type; two parameters that are compared with each
other have none. -/
namespace Refused
open SemanticQuery.Lowering.Joined (person age)

def least : Occurrence := ⟨0, ⟨.named "least", none, false⟩, none, none⟩

def most : Occurrence := ⟨1, ⟨.named "most", none, false⟩, none, none⟩

def limited : Statement :=
  .delete ⟨⟨"Person", person⟩, some (.comparison (.parameter 0 least) .less (.path 1 age))⟩

def undetermined : Statement :=
  .delete ⟨⟨"Person", person⟩, some (.and [.comparison (.parameter 0 least) .less (.path 1 age),
    .comparison (.parameter 2 least) .less (.parameter 3 most)])⟩

theorem only_undetermined_is_refused :
    (∃ l w, lowerStatement Model.Sample.model true (fun _ => []) limited .empty = .ok l w ∧
      lowerStatement Model.Sample.model false (fun _ => []) limited .empty = .ok l w ∧ l.ledger.Typed) ∧
    ∃ l w key w',
      lowerStatement Model.Sample.model false (fun _ => []) undetermined .empty = .ok l w ∧
        ¬l.ledger.Typed ∧
        lowerStatement Model.Sample.model true (fun _ => []) undetermined .empty =
          .error (.untypedParameter key) w' := by
  have accepted : lowerStatement Model.Sample.model true (fun _ => []) limited .empty = .ok _ _ := rfl
  have lowered : lowerStatement Model.Sample.model false (fun _ => []) undetermined .empty = .ok _ _ := rfl
  have missing : ¬Ledger.Typed ⟨[(0, [⟨0, some .integer⟩]), (0, [⟨1, none⟩]), (1, [⟨2, none⟩])], 3⟩ :=
    by decide
  obtain ⟨key, w', refused⟩ := ((strict_typing_only_rejects _ _ _ _).2 _ _ lowered).2 missing
  exact ⟨⟨_, _, accepted, (strict_typing_only_rejects _ _ _ _).1 _ _ accepted⟩,
    _, _, key, w', lowered, missing, refused⟩

end Refused

end SemanticQuery.Lowering
