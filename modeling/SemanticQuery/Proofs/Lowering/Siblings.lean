import SemanticQuery.Proofs.Lowering.Opposite
import SemanticQuery.Proofs.Lowering.Reached
import SemanticQuery.Proofs.Lowering.Settled
import SemanticQuery.Proofs.Lowering.SideBySide
import SemanticQuery.Proofs.Precedence
import SemanticQuery.Proofs.Query.Answers

/-! Arguments without a type beside arguments that have one. A call that is typed by what takes precedence
among its arguments is typed from all of them, an argument from the others. What has no type is passed over
wherever it stands, so that an argument without a type is taken for what the call is. -/
namespace SemanticQuery.Lowering
open Query

section
variable {N : List Expr}

/-- Among arguments that all resolve, one without a type is taken for what takes precedence among them all. -/
theorem argumentMapping_of_untyped (c : Scope) {f : Callee} (takes : f.arguments = some .others)
    (implied : Option ExprType) {arguments : List Expr} {types : List (Option ExprType)}
    (own : Expr.ownTypes arguments = .ok types) {index : Nat} (untyped : types[index]? = some none) :
    argumentMapping c f implied arguments index = (highestType types).bind c.mapping? := by
  have others := @askTypesBut_result (Expr.ownTypeAmong arguments) arguments 0 index
    (AnswersFrom.own arguments)
  rw [Nat.zero_add, quietTypes_of_ownTypes own] at others
  simp only [argumentMapping, takes, ArgumentRule.others, Inquiry.result_bind, others]
  rw [highestType, highestPrecedence_eraseIdx untyped]
  rfl

/-- Steps that only ask for types keep those that are there right. -/
theorem Queries.sound {α : Type} {nodes : List Expr} {m : LowerM α} {p p' : Progress} {a : α}
    (queries : Queries N nodes m) (ran : m p = .ok a p') (sound : p.work.Sound N) : p'.work.Sound N := by
  have asking := queries p
  rw [ran] at asking
  cases asking with
  | ok asked _ => exact asked.sound (List.Subset.refl N) sound

/-- Every argument is lowered, under the hint for its place. -/
theorem lowerArguments_each {c : Scope} {function : Callee} {implied : Option ExprType}
    {all es : List Expr} {index : Nat} {p p' : Progress} {lowered : List Sql.Expr} (sound : p.work.Sound N)
    (whole : ∀ d ∈ Expr.nodesOf all, d ∈ N) (members : ∀ e ∈ es, ∀ d ∈ e.nodes, d ∈ N)
    (ran : lowerArguments c function implied all index es p = .ok lowered p') {i : Nat} {e : Expr}
    (argument : es[i]? = some e) :
    ∃ x q q', lowered[i]? = some x ∧ q.work.Sound N ∧
      lowerExpr c (argumentHint c function implied all (index + i)) e q = .ok x q' ∧ q'.KeepsGroups p' := by
  induction es generalizing index p lowered i with
  | nil => contradiction
  | cons first rest ih =>
    rw [List.forall_mem_cons] at members
    rw [lowerArguments] at ran
    obtain ⟨x, q, ranFirst, ran⟩ := run_bind_ok.mp ran
    obtain ⟨later, q', ranLater, made⟩ := run_bind_ok.mp ran
    cases made
    cases i with
    | zero =>
      cases argument
      have kept := (lowerArguments_lowers c function implied all (index + 1) rest).keepsGroups ranLater
      exact ⟨x, p, q, rfl, sound, ranFirst, kept⟩
    | succ i =>
      have hint := argumentHint_queries sound.apart c function implied whole index
      have queries := lowerExpr_queries sound.apart c hint first members.1
      obtain ⟨y, r, r', place, soundLater, ran, kept⟩ :=
        ih (queries.sound ranFirst sound) members.2 ranLater argument
      exact ⟨y, r, r', place, soundLater, Nat.succ_add_eq_add_succ index i ▸ ran, kept⟩

end

/-- A call that is typed by its arguments has the mapping of its type. -/
theorem callMapping_of_highest {c : Scope} {f : Callee} (returns : f.returns = .highest)
    {type : ExprType} {arguments : List Sql.Expr} {p p' : Progress} {m : Option Mapping}
    (ran : callMapping c f (some type) arguments p = .ok m p') : m = c.mapping? type := by
  rw [callMapping, Option.bind_some] at ran
  cases own : type.ownMapping? with
  | some found =>
    rw [own] at ran
    cases ran
    cases type with
    | basic | mapped =>
      cases own
      rfl
    | path | domain => contradiction
  | none =>
    rw [own] at ran
    simp only [returns, ReturnRule.highest, Inquiry.run, bind_pure, resultMapping] at ran
    cases looked : c.mapping type with
    | ok found =>
      rw [looked] at ran
      cases ran
      rw [Scope.mapping?_of_ok looked]
    | error e =>
      rw [looked] at ran
      cases ran
      rw [Scope.mapping?_of_error looked]

section
variable {N : List Expr} {node : NodeId} {f : Callee} {arguments : List Expr}
  {implied : Option ExprType} {notes : Notes} {types : List (Option ExprType)} {type : ExprType}

theorem ownType_of_highest (returns : f.returns = .highest) (own : Expr.ownTypes arguments = .ok types)
    (highest : highestType types = some type) :
    (Expr.call node f arguments implied notes).ownType = .ok (some type) := by
  rw [Expr.ownType, Expr.ownTypeWithin, returns]
  simp only [ReturnRule.highest, Resolution.result_bind, askTypes_result (AnswersFrom.own arguments), own]
  change Except.ok ((highestType types).or implied) = _
  rw [highest, Option.some_or]

/-- An untyped parameter of such a call has slots for the mapping of the call. -/
theorem lowerParameter_of_untyped {c : Scope} {h : Hint} {o : Occurrence} {m : Option Mapping}
    {p p' last : Progress} {e : Sql.Expr} (untyped : o.type? = none) (hinted : (h p.work).1 = m)
    (ran : lowerParameter c h o p = .ok e p') (kept : p'.KeepsGroups last) :
    HasSlots last.ledger (slotTypes m) o e := by
  obtain ⟨mapping, chosen, allotted⟩ := lowerParameter_ok ran
  have unmapped : Unmapped c.model c.source o := by
    intro type typed
    rw [untyped] at typed
    contradiction
  rw [chosenMapping_of_unmapped unmapped, hinted] at chosen
  cases chosen
  exact allotted.hasSlots kept

/-- What lowering comes to for a call of a type: the call with the type and its mapping, and in it, for each
untyped parameter among the arguments, slots for the columns of that same mapping. -/
def TakesType (c : Scope) (f : Callee) (arguments : List Expr) (type : ExprType) (ledger : Ledger)
    (lowered : Sql.Expr) : Prop :=
  ∃ es, lowered = .call f.name f.style es (some type) (c.mapping? type) ∧
    ∀ {i : Nat} {n : NodeId} {o : Occurrence}, arguments[i]? = some (.parameter n o) → o.type? = none →
      ∃ slots, es[i]? = some slots ∧ HasSlots ledger (slotTypes (c.mapping? type)) o slots

/-- The types that are asked for on the way are the own ones, in whatever workspace that keeps no other. -/
theorem argumentHint_of_untyped (own : Expr.ownTypes arguments = .ok types)
    (highest : highestType types = some type) (takes : f.arguments = some .others)
    (whole : ∀ d ∈ Expr.nodesOf arguments, d ∈ N) (c : Scope) {i : Nat} (untyped : types[i]? = some none)
    {w : Workspace} (sound : w.Sound N) :
    (argumentHint c f implied arguments i w).1 = c.mapping? type := by
  obtain ⟨_, -, ran⟩ := argumentHint_hints c f implied whole i sound
  rw [ran, argumentMapping_of_untyped c takes implied own untyped, highest]
  rfl

theorem takesType_of_lowered (own : Expr.ownTypes arguments = .ok types)
    (highest : highestType types = some type) (returns : f.returns = .highest)
    (takes : f.arguments = some .others)
    (members : ∀ d ∈ (Expr.call node f arguments implied notes).nodes, d ∈ N)
    {c : Scope} {h : Hint} {x : Sql.Expr} {p q : Progress} (sound : p.work.Sound N)
    (ran : lowerExpr c h (.call node f arguments implied notes) p = .ok x q) :
    TakesType c f arguments type q.ledger x := by
  have whole : ∀ d ∈ Expr.nodesOf arguments, d ∈ N := fun d mem => members d (List.mem_cons_of_mem _ mem)
  rw [lowerExpr] at ran
  obtain ⟨found, p₁, asking, ran⟩ := run_bind_ok.mp ran
  obtain ⟨es, p₂, lowering, ran⟩ := run_bind_ok.mp ran
  obtain ⟨_, p₃, checked, ran⟩ := run_bind_ok.mp ran
  obtain ⟨m, p₄, mapped, made⟩ := run_bind_ok.mp ran
  cases made
  have answer := (Expr.type_typed _ members).ended_eq sound
  rw [runTyping_ok asking, ownType_of_highest returns own highest] at answer
  cases answer
  rw [callMapping_of_highest returns mapped]
  refine ⟨es, rfl, fun {i n o} argument untyped => ?_⟩
  have typing := (Expr.type_asks sound.apart _ members).mono members (List.Subset.refl _)
  have soundArguments := (Queries.runTyping typing).sound asking sound
  obtain ⟨slots, r, r', place, soundHere, lowered, kept⟩ :=
    lowerArguments_each soundArguments whole (Expr.forall_mem_nodesOf.mp whole) lowering argument
  rw [Nat.zero_add, lowerExpr] at lowered
  have absent : types[i]? = some none := by
    rw [← quietTypes_of_ownTypes own, List.getElem?_map, argument, Option.map_some, quietType,
      Expr.ownType, Expr.ownTypeWithin, untyped]
  have hinted : (argumentHint c f implied arguments i r.work).1 = c.mapping? type :=
    argumentHint_of_untyped own highest takes whole c absent soundHere
  have later : r'.KeepsGroups q := kept.trans
    (((checkLowered_silent f es).keepsGroups checked).trans
      ((callMapping_silent c f (some type) es).keepsGroups mapped))
  exact ⟨slots, place, lowerParameter_of_untyped untyped hinted lowered later⟩

/-- Arguments without a type take the type of the call. Let a call be typed by what takes precedence among
its arguments and its arguments by the others, let all arguments resolve, and one of them have a type. Then
the call has a type, and whatever is resolved meanwhile, the hint for each argument without a type is the
mapping of that type under the from clause, or nothing where there is none. So wherever the call is lowered,
its untyped parameters get slots of the same types, at whatever places and however many there are. -/
theorem untyped_arguments_take_type_of_call {w : Workspace} (reached : Reached N w)
    (mem : .call node f arguments implied notes ∈ N) (returns : f.returns = .highest)
    (takes : f.arguments = some .others) (resolved : (ended (Expr.typesOf arguments w)).1 = .ok types)
    (typed : ∃ t, some t ∈ types) :
    ∃ type, highestType types = some type ∧ ∀ w', Asked N w w' →
      (ended ((Expr.call node f arguments implied notes).type w')).1 = .ok (some type) ∧
      ∀ c : Scope,
        (∀ i : Nat, types[i]? = some none →
          (argumentHint c f implied arguments i w').1 = c.mapping? type) ∧
        ∀ {h : Hint} {l : Ledger} {x : Sql.Expr} {p : Progress},
          lowerExpr c h (.call node f arguments implied notes) ⟨w', l⟩ = .ok x p →
            TakesType c f arguments type p.ledger x := by
  have consistent := reached.consistent
  have members := consistent.members mem
  have below : ∀ d ∈ Expr.nodesOf arguments, d ∈ N := fun d mem => members d (List.mem_cons_of_mem _ mem)
  have own : Expr.ownTypes arguments = .ok types :=
    ((Expr.typesOf_typed below).ended_eq consistent.sound).symm.trans resolved
  obtain ⟨type, highest⟩ : ∃ type, highestType types = some type := by
    refine Option.ne_none_iff_exists'.mp fun none => ?_
    obtain ⟨t, mem⟩ := typed
    exact absurd (highestPrecedence_eq_none_iff.mp none _ mem) (Option.some_ne_none t)
  refine ⟨type, highest, fun w' asked => ?_⟩
  have sound := asked.sound (List.Subset.refl N) consistent.sound
  have callType := (Expr.type_typed _ members).ended_eq sound
  refine ⟨callType.trans (ownType_of_highest returns own highest), fun c => ⟨?_, ?_⟩⟩
  · intro i untyped
    exact argumentHint_of_untyped own highest takes below c untyped sound
  · intro h l x p ran
    exact takesType_of_lowered own highest returns takes members sound ran

end

/-! The first of two limits and an address, of which only the address has a type. -/
namespace Fallback
open Model.Sample (model people addressPath)

def coalesce : Callee := ⟨⟨"coalesce", .highest, none, some .others, .standard⟩, .empty⟩

def preferred : Occurrence := ⟨0, ⟨.named "preferred", none, false⟩, none, none⟩

def last : Occurrence := ⟨1, ⟨.named "last", none, false⟩, none, none⟩

def arguments : List Expr := [.parameter 0 preferred, .path 1 addressPath, .parameter 2 last]

def first : Expr := .call 3 coalesce arguments none .none

def scope : Scope := ⟨model, ⟨[.entity people "Person" ⟨"person", "p"⟩]⟩, fun _ => [], true⟩

theorem reached : ∃ N, first ∈ N ∧ Reached N ⟨4, .empty, []⟩ := by
  have one : Reached [.parameter 0 preferred] ⟨1, .empty, []⟩ :=
    .made .start (.parameter 0 preferred) rfl rfl (List.nil_subset _)
  have two : Reached [.path 1 addressPath, .parameter 0 preferred] ⟨2, .empty, []⟩ :=
    .made one (.path 1 addressPath) rfl rfl (List.nil_subset _)
  have three : Reached [.parameter 2 last, .path 1 addressPath, .parameter 0 preferred] ⟨3, .empty, []⟩ :=
    .made two (.parameter 2 last) rfl rfl (List.nil_subset _)
  exact ⟨_, List.mem_cons_self, .unchecked three coalesce rfl (by simp [arguments])⟩

/-- Before and after the address, a limit has a slot for each of its columns. -/
theorem limits_are_addresses : ∃ es p,
    lowerExpr scope noHint first ⟨⟨4, .empty, []⟩, .empty⟩ =
        .ok (.call "coalesce" .standard es (some (.path addressPath)) (some Model.Sample.address)) p ∧
      (∃ slots, es[0]? = some slots ∧
        HasSlots p.ledger [some .varchar, some .varchar] preferred slots) ∧
      ∃ slots, es[2]? = some slots ∧ HasSlots p.ledger [some .varchar, some .varchar] last slots := by
  obtain ⟨N, mem, reached⟩ := reached
  have resolved : (ended (Expr.typesOf arguments ⟨4, .empty, []⟩)).1 =
    .ok [none, some (.path addressPath), none] := rfl
  obtain ⟨type, highest, takes⟩ :=
    untyped_arguments_take_type_of_call reached mem rfl rfl resolved ⟨.path addressPath, by simp⟩
  cases highest
  obtain ⟨-, hinted⟩ := takes _ (.refl N _)
  have lowered : lowerExpr scope noHint first ⟨⟨4, .empty, []⟩, .empty⟩ = .ok _ _ := rfl
  obtain ⟨es, call, slots⟩ := (hinted scope).2 lowered
  have before : arguments[0]? = some (.parameter 0 preferred) := rfl
  have after : arguments[2]? = some (.parameter 2 last) := rfl
  exact ⟨es, _, lowered.trans (congrArg (EStateM.Result.ok · _) call), slots before rfl, slots after rfl⟩

end Fallback

end SemanticQuery.Lowering
