import SemanticQuery.Proofs.Query.Typing

/-! Answers to what functions ask. Where each place among arguments has one answer, an inquiry comes to one
result; the types of the arguments, all of them or all but one, come to the types they have by themselves. -/
namespace SemanticQuery

theorem Inquiry.result_bind {Q A α β : Type} (answers : Q → A) (x : Inquiry Q A α)
    (f : α → Inquiry Q A β) :
    (x >>= f).result answers = (f (x.result answers)).result answers := by
  induction x with
  | done result => rfl
  | ask question next ih => exact ih (answers question)

namespace Query

theorem Resolution.result_bind {α β : Type} (answers : Place → TypeAnswer) (x : Resolution α)
    (f : α → Resolution β) :
    (x >>= f).run.result answers = x.run.result answers >>= fun a => (f a).run.result answers := by
  rw [ExceptT.run_bind, Inquiry.result_bind]
  cases x.run.result answers <;> rfl

namespace Expr

theorem ownTypeAmong_single {es : List Expr} {index : Nat} {e : Expr} (found : es[index]? = some e) :
    ownTypeAmong es [index] = e.ownType := by
  induction es generalizing index with
  | nil => contradiction
  | cons first rest ih =>
    cases index with
    | zero =>
      cases found
      rw [ownTypeAmong, ownType]
    | succ index =>
      rw [ownTypeAmong]
      exact ih found

/-- Asks for the types of some expressions one after the other. -/
def typesOf : List Expr → TypingM (List (Option ExprType))
  | [] => pure []
  | e :: rest => do
    let first ← e.type
    let later ← typesOf rest
    return first :: later

def ownTypes : List Expr → Except FunctionError (List (Option ExprType))
  | [] => .ok []
  | e :: rest => do
    let first ← e.ownType
    let later ← ownTypes rest
    return first :: later

theorem typesOf_typed {N : List Expr} {es : List Expr} (members : ∀ d ∈ nodesOf es, d ∈ N) :
    Typed N (typesOf es) (ownTypes es) := by
  induction es with
  | nil => exact .pure []
  | cons e rest ih =>
    rw [nodesOf, List.forall_mem_append] at members
    exact (e.type_typed members.1).bind fun _ _ => (ih members.2).bind fun _ _ => .pure _

end Expr

/-- The type of an expression where an error only means that there is none. -/
def quietType (e : Expr) : Option ExprType :=
  match e.ownType with
  | .ok type => type
  | .error _ => none

theorem quietTypes_of_ownTypes {es : List Expr} {types : List (Option ExprType)}
    (own : Expr.ownTypes es = .ok types) : es.map quietType = types := by
  induction es generalizing types with
  | nil =>
    cases own
    rfl
  | cons e rest ih =>
    obtain ⟨first, typed, own⟩ := bind_ok.mp own
    obtain ⟨later, typedLater, made⟩ := bind_ok.mp own
    cases made
    rw [List.map_cons, ih typedLater, quietType, typed]

/-- Arguments answer for themselves from some position on. -/
def AnswersFrom (answers : Place → TypeAnswer) (index : Nat) (es : List Expr) : Prop :=
  ∀ {i : Nat} {e : Expr}, es[i]? = some e → answers [index + i] = e.ownType

theorem AnswersFrom.own (es : List Expr) : AnswersFrom (Expr.ownTypeAmong es) 0 es := by
  intro i e found
  rw [Nat.zero_add, Expr.ownTypeAmong_single found]

variable {answers : Place → TypeAnswer}

theorem AnswersFrom.cons {index : Nat} {e : Expr} {rest : List Expr}
    (own : AnswersFrom answers index (e :: rest)) :
    answers [index] = e.ownType ∧ AnswersFrom answers (index + 1) rest := by
  constructor
  · exact @own 0 e rfl
  · intro i d found
    rw [Nat.add_assoc, Nat.add_comm 1]
    exact @own (i + 1) d found

theorem askTypes_result {es : List Expr} {index : Nat} (own : AnswersFrom answers index es) :
    (askTypes index (Expr.seenAll es)).run.result answers = Expr.ownTypes es := by
  induction es generalizing index with
  | nil => rfl
  | cons e rest ih =>
    obtain ⟨first, later⟩ := own.cons
    rw [Expr.seenAll, askTypes, Resolution.result_bind, Expr.ownTypes]
    change (answers [index] >>= _) = _
    rw [first]
    refine congrArg _ (funext fun type => ?_)
    rw [Resolution.result_bind, ih later]
    rfl

theorem askType?_own {e : Expr} {place : Place} (own : answers place = e.ownType) :
    (askType? place).result answers = quietType e := by
  rw [askType?, Inquiry.result, own, quietType]
  cases e.ownType <;> rfl

/-- Behind the argument that is left out, all others are asked. -/
theorem askTypesBut_result_behind {es : List Expr} {skipped index : Nat} (behind : skipped < index)
    (own : AnswersFrom answers index es) :
    (askTypesBut skipped index (Expr.seenAll es)).result answers = es.map quietType := by
  induction es generalizing index with
  | nil => rfl
  | cons e rest ih =>
    obtain ⟨first, later⟩ := own.cons
    rw [Expr.seenAll, askTypesBut, if_neg (Nat.ne_of_gt behind), Inquiry.result_bind, Inquiry.result_bind,
      askType?_own first, ih (Nat.lt_succ_of_lt behind) later, List.map_cons]
    rfl

theorem askTypesBut_result {es : List Expr} {index skipped : Nat} (own : AnswersFrom answers index es) :
    (askTypesBut (index + skipped) index (Expr.seenAll es)).result answers =
      (es.map quietType).eraseIdx skipped := by
  induction es generalizing index skipped with
  | nil => rfl
  | cons e rest ih =>
    obtain ⟨first, later⟩ := own.cons
    cases skipped with
    | zero =>
      rw [Expr.seenAll, askTypesBut, Nat.add_zero, if_pos rfl]
      exact askTypesBut_result_behind (Nat.lt_succ_self index) later
    | succ skipped =>
      have other : index ≠ index + (skipped + 1) := by omega
      have ahead := @ih (index + 1) skipped later
      rw [Nat.add_right_comm] at ahead
      rw [Expr.seenAll, askTypesBut, if_neg other, Inquiry.result_bind, Inquiry.result_bind,
        askType?_own first, ← Nat.add_assoc, ahead, List.map_cons, List.eraseIdx_cons_succ]
      rfl

end Query

end SemanticQuery
