/-!
Inquiries: computations that ask. An inquiry is done with a result, or asks a question and goes on from the
answer. Who is asked, and what else it takes to answer, is left to those who run it.
-/
namespace SemanticQuery

inductive Inquiry (Q A α : Type) where
  | done (result : α)
  | ask (question : Q) (next : A → Inquiry Q A α)

namespace Inquiry
variable {Q A α β : Type}

def bind : Inquiry Q A α → (α → Inquiry Q A β) → Inquiry Q A β
  | done result, f => f result
  | ask question next, f => ask question fun answer => (next answer).bind f

instance : Monad (Inquiry Q A) where
  pure := done
  bind := bind

/-- The result where answering a question changes nothing. -/
def result (answers : Q → A) : Inquiry Q A α → α
  | done result => result
  | ask question next => (next (answers question)).result answers

/-- Runs an inquiry with each question answered when it is asked. -/
def run {m : Type → Type} [Monad m] (answers : Q → m A) : Inquiry Q A α → m α
  | done result => pure result
  | ask question next => do
    let answer ← answers question
    (next answer).run answers

/-- What holds of being done, and of going on from any answer, holds of every run. -/
theorem run_holds {m : Type → Type} [Monad m] {answers : Q → m A} {P : m α → Prop}
    (done : ∀ result, P (Pure.pure result))
    (ask : ∀ question (next : A → m α), (∀ answer, P (next answer)) → P (answers question >>= next))
    (x : Inquiry Q A α) : P (x.run answers) := by
  induction x with
  | done result => exact done result
  | ask question next ih => exact ask question _ ih

end Inquiry

end SemanticQuery
