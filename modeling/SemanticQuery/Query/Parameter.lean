import SemanticQuery.Digits
import SemanticQuery.ExprType
/-!
Query parameters and their occurrences. A parameter is what a caller binds; each place it is written
at is an occurrence of its own. An expansion is an occurrence added for one more value of a
parameter bound to several, and names the occurrence it expands.
-/
namespace SemanticQuery.Query

inductive ParameterKey where
  | named (name : String)
  | positional (position : Nat)
  deriving DecidableEq

namespace ParameterKey

def text : ParameterKey → String
  | named name => ":" ++ name
  | positional position => "?" ++ toString position

/-- A colon leads a name and a question mark a position. -/
def ofText? (s : String) : Option ParameterKey :=
  match s.toList with
  | ':' :: name => some (named (String.ofList name))
  | '?' :: digits => (ofDigits? 10 digits).map positional
  | _ => none

/-- Named keys go before positional ones. -/
def order : ParameterKey → ParameterKey → Ordering
  | named a, named b => compare a b
  | named _, positional _ => .lt
  | positional _, named _ => .gt
  | positional a, positional b => compare a b

theorem order_swap : (a b : ParameterKey) → order a b = (order b a).swap
  | named a, named b => @Std.OrientedCmp.eq_swap String compare _ a b
  | named _, positional _ | positional _, named _ => rfl
  | positional a, positional b => @Std.OrientedCmp.eq_swap Nat compare _ a b

theorem order_trans : (a b c : ParameterKey) → (order a b).isLE → (order b c).isLE →
    (order a c).isLE
  | named a, named b, named c => @Std.TransCmp.isLE_trans String compare _ a b c
  | positional a, positional b, positional c => @Std.TransCmp.isLE_trans Nat compare _ a b c
  | named _, _, positional _ => fun _ _ => rfl
  | named _, positional _, named _ => fun _ h => absurd h Bool.noConfusion
  | positional _, named _, _ => fun h _ => absurd h Bool.noConfusion
  | positional _, positional _, named _ => fun _ h => absurd h Bool.noConfusion

theorem eq_of_order : (a b : ParameterKey) → order a b = .eq → a = b
  | named a, named b, h => congrArg _ (@Std.LawfulEqCmp.eq_of_compare String compare _ a b h)
  | positional a, positional b, h =>
    congrArg _ (@Std.LawfulEqCmp.eq_of_compare Nat compare _ a b h)

theorem order_self : (a : ParameterKey) → order a a = .eq
  | named a => @Std.ReflCmp.compare_self String compare _ a
  | positional a => @Std.ReflCmp.compare_self Nat compare _ a

instance : Ord ParameterKey := ⟨order⟩

instance : Std.TransOrd ParameterKey where
  eq_swap {a b} := order_swap a b
  isLE_trans {a b c} := order_trans a b c

instance : Std.LawfulEqOrd ParameterKey where
  compare_self {a} := order_self a
  eq_of_compare {a b} h := eq_of_order a b h

end ParameterKey

structure Parameter where
  key : ParameterKey
  declared : Option ExprType
  multiValued : Bool

/-- Identities have 32 bits. -/
abbrev OccurrenceId := UInt32

def occurrenceText (id : OccurrenceId) : String := "#" ++ toString id

structure Occurrence where
  id : OccurrenceId
  parameter : Parameter
  anticipated : Option ExprType
  expands : Option OccurrenceId

namespace Occurrence

def key (o : Occurrence) : ParameterKey := o.parameter.key

/-- The type anticipated for the occurrence, else the parameter's declared type. -/
def type? (o : Occurrence) : Option ExprType := o.anticipated.or o.parameter.declared

end Occurrence

end SemanticQuery.Query
