import SemanticQuery.Binding.Occurrences
/-!
The values bound to a statement's parameters. Every parameter starts unbound; only one declared
multi-valued takes several values.
-/
namespace SemanticQuery.Binding
open Query

inductive Bound where
  | unbound
  | single (value : Value)
  | multi (values : List Value)

/-- A value with the type it is to be bound by, where the caller gave one. -/
structure ParameterBinding where
  parameter : Parameter
  value : Bound
  type : Option ExprType

namespace ParameterBinding

def isBound (b : ParameterBinding) : Bool :=
  match b.value with
  | .unbound => false
  | .single _ | .multi _ => true

def isMulti (b : ParameterBinding) : Bool :=
  match b.value with
  | .multi _ => true
  | .unbound | .single _ => false

/-- The first value that is not null. -/
def representative? (b : ParameterBinding) : Option Value :=
  match b.value with
  | .unbound => none
  | .single v => if v.isNull then none else some v
  | .multi vs => vs.find? fun v => !v.isNull

end ParameterBinding

structure Store where
  bindings : KeyedList ParameterKey ParameterBinding

namespace Store

/-- One unbound parameter for each in the table. -/
def ofTable (t : OccurrenceTable) : Store :=
  ⟨t.parameters.mapValues fun e => ⟨e.parameter, .unbound, none⟩⟩

def find? (s : Store) (key : ParameterKey) : Option ParameterBinding := s.bindings.find? key

def known (s : Store) (key : ParameterKey) : Except BindingError ParameterBinding :=
  match s.find? key with
  | some b => .ok b
  | none => .error (.unknownParameter key.text)

def put (s : Store) (key : ParameterKey) (b : ParameterBinding) : Store :=
  ⟨s.bindings.insert key b⟩

/-- Keeps a type given before. -/
def bind (s : Store) (key : ParameterKey) (v : Value) : Except BindingError Store := do
  let b ← s.known key
  return s.put key { b with value := .single v }

def bindTyped (s : Store) (key : ParameterKey) (v : Value) (type : ExprType) :
    Except BindingError Store := do
  let b ← s.known key
  return s.put key { b with value := .single v, type := some type }

/-- Keeps a type given before. -/
def bindMulti (s : Store) (key : ParameterKey) (vs : List Value) : Except BindingError Store := do
  let b ← s.known key
  if b.parameter.multiValued then return s.put key { b with value := .multi vs }
  else throw (.multiValuedNotAllowed key.text)

def unbind (s : Store) (key : ParameterKey) : Except BindingError Store := do
  let b ← s.known key
  return s.put key { b with value := .unbound, type := none }

end Store

end SemanticQuery.Binding
