import SemanticQuery.Binding.Build
import SemanticQuery.Binding.Expand
import SemanticQuery.Fingerprint.Encoding
/-! Requests: a statement with the occurrences of its parameters and the values bound to them. -/
namespace SemanticQuery
open Query Binding

structure Request where
  statement : Statement
  table : OccurrenceTable
  store : Store

namespace Request

/-- Every parameter starts unbound. -/
def ofStatement (s : Statement) : Request :=
  let table := OccurrenceTable.ofStatement s
  ⟨s, table, .ofTable table⟩

/-- A selection of nothing. -/
def empty : Request := ofStatement (.select ⟨[], [], [], none⟩)

def fingerprint (r : Request) : String := Fingerprint.fingerprint r.statement r.table

def bind (r : Request) (key : ParameterKey) (v : Value) : Except BindingError Request := do
  return { r with store := ← r.store.bind key v }

def bindTyped (r : Request) (key : ParameterKey) (v : Value) (type : ExprType) :
    Except BindingError Request := do
  return { r with store := ← r.store.bindTyped key v type }

def bindMulti (r : Request) (key : ParameterKey) (vs : List Value) : Except BindingError Request := do
  return { r with store := ← r.store.bindMulti key vs }

def unbind (r : Request) (key : ParameterKey) : Except BindingError Request := do
  return { r with store := ← r.store.unbind key }

def register (r : Request) (o : Occurrence) : Except BindingError Request := do
  return { r with table := ← r.table.register o }

def clearExpansions (r : Request) : Request := { r with table := r.table.clear }

/-- The type that each occurrence of a parameter is bound by. -/
def bindTypes (r : Request) (key : ParameterKey) (catalog : Catalog) : List (Option ExprType) :=
  match r.store.find? key, r.table.entry? key with
  | some b, some e => e.occurrences.map fun o => bindType b o catalog
  | _, _ => []

end Request

end SemanticQuery
