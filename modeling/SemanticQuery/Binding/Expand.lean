import SemanticQuery.Binding.Store
import SemanticQuery.Query.Builder
/-!
Expansion of multi-valued parameters: an occurrence of a parameter bound to several values gets an
expansion for each value after the first. Expansions made before are dropped, also when it fails.
-/
namespace SemanticQuery.Binding
open Query

/-- That many expansions of one occurrence. -/
def makeExpansions (o : Occurrence) : Nat → EStateM BindingError Builder (List Occurrence)
  | 0 => pure []
  | n + 1 => do
    let (first, b) := (← get).expansionOf o
    set b
    let later ← makeExpansions o n
    return first :: later

def expandOccurrences (count : Nat) : List Occurrence → EStateM BindingError Builder (List Occurrence)
  | [] => pure []
  | o :: rest => do
    let first ← makeExpansions o count
    let later ← expandOccurrences count rest
    return first ++ later

/-- The expansions that a parameter's occurrences need for the values it is bound to. -/
def expandEntry (store : Store) (e : ParameterEntry) : EStateM BindingError Builder (List Occurrence) :=
  match (store.find? e.parameter.key).map ParameterBinding.value with
  | some (.multi []) => throw (.emptyMultiValued e.parameter.key.text)
  | some (.multi (_ :: later)) => expandOccurrences later.length e.occurrences
  | some .unbound | some (.single _) | none => pure []

def expandEntries (store : Store) : List ParameterEntry → EStateM BindingError Builder (List Occurrence)
  | [] => pure []
  | e :: rest => do
    let first ← expandEntry store e
    let later ← expandEntries store rest
    return first ++ later

def registerAll (t : OccurrenceTable) : List Occurrence → Except BindingError OccurrenceTable
  | [] => .ok t
  | o :: rest => do
    let t ← t.register o
    registerAll t rest

/-- A table being expanded, with the builder that makes the expansions. -/
structure Expanding where
  table : OccurrenceTable
  builder : Builder

def expandMultiValued (store : Store) : EStateM BindingError Expanding Unit := fun s =>
  let cleared := s.table.clear
  match expandEntries store cleared.entries s.builder with
  | .error e b => .error e ⟨cleared, b⟩
  | .ok made b =>
    match registerAll cleared made with
    | .ok t => .ok () ⟨t, b⟩
    | .error e => .error e ⟨cleared, b⟩

end SemanticQuery.Binding
