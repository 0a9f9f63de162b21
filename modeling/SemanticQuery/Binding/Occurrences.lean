import SemanticQuery.Binding.Error
import SemanticQuery.Query.Statement
/-!
The occurrence table of a statement: the parameters by key with their occurrences in tree order, and
the expansions by the occurrence they expand.
-/
namespace SemanticQuery.Binding
open Query

structure ParameterEntry where
  parameter : Parameter
  occurrences : List Occurrence

structure OccurrenceTable where
  parameters : KeyedList ParameterKey ParameterEntry
  expanded : KeyedList OccurrenceId (List Occurrence)

/-- The occurrences whose identity is neither among those seen nor earlier in the list. -/
def firstVisits (seen : List OccurrenceId) : List Occurrence → List Occurrence
  | [] => []
  | o :: rest =>
    if seen.contains o.id then firstVisits seen rest else o :: firstVisits (o.id :: seen) rest

namespace OccurrenceTable

def empty : OccurrenceTable := ⟨.empty, .empty⟩

def addExpansion (t : OccurrenceTable) (expanded : OccurrenceId) (o : Occurrence) : OccurrenceTable :=
  { t with expanded := t.expanded.alter expanded fun known => known.getD [] ++ [o] }

def addOccurrence (t : OccurrenceTable) (o : Occurrence) : OccurrenceTable :=
  { t with
    parameters := t.parameters.alter o.key fun
      | some entry => { entry with occurrences := entry.occurrences ++ [o] }
      | none => ⟨o.parameter, [o]⟩ }

/-- An expansion found in the statement is filed under the occurrence it names, whatever that is. -/
def record (t : OccurrenceTable) (o : Occurrence) : OccurrenceTable :=
  match o.expands with
  | some expanded => t.addExpansion expanded o
  | none => t.addOccurrence o

/-- Every occurrence in the statement, once however many places share it. -/
def ofStatement (s : Statement) : OccurrenceTable :=
  (firstVisits [] s.parameters).foldl record empty

def isEmpty (t : OccurrenceTable) : Bool := t.parameters.isEmpty

def entries (t : OccurrenceTable) : List ParameterEntry := t.parameters.values

def entry? (t : OccurrenceTable) (key : ParameterKey) : Option ParameterEntry :=
  t.parameters.find? key

/-- The expansions of an occurrence in the order they were made. -/
def expansions (t : OccurrenceTable) (id : OccurrenceId) : List Occurrence :=
  (t.expanded.find? id).getD []

/-- All occurrences, expansions among them. -/
def occurrenceCount (t : OccurrenceTable) : Nat :=
  (t.entries.flatMap ParameterEntry.occurrences).length + t.expanded.values.flatten.length

/-- An expansion must belong to an occurrence recorded for its own parameter. -/
def register (t : OccurrenceTable) (o : Occurrence) : Except BindingError OccurrenceTable :=
  match o.expands with
  | none => .error (.foreignExpansion o.id o.key.text)
  | some expanded =>
    if (t.entry? o.key).any fun e => e.occurrences.any fun known => known.id == expanded then
      .ok (t.addExpansion expanded o)
    else .error (.foreignExpansion o.id o.key.text)

def clear (t : OccurrenceTable) : OccurrenceTable := { t with expanded := .empty }

end OccurrenceTable

end SemanticQuery.Binding
