import SemanticQuery.Binding.Occurrences
import SemanticQuery.Sql.Expr
/-!
The slot index: for each parameter and occurrence, the slot groups of the occurrence and of its
expansions. Expansions are filed by position, so an index survives expansion to the same width.
-/
namespace SemanticQuery.Binding
open Query

structure OccurrenceSlots where
  groups : List (List Slot)
  expansions : List (List (List Slot))
  deriving DecidableEq

def OccurrenceSlots.slots (s : OccurrenceSlots) : List Slot :=
  (s.groups ++ s.expansions.flatten).flatten

structure SlotIndex where
  parameters : KeyedList ParameterKey (KeyedList OccurrenceId OccurrenceSlots)

namespace SlotIndex

def empty : SlotIndex := ⟨.empty⟩

def isEmpty (x : SlotIndex) : Bool := x.parameters.isEmpty

def keys (x : SlotIndex) : List ParameterKey := x.parameters.keys

def occurrence? (x : SlotIndex) (key : ParameterKey) (id : OccurrenceId) : Option OccurrenceSlots :=
  (x.parameters.find? key).bind fun occurrences => occurrences.find? id

def groups? (x : SlotIndex) (key : ParameterKey) (id : OccurrenceId) : Option (List (List Slot)) :=
  (x.occurrence? key id).map OccurrenceSlots.groups

def expansionGroups? (x : SlotIndex) (key : ParameterKey) (id : OccurrenceId) (position : Nat) :
    Option (List (List Slot)) :=
  (x.occurrence? key id).bind fun s => s.expansions[position]?

def expansionCount (x : SlotIndex) (key : ParameterKey) (id : OccurrenceId) : Nat :=
  match x.occurrence? key id with
  | some s => s.expansions.length
  | none => 0

/-- Every slot number filed under a key, by occurrence and then in column order. -/
def slotsFor (x : SlotIndex) (key : ParameterKey) : List Nat :=
  match x.parameters.find? key with
  | some occurrences => (occurrences.values.flatMap OccurrenceSlots.slots).map Slot.number
  | none => []

def add (x : SlotIndex) (key : ParameterKey) (id : OccurrenceId) (s : OccurrenceSlots) : SlotIndex :=
  ⟨x.parameters.alter key fun known => (known.getD .empty).insert id s⟩

abbrev Lookup := OccurrenceId → Option (List (List Slot))

def groupsOf (lookup : Lookup) (key : ParameterKey) (id : OccurrenceId) :
    Except BindingError (List (List Slot)) :=
  match lookup id with
  | some groups => .ok groups
  | none => .error (.missingSlots key.text id)

def groupsOfAll (lookup : Lookup) (key : ParameterKey) :
    List Occurrence → Except BindingError (List (List (List Slot)))
  | [] => .ok []
  | o :: rest => do
    let first ← groupsOf lookup key o.id
    let later ← groupsOfAll lookup key rest
    return first :: later

def addOccurrences (t : OccurrenceTable) (lookup : Lookup) (key : ParameterKey) :
    List Occurrence → SlotIndex → Except BindingError SlotIndex
  | [], x => .ok x
  | o :: rest, x => do
    let groups ← groupsOf lookup key o.id
    let expansions ← groupsOfAll lookup key (t.expansions o.id)
    addOccurrences t lookup key rest (x.add key o.id ⟨groups, expansions⟩)

def addEntries (t : OccurrenceTable) (lookup : Lookup) :
    List ParameterEntry → SlotIndex → Except BindingError SlotIndex
  | [], x => .ok x
  | e :: rest, x => do
    let x ← addOccurrences t lookup e.parameter.key e.occurrences x
    addEntries t lookup rest x

/-- Indexes the slots of every occurrence and expansion in the table. -/
def build (t : OccurrenceTable) (lookup : Lookup) : Except BindingError SlotIndex :=
  addEntries t lookup t.entries empty

end SlotIndex

end SemanticQuery.Binding
