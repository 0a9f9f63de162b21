import SemanticQuery.Binding.Plan
import SemanticQuery.Binding.SlotIndex
import SemanticQuery.Binding.Store
import SemanticQuery.Event
import SemanticQuery.Mapping.Decompose
import SemanticQuery.Model.Resolve
import SemanticQuery.Query.Typing
/-!
Building a binding plan: each bound value is decomposed by its type's mapping, and the column values
meet the slots of a group one by one. A null leaves a slot the type it was lowered with.
-/
namespace SemanticQuery.Binding
open Query

/-- The type to bind an occurrence by: the binding's own, else the parameter's declared type, else the
type anticipated for the occurrence, else the standard type of the bound value. -/
def bindType (b : ParameterBinding) (o : Occurrence) (catalog : Catalog) : Option ExprType :=
  match b.type, o.parameter.declared, o.anticipated with
  | some type, _, _ => some type
  | none, some type, _ => some type
  | none, none, some type => some type
  | none, none, none =>
    (b.representative?.bind fun v => catalog.standardType? v.kind).map .basic

/-- What binding looks types and slots up in. -/
structure Context where
  model : Model
  source : Sql.FromClause
  index : SlotIndex
  catalog : Catalog

def liftMapping {α : Type} : Except MappingError α → Except BindingError α
  | .ok a => .ok a
  | .error e => .error (.mapping e)

namespace Context

def mapping (c : Context) : Option ExprType → Except BindingError (Option Mapping)
  | none => .ok none
  | some type => liftMapping (c.model.resolveMapping c.source type)

def groups (c : Context) (key : ParameterKey) (o : Occurrence) :
    Except BindingError (List (List Slot)) :=
  match c.index.groups? key o.id with
  | some groups => .ok groups
  | none => .error (.missingSlots key.text o.id)

def expansionGroups (c : Context) (key : ParameterKey) (o : Occurrence) (position : Nat)
    (expansion : Occurrence) : Except BindingError (List (List Slot)) :=
  match c.index.expansionGroups? key o.id position with
  | some groups => .ok groups
  | none => .error (.missingSlots key.text expansion.id)

end Context

/-- Nulls keep the types their slots have. -/
def bindNulls (p : Plan) (group : List Slot) : Except BindingError Plan :=
  p.addAll (group.map fun slot => (slot.number, ⟨slot.type, .null⟩))

def bindValue (key : ParameterKey) (mapping : Option Mapping) (p : Plan) (group : List Slot)
    (v : Value) : Except BindingError Plan :=
  if v.isNull then bindNulls p group
  else
    match mapping with
    | none => .error (.untypedParameter key.text)
    | some m => do
      let values ← liftMapping (m.decompose v)
      if values.length = group.length then
        p.addAll ((group.zip values).map fun (slot, cv) => (slot.number, ⟨some cv.type, cv.value⟩))
      else throw (.slotCountMismatch key.text group.length values.length)

/-- One placeholder for each column of the occurrence's mapping; without one, for each slot. -/
def bindUnboundGroup (key : ParameterKey) (mapping : Option Mapping) (p : Plan) (group : List Slot) :
    Except BindingError Plan :=
  match mapping with
  | none => p.addAll (group.map fun slot => (slot.number, .placeholder))
  | some m => do
    let columns := m.columnTypes
    let p ← p.addAll ((group.zip columns).map fun (slot, _) => (slot.number, .placeholder))
    if columns.length = group.length then return p
    else throw (.slotCountMismatch key.text group.length columns.length)

def bindUnbound (key : ParameterKey) (mapping : Option Mapping) :
    List (List Slot) → Plan → Except BindingError Plan
  | [], p => .ok p
  | group :: rest, p => do
    let p ← bindUnboundGroup key mapping p group
    bindUnbound key mapping rest p

def bindNullGroups : List (List Slot) → Plan → Except BindingError Plan
  | [], p => .ok p
  | group :: rest, p => do
    let p ← bindNulls p group
    bindNullGroups rest p

/-- The same value for every group. -/
def bindEach (key : ParameterKey) (mapping : Option Mapping) (v : Value) :
    List (List Slot) → Plan → Except BindingError Plan
  | [], p => .ok p
  | group :: rest, p => do
    let p ← bindValue key mapping p group v
    bindEach key mapping v rest p

/-- A stored value for every group, each of which must be a single slot. -/
def bindStored (key : ParameterKey) (type : ColumnType) (stored : Value) :
    List (List Slot) → Plan → Except BindingError Plan
  | [], p => .ok p
  | [slot] :: rest, p => do
    let p ← p.add slot.number ⟨some type, stored⟩
    bindStored key type stored rest p
  | group :: _, _ => .error (.convertedMultiColumn key.text group.length)

/-- A value of a converted type is converted once for all groups. -/
def bindSingle (key : ParameterKey) (mapping : Option Mapping) (v : Value) (groups : List (List Slot))
    (p : Plan) : Except BindingError Plan :=
  match mapping with
  | some (.converted converter relational) => do
    let stored ← liftMapping (converter.toRelational v)
    bindStored key relational.column stored groups p
  | _ => bindEach key mapping v groups p

/-- The next value for each group; `exhausted` when the values run out. Returns the values left. -/
def bindNext (key : ParameterKey) (mapping : Option Mapping) (exhausted : BindingError) :
    List (List Slot) → List Value → Plan → Except BindingError (List Value × Plan)
  | [], vs, p => .ok (vs, p)
  | _ :: _, [], _ => .error exhausted
  | group :: rest, v :: vs, p => do
    let p ← bindValue key mapping p group v
    bindNext key mapping exhausted rest vs p

def bindExpansions (c : Context) (key : ParameterKey) (mapping : Option Mapping)
    (exhausted : BindingError) (o : Occurrence) (position : Nat) :
    List Occurrence → List Value → Plan → Except BindingError (List Value × Plan)
  | [], vs, p => .ok (vs, p)
  | expansion :: rest, vs, p => do
    let groups ← c.expansionGroups key o position expansion
    let (vs, p) ← bindNext key mapping exhausted groups vs p
    bindExpansions c key mapping exhausted o (position + 1) rest vs p

/-- One value for each group: the occurrence's own first, then those of its expansions in order. The
expansions must be one fewer than the values, and every value must be taken. -/
def bindMulti (c : Context) (key : ParameterKey) (mapping : Option Mapping) (o : Occurrence)
    (expansions : List Occurrence) (groups : List (List Slot)) (vs : List Value) (p : Plan) :
    Except BindingError Plan :=
  match vs with
  | [] => .error (.emptyMultiValued key.text)
  | _ :: later => do
    let mismatch : BindingError :=
      .expansionCountMismatch key.text later.length expansions.length
    if expansions.length ≠ later.length then throw mismatch
    let (vs, p) ← bindNext key mapping mismatch groups vs p
    let (vs, p) ← bindExpansions c key mapping mismatch o 0 expansions vs p
    if vs.isEmpty then return p else throw mismatch

def bindOccurrence (c : Context) (t : OccurrenceTable) (key : ParameterKey) (b : ParameterBinding)
    (o : Occurrence) (p : Plan) : Except BindingError Plan := do
  let groups ← c.groups key o
  match b.value with
  | .unbound =>
    let mapping ← c.mapping o.type?
    bindUnbound key mapping groups p
  | .multi vs =>
    let mapping ← c.mapping (bindType b o c.catalog)
    bindMulti c key mapping o (t.expansions o.id) groups vs p
  | .single v =>
    if v.isNull then bindNullGroups groups p
    else
      let mapping ← c.mapping (bindType b o c.catalog)
      bindSingle key mapping v groups p

def bindOccurrences (c : Context) (t : OccurrenceTable) (key : ParameterKey) (b : ParameterBinding) :
    List Occurrence → Plan → Except BindingError Plan
  | [], p => .ok p
  | o :: rest, p => do
    let p ← bindOccurrence c t key b o p
    bindOccurrences c t key b rest p

def bindEntries (c : Context) (t : OccurrenceTable) (s : Store) :
    List ParameterEntry → Plan → Except BindingError Plan
  | [], p => .ok p
  | e :: rest, p => do
    let b ← s.known e.parameter.key
    let p ← bindOccurrences c t e.parameter.key b e.occurrences p
    bindEntries c t s rest p

/-- The plan for the bound values, through the slots of the index. -/
def buildPlan (c : Context) (t : OccurrenceTable) (s : Store) : Except BindingError Plan :=
  bindEntries c t s t.entries .empty

/-- Builds a plan and reports it. -/
def createPlan (c : Context) (t : OccurrenceTable) (s : Store) :
    EStateM BindingError Workspace Plan := fun w =>
  match buildPlan c t s with
  | .ok p => .ok p (w.report (.planBuilt p.size))
  | .error e => .error e w

end SemanticQuery.Binding
