import SemanticQuery.Binding.Apply
import SemanticQuery.Binding.Build
import SemanticQuery.Fingerprint.Encoding
import SemanticQuery.Lowering.Statement
import SemanticQuery.Query.Builder
import SemanticQuery.Query.Copy
import SemanticQuery.Settings
import SemanticQuery.Sql.Text
/-!
Interpretations: all of a statement that does not depend on bound values. A private copy is lowered,
so that no result type is resolved in the caller's tree, and errors are classified.
-/
namespace SemanticQuery
open Query Binding Lowering

/-- The identity tells one built interpretation from another. -/
structure Interpretation where
  identity : NodeId
  fingerprint : String
  lowered : Lowered
  rendered : Sql.Rendered
  index : SlotIndex
  tables : List String

namespace Interpretation

/-- What statements are interpreted with. -/
structure Services where
  model : Model
  settings : Settings

/-- Lowers a private copy of a statement. -/
def lowerCopy (v : Services) (s : Statement) (t : OccurrenceTable) :
    EStateM LoweringError Workspace Lowered := fun w =>
  let (copy, _, w) := copyInto s.copy .empty w
  lowerStatement v.model v.settings.strictParameterTyping t.expansions copy w

def classify {ε α : Type} (toFailure : ε → Failure) (x : EStateM ε Workspace α) :
    EStateM Failure Workspace α := fun w =>
  match x w with
  | .ok a w => .ok a w
  | .error e w => .error (toFailure e) w

def build (v : Services) (s : Statement) (t : OccurrenceTable) :
    EStateM Failure Workspace Interpretation := do
  let lowered ← classify LoweringError.toFailure (lowerCopy v s t)
  match SlotIndex.build t lowered.ledger.groups? with
  | .error e => throw e.toFailure
  | .ok index =>
    let identity ← newNode
    return {
      identity
      fingerprint := Fingerprint.fingerprint s t
      lowered
      rendered := lowered.statement.render
      index
      tables := lowered.statement.affectedTables }

/-- The binding plan of one execution. -/
def createBindings (i : Interpretation) (model : Model) (s : Store) (t : OccurrenceTable) :
    EStateM Failure Workspace Plan :=
  classify BindingError.toFailure
    (createPlan ⟨model, i.lowered.source, i.index, model.catalog⟩ t s)

/-- Applies a plan in the order of the rendered placeholders. -/
def bind {σ : Type} (i : Interpretation) (p : Plan) (sink : Sink σ) : EStateM BindingError σ Unit :=
  p.applyPositional sink i.rendered.slots

end Interpretation

/-- Interpretations by fingerprint. A full cache admits nothing more, and nothing is replaced. -/
structure Cache where
  settings : Settings
  entries : KeyedList String Interpretation
  hits : Nat
  misses : Nat

namespace Cache

def new (settings : Settings) : Cache := ⟨settings, .empty, 0, 0⟩

def size (c : Cache) : Nat := c.entries.size

def clear (c : Cache) : Cache := { c with entries := .empty, hits := 0, misses := 0 }

def keep (c : Cache) (i : Interpretation) : Cache :=
  match c.entries.find? i.fingerprint with
  | some _ => c
  | none =>
    if c.size < c.settings.planCache.capacity then
      { c with entries := c.entries.insert i.fingerprint i }
    else c

/-- The interpretation of a statement, built where the cache has none. A statement that cannot be
built counts as a miss. -/
def interpret (c : Cache) (model : Model) (s : Statement) (t : OccurrenceTable) (w : Workspace) :
    Except Failure Interpretation × Cache × Workspace :=
  let built (w : Workspace) : Except Failure Interpretation × Workspace :=
    match Interpretation.build ⟨model, c.settings⟩ s t w with
    | .ok i w => (.ok i, w)
    | .error e w => (.error e, w)
  if c.settings.planCache.enabled then
    match c.entries.find? (Fingerprint.fingerprint s t) with
    | some i => (.ok i, { c with hits := c.hits + 1 }, w.report .cacheHit)
    | none =>
      let c := { c with misses := c.misses + 1 }
      match built (w.report .cacheMiss) with
      | (.ok i, w) => (.ok i, c.keep i, w)
      | (.error e, w) => (.error e, c, w)
  else
    let (outcome, w) := built w
    (outcome, c, w)

end Cache

end SemanticQuery
