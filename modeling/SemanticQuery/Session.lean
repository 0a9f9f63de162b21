import SemanticQuery.Interpretation
import SemanticQuery.Request
/-!
Sessions: one builder whose requests are lowered, bound and executed one after the other. A session
keeps what the last step of each kind gave: the statement lowered, the from clause and slots to bind
by, the plan and the interpretation.
-/
namespace SemanticQuery
open Query Binding Lowering

structure Session where
  model : Model
  builder : Builder
  work : Workspace
  counters : Counters
  requests : List Request
  current : Nat
  cache : Cache
  lowered : Option Lowered
  source : Sql.FromClause
  order : List Nat
  index : SlotIndex
  plan : Plan
  interpretation : Option Interpretation

namespace Session

def new (model : Model) (settings : Settings) (functions : Registry) : Session where
  model
  builder := .new model.catalog functions
  work := .empty
  counters := .zero
  requests := []
  current := 0
  cache := .new settings
  lowered := none
  source := .empty
  order := []
  index := .empty
  plan := .empty
  interpretation := none

def settings (s : Session) : Settings := s.cache.settings

/-- The current request; a selection of nothing where there is none. -/
def request (s : Session) : Request := s.requests.getD s.current .empty

def setRequest (s : Session) (r : Request) : Session :=
  { s with requests := s.requests.set s.current r }

/-- A statement added becomes the current one. -/
def add (statement : Statement) (s : Session) : Session :=
  { s with requests := s.requests ++ [.ofStatement statement], current := s.requests.length }

/-- Counts the events reported so far. -/
def settle (s : Session) : Session :=
  { s with counters := s.counters.recordAll s.work.events, work := { s.work with events := [] } }

def onWorkspace {ε α : Type} (x : EStateM ε Workspace α) : EStateM ε Session α := fun s =>
  match x s.work with
  | .ok a w => .ok a { s with work := w }
  | .error e w => .error e { s with work := w }

def makeNode {ε : Type} (node : NodeId → Expr) : EStateM ε Session Expr := do
  return node (← onWorkspace newNode)

/-- A literal of the given type, or else of the one the builder gives it. -/
def literal {ε : Type} (v : Value) (type : Option ExprType) : EStateM ε Session Expr := do
  let s ← get
  makeNode fun node => .literal node v (type.getD (s.builder.literalType v))

def occurrence {ε : Type} (make : Builder → Occurrence × Builder) : EStateM ε Session Occurrence := do
  let s ← get
  let (o, builder) := make s.builder
  set { s with builder }
  return o

def parameter {ε : Type} (make : Builder → Occurrence × Builder) : EStateM ε Session Expr := do
  let o ← occurrence make
  makeNode fun node => .parameter node o

def path {ε : Type} (source : PathRef) : EStateM ε Session Expr := makeNode fun node => .path node source

def tuple {ε : Type} (elements : List Expr) : EStateM ε Session Expr :=
  makeNode fun node => .tuple node elements .none

def call (name : String) (arguments : List Expr) (implied : Option ExprType) (notes : Notes) :
    EStateM FunctionError Session Expr := do
  let s ← get
  onWorkspace (s.builder.call name arguments implied notes)

/-- Copies into a context. -/
def copy {α : Type} (x : CopyM α) (c : CopyContext) (s : Session) : α × CopyContext × Session :=
  let (a, c, work) := copyInto x c s.work
  (a, c, { s with work })

def revise (change : Request → Except BindingError Request) : EStateM BindingError Session Unit := do
  let s ← get
  set (s.setRequest (← MonadExcept.ofExcept (change s.request)))

/-- Expands the multi-valued parameters of the current request. -/
def expand : EStateM BindingError Session Unit := fun s =>
  let keep (x : Expanding) : Session :=
    { s.setRequest { s.request with table := x.table } with builder := x.builder }
  match expandMultiValued s.request.store ⟨s.request.table, s.builder⟩ with
  | .ok () x => .ok () (keep x)
  | .error e x => .error e (keep x)

/-- Lowers the current statement itself, so that result types are resolved in its own tree. -/
def lower (expanded : Bool) : EStateM LoweringError Session Lowered := do
  let s ← get
  let expansions := if expanded then s.request.table.expansions else fun _ => []
  let lowered ← onWorkspace
    (lowerStatement s.model s.settings.strictParameterTyping expansions s.request.statement)
  modify fun s => { s with
    lowered := some lowered
    source := lowered.source
    order := lowered.statement.render.slots }
  return lowered

/-- Lowers one expression without a from clause. Returns the slots allocated, also when it fails. -/
def lowerAlone (hint : Option Mapping) (e : Expr) (s : Session) :
    Except LoweringError Sql.Expr × Ledger × Session :=
  let scope : Scope := ⟨s.model, .empty, fun _ => [], s.settings.strictParameterTyping⟩
  match lowerExpr scope (pure hint) e ⟨s.work, .empty⟩ with
  | .ok x p => (.ok x, p.ledger, { s with work := p.work })
  | .error e p => (.error e, p.ledger, { s with work := p.work })

/-- The slots of the statement lowered last. -/
def lastSlots (s : Session) : SlotIndex.Lookup := fun id => s.lowered.bind fun l => l.ledger.groups? id

/-- How the rows of the select lowered last are read. -/
def results (s : Session) : List Sql.Result :=
  match s.lowered.map Lowered.statement with
  | some (.select q) => q.results
  | _ => []

def indexSlots (lookup : SlotIndex.Lookup) : EStateM BindingError Session SlotIndex := do
  let s ← get
  let index ← MonadExcept.ofExcept (SlotIndex.build s.request.table lookup)
  set { s with index }
  return index

def makePlan (catalog : Catalog) : EStateM BindingError Session Plan := do
  let s ← get
  let plan ← onWorkspace
    (createPlan ⟨s.model, s.source, s.index, catalog⟩ s.request.table s.request.store)
  modify fun s => { s with plan }
  return plan

def addBinding (slot : Nat) (b : SlotBinding) : EStateM BindingError Session Plan := do
  let s ← get
  let plan ← MonadExcept.ofExcept (s.plan.add slot b)
  set { s with plan }
  return plan

/-- Interprets the current request through the cache or past it. Later steps bind by the result. -/
def interpret (cached : Bool) : EStateM Failure Session Interpretation := do
  let s ← get
  let r := s.request
  let i ← if cached then
      let (outcome, cache, work) := s.cache.interpret s.model r.statement r.table s.work
      set { s with cache, work }
      MonadExcept.ofExcept outcome
    else onWorkspace (Interpretation.build ⟨s.model, s.settings⟩ r.statement r.table)
  modify fun s => { s with
    source := i.lowered.source
    order := i.rendered.slots
    index := i.index
    interpretation := some i }
  return i

/-- The plan to execute an interpretation of the current request by. Later steps bind by it. -/
def planFor (i : Interpretation) : EStateM Failure Session Plan := do
  let s ← get
  let plan ← onWorkspace (i.createBindings s.model s.request.store s.request.table)
  modify fun s => { s with plan }
  return plan

end Session

end SemanticQuery
