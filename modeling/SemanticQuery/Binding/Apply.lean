import SemanticQuery.Binding.Plan
/-! Applying a binding plan to a prepared statement, by position or by name. -/
namespace SemanticQuery.Binding

/-- Where a value goes: a position counted from one, or a name. -/
inductive Target where
  | position (n : Nat)
  | name (name : String)
  deriving DecidableEq

def Target.text : Target → String
  | position n => "#" ++ toString n
  | name s => ":" ++ s

inductive Call where
  | value (target : Target) (type : ColumnType) (value : Value)
  | null (target : Target) (type : ColumnType)

def Call.target : Call → Target
  | value target _ _ => target
  | null target _ => target

/-- A receiver of bind calls, which may refuse one. -/
abbrev Sink (σ : Type) := Call → EStateM BindingError σ Unit

/-- The call that binds a slot. A value without a type gets the default one of its kind. -/
def callFor (target : Target) (b : SlotBinding) : Call :=
  if b.value.isNull then .null target (b.type.getD .other)
  else .value target ((b.type.or (ColumnType.ofKind? b.value.kind)).getD .other) b.value

namespace Plan
variable {σ : Type}

def apply (p : Plan) (sink : Sink σ) (slot : Nat) (target : Target) : EStateM BindingError σ Unit :=
  match p.find? slot with
  | some b => sink (callFor target b)
  | none => throw (.unboundSlot slot)

def applyFrom (p : Plan) (sink : Sink σ) (position : Nat) : List Nat → EStateM BindingError σ Unit
  | [] => pure ()
  | slot :: rest => do
    p.apply sink slot (.position position)
    applyFrom p sink (position + 1) rest

/-- Applies the plan along the slots of a statement's placeholders. -/
def applyPositional (p : Plan) (sink : Sink σ) (order : List Nat) : EStateM BindingError σ Unit :=
  p.applyFrom sink 1 order

def applyNames (p : Plan) (sink : Sink σ) : List (Nat × String) → EStateM BindingError σ Unit
  | [] => pure ()
  | (slot, name) :: rest => do
    p.apply sink slot (.name name)
    applyNames p sink rest

/-- Applies the plan by name, in slot order. -/
def applyNamed (p : Plan) (sink : Sink σ) (names : KeyedList Nat String) :
    EStateM BindingError σ Unit :=
  p.applyNames sink names.entries

end Plan

end SemanticQuery.Binding
