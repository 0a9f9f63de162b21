import SemanticQuery.Binding.Error
/-! The binding plan of one execution: one typed value for each slot. -/
namespace SemanticQuery.Binding

/-- A slot of an unbound parameter holds a placeholder, which has neither type nor value. -/
structure SlotBinding where
  type : Option ColumnType
  value : Value

namespace SlotBinding

def placeholder : SlotBinding := ⟨none, .null⟩

def isPlaceholder (b : SlotBinding) : Bool := b.type.isNone && b.value.isNull

end SlotBinding

structure Plan where
  bindings : KeyedList Nat SlotBinding

namespace Plan

def empty : Plan := ⟨.empty⟩

def find? (p : Plan) (slot : Nat) : Option SlotBinding := p.bindings.find? slot

/-- A slot is bound once. -/
def add (p : Plan) (slot : Nat) (b : SlotBinding) : Except BindingError Plan :=
  match p.find? slot with
  | some _ => .error (.duplicateSlot slot)
  | none => .ok ⟨p.bindings.insert slot b⟩

def addAll (p : Plan) : List (Nat × SlotBinding) → Except BindingError Plan
  | [] => .ok p
  | (slot, b) :: rest => do
    let p ← p.add slot b
    addAll p rest

def size (p : Plan) : Nat := p.bindings.size

def isEmpty (p : Plan) : Bool := p.bindings.isEmpty

def slots (p : Plan) : List Nat := p.bindings.keys

end Plan

end SemanticQuery.Binding
