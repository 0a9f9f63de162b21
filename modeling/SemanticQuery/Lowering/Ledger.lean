import SemanticQuery.Query.Parameter
import SemanticQuery.Sql.Expr
/-!
The ledger of bind slots: which occurrence each group of slots was allocated for, in the order of
allocation. An occurrence gets one group each time it is lowered and a group one slot per column;
slots are numbered from zero without gaps. Numbers are not cut to words of 32 bits, as identities of
occurrences are: one statement holds all its slots at once, and none comes to `2 ^ 32` of them.
-/
namespace SemanticQuery.Lowering
open Query

structure Ledger where
  entries : List (OccurrenceId × List Slot)
  next : Nat

/-- Slots of the given types under consecutive numbers. -/
def numberSlots : Nat → List (Option ColumnType) → List Slot
  | _, [] => []
  | n, type :: rest => ⟨n, type⟩ :: numberSlots (n + 1) rest

theorem length_numberSlots (n : Nat) (types : List (Option ColumnType)) :
    (numberSlots n types).length = types.length := by
  induction types generalizing n with
  | nil => rfl
  | cons type rest ih => simp [numberSlots, ih]

namespace Ledger

def empty : Ledger := ⟨[], 0⟩

def allocate (l : Ledger) (occurrence : OccurrenceId) (types : List (Option ColumnType)) :
    List Slot × Ledger :=
  let group := numberSlots l.next types
  (group, ⟨l.entries ++ [(occurrence, group)], l.next + types.length⟩)

/-- The groups of an occurrence in the order they were allocated; none if it has no entry. -/
def groups? (l : Ledger) (occurrence : OccurrenceId) : Option (List (List Slot)) :=
  match l.entries.filter fun e => e.1 == occurrence with
  | [] => none
  | found => some (found.map (·.2))

def slotCount (l : Ledger) : Nat := (l.entries.flatMap Prod.snd).length

def isEmpty (l : Ledger) : Bool := l.entries.isEmpty

end Ledger

end SemanticQuery.Lowering
