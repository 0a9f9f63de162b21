import SemanticQuery.Path
import SemanticQuery.Value
/-! Results: how one selection item is read back from a row of column values. -/
namespace SemanticQuery.Sql

inductive Result where
  | basic (position : Nat) (label : Option String) (kind : Option Kind)
  | tuple (positions : List Nat) (label : Option String) (kind : Kind) (path : Option Path)
  deriving DecidableEq

namespace Result

def label : Result → Option String
  | basic _ label _ => label
  | tuple _ label _ _ => label

def positions : Result → List Nat
  | basic position _ _ => [position]
  | tuple positions _ _ _ => positions

/-- The values at the positions, if the row has all of them. -/
def valuesAt? (row : List Value) : List Nat → Option (List Value)
  | [] => some []
  | position :: rest =>
    match row[position]?, valuesAt? row rest with
    | some v, some vs => some (v :: vs)
    | _, _ => none

/-- The value read from a row; none when the row is too short. -/
def assemble (r : Result) (row : List Value) : Option Value :=
  match r with
  | basic position _ _ => row[position]?
  | tuple positions _ _ _ => (valuesAt? row positions).map .composite

end Result

end SemanticQuery.Sql
