/-! What settings are made from, in whatever notation they are written. -/
namespace SemanticQuery

/-- A value. No setting takes an `other` one, such as text. -/
inductive Settings.Item where
  | flag (value : Bool)
  | number (value : Int)
  | list (items : List Item)
  | table (fields : List (List String × Item))
  | other

/-- The value of a table's field. -/
def Settings.Item.field? (name : String) : Item → Option Item
  | .table fields => fields.lookup [name]
  | _ => none

end SemanticQuery
