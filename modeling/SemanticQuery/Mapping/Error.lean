import SemanticQuery.Failure
import SemanticQuery.Kind
/-! What can go wrong between domain types and columns. -/
namespace SemanticQuery

inductive MappingError where
  | unknownEntity (entity : String)
  | unknownAttribute (entity name : String)
  | unresolvedPath (path : String)
  | noStandardType (kind : Kind)
  | valueShape (mapping : String) (found : Kind)
  | conversion (converter value : String)
  | multiColumnValues (column mapping : String)
  deriving DecidableEq

/-- The name of the kind of error. -/
def MappingError.label : MappingError → String
  | .unknownEntity _ => "UnknownEntity"
  | .unknownAttribute .. => "UnknownAttribute"
  | .unresolvedPath _ => "UnresolvedPath"
  | .noStandardType _ => "NoStandardType"
  | .valueShape .. => "ValueShape"
  | .conversion .. => "Conversion"
  | .multiColumnValues .. => "MultiColumnValues"

def MappingError.message : MappingError → String
  | .unknownEntity entity => "unknown entity '" ++ entity ++ "'"
  | .unknownAttribute entity name =>
    "entity '" ++ entity ++ "' has no attribute '" ++ name ++ "'"
  | .unresolvedPath path => "cannot resolve path '" ++ path ++ "'"
  | .noStandardType kind => "no standard type registered for value kind " ++ kind.name
  | .valueShape mapping found =>
    "value of kind " ++ found.name ++ " does not fit mapping " ++ mapping
  | .conversion converter value => "converter '" ++ converter ++ "' cannot convert " ++ value
  | .multiColumnValues column mapping =>
    "values column '" ++ column ++ "' maps to " ++ mapping ++ ", which spans more than one column"

def MappingError.category : MappingError → Category
  | .noStandardType _ | .unresolvedPath _ => .typeResolution
  | .conversion .. | .valueShape .. => .usage
  | .unknownEntity _ | .unknownAttribute .. | .multiColumnValues .. => .semantic

def MappingError.toFailure (e : MappingError) : Failure := ⟨e.category, .mapping, e.message⟩

end SemanticQuery
