import SemanticQuery.Mapping.Error
import SemanticQuery.Query.Function
/-! What can go wrong while a statement is lowered. -/
namespace SemanticQuery.Lowering

inductive LoweringError where
  | function (error : Query.FunctionError)
  | mapping (error : MappingError)
  | statementKind (expected found : String)
  | untypedParameter (parameter : String)
  | missingTableGroup (path : String)
  deriving DecidableEq

namespace LoweringError

/-- The name of the kind of error; an error of a part is named after the part. -/
def label : LoweringError → String
  | function e => "Function." ++ e.label
  | mapping e => "Mapping." ++ e.label
  | statementKind .. => "StatementKind"
  | untypedParameter _ => "UntypedParameter"
  | missingTableGroup _ => "MissingTableGroup"

def message : LoweringError → String
  | function e => e.message
  | mapping e => e.message
  | statementKind expected found => "expected a " ++ expected ++ " statement, found " ++ found
  | untypedParameter parameter => "cannot infer a type for parameter " ++ parameter
  | missingTableGroup path => "no table group registered for '" ++ path ++ "'"

/-- An error of a part keeps the classification the part gives it. -/
def toFailure : LoweringError → Failure
  | function e => e.toFailure
  | mapping e => e.toFailure
  | statementKind expected found => ⟨.usage, .lowering, (statementKind expected found).message⟩
  | untypedParameter p => ⟨.typeResolution, .lowering, (untypedParameter p).message⟩
  | missingTableGroup path => ⟨.semantic, .lowering, (missingTableGroup path).message⟩

end LoweringError

end SemanticQuery.Lowering
