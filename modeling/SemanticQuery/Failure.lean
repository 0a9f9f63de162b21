/-! Classified failures: what kind of mistake an error is and which part of the library found it. -/
namespace SemanticQuery

/-- An invariant violation cannot follow from correct use of the library. -/
inductive Category where
  | usage
  | typeResolution
  | semantic
  | invariantViolation
  | config
  deriving DecidableEq

def Category.label : Category → String
  | .usage => "usage"
  | .typeResolution => "type_resolution"
  | .semantic => "semantic"
  | .invariantViolation => "invariant_violation"
  | .config => "config"

inductive Origin where
  | function
  | mapping
  | lowering
  | binding
  | config
  deriving DecidableEq

def Origin.label : Origin → String
  | .function => "function"
  | .mapping => "mapping"
  | .lowering => "lowering"
  | .binding => "binding"
  | .config => "config"

structure Failure where
  category : Category
  origin : Origin
  message : String
  deriving DecidableEq

def Failure.isInvariantViolation (f : Failure) : Bool := f.category == .invariantViolation

def Failure.display (f : Failure) : String :=
  f.origin.label ++ ":" ++ f.category.label ++ ": " ++ f.message

end SemanticQuery
