import SemanticQuery.Mapping.Error
import SemanticQuery.Query.Parameter
/-! What can go wrong while parameters are bound. -/
namespace SemanticQuery.Binding
open Query

def slotText (slot : Nat) : String := "slot" ++ toString slot

inductive BindingError where
  | mapping (error : MappingError)
  | untypedParameter (parameter : String)
  | missingSlots (parameter : String) (occurrence : OccurrenceId)
  | slotCountMismatch (parameter : String) (expected found : Nat)
  | expansionCountMismatch (parameter : String) (expected found : Nat)
  | emptyMultiValued (parameter : String)
  | convertedMultiColumn (parameter : String) (slots : Nat)
  | duplicateSlot (slot : Nat)
  | unboundSlot (slot : Nat)
  | foreignExpansion (occurrence : OccurrenceId) (parameter : String)
  | unknownParameter (parameter : String)
  | multiValuedNotAllowed (parameter : String)
  | sink (reason : String)
  deriving DecidableEq

namespace BindingError

/-- The name of the kind of error; an error of a mapping is named after the mapping's. -/
def label : BindingError → String
  | mapping e => "Mapping." ++ e.label
  | untypedParameter _ => "UntypedParameter"
  | missingSlots .. => "MissingSlots"
  | slotCountMismatch .. => "SlotCountMismatch"
  | expansionCountMismatch .. => "ExpansionCountMismatch"
  | emptyMultiValued _ => "EmptyMultiValued"
  | convertedMultiColumn .. => "ConvertedMultiColumn"
  | duplicateSlot _ => "DuplicateSlot"
  | unboundSlot _ => "UnboundSlot"
  | foreignExpansion .. => "ForeignExpansion"
  | unknownParameter _ => "UnknownParameter"
  | multiValuedNotAllowed _ => "MultiValuedNotAllowed"
  | sink _ => "Sink"

def message : BindingError → String
  | mapping e => e.message
  | untypedParameter p => "parameter " ++ p ++ " has no type by which it can be bound"
  | missingSlots p occurrence =>
    "no slots were allocated for occurrence " ++ occurrenceText occurrence ++ " of parameter " ++ p
  | slotCountMismatch p expected found =>
    "parameter " ++ p ++ " decomposed into " ++ toString found ++ " value(s) for " ++
      toString expected ++ " slot(s)"
  | expansionCountMismatch p expected found =>
    "parameter " ++ p ++ " has " ++ toString found ++ " expansion(s), expected " ++
      toString expected
  | emptyMultiValued p => "parameter " ++ p ++ " is bound to an empty collection"
  | convertedMultiColumn p slots =>
    "converted parameter " ++ p ++ " spans " ++ toString slots ++
      " slots; converted values bind to exactly one"
  | duplicateSlot slot => slotText slot ++ " already has a binding"
  | unboundSlot slot => slotText slot ++ " has no binding"
  | foreignExpansion occurrence p =>
    "expansion occurrence " ++ occurrenceText occurrence ++ " does not belong to parameter " ++ p
  | unknownParameter p => "query has no parameter " ++ p
  | multiValuedNotAllowed p => "parameter " ++ p ++ " does not accept multiple values"
  | sink reason => "statement sink rejected a binding: " ++ reason

/-- What callers do wrong is a usage error; slots and expansions that do not fit each other are not
the caller's doing. -/
def category : BindingError → Category
  | mapping e => e.category
  | untypedParameter _ => .typeResolution
  | unknownParameter _ | multiValuedNotAllowed _ | emptyMultiValued _ | sink _ => .usage
  | missingSlots .. | slotCountMismatch .. | expansionCountMismatch .. | convertedMultiColumn ..
  | duplicateSlot _ | unboundSlot _ | foreignExpansion .. => .invariantViolation

def toFailure : BindingError → Failure
  | mapping e => e.toFailure
  | e => ⟨e.category, .binding, e.message⟩

end BindingError

end SemanticQuery.Binding
