import SemanticQuery.Mapping.Error
import SemanticQuery.Value.Text
/-!
Converters between a domain value and the value of its single column. Callers bring their own; two are at
hand.
-/
namespace SemanticQuery

/-- Converters of one name are interchangeable. Null is expected to convert to null both ways. -/
structure Converter where
  name : String
  domainKind : Kind
  relationalKind : Kind
  toRelational : Value → Except MappingError Value
  toDomain : Value → Except MappingError Value

namespace Converter

def refuse (name : String) (v : Value) : MappingError := .conversion name v.toText

/-- Booleans as `Y` and `N`. -/
def yesNo : Converter where
  name := "yes_no"
  domainKind := .boolean
  relationalKind := .character
  toRelational
    | .null => .ok .null
    | .bool true => .ok (.char 'Y')
    | .bool false => .ok (.char 'N')
    | v => .error (refuse "yes_no" v)
  toDomain
    | .null => .ok .null
    | .char 'Y' => .ok (.bool true)
    | .char 'N' => .ok (.bool false)
    | v => .error (refuse "yes_no" v)

/-- Named constants as their place in a list. -/
def ordinal (name : String) (constants : List String) : Converter where
  name := name
  domainKind := .text
  relationalKind := .integer
  toRelational
    | .null => .ok .null
    | .text constant =>
      match constants.findIdx? (· == constant) with
      | some i => if i < 0x80000000 then .ok (.int (Int32.ofNat i)) else .error (refuse name (.text constant))
      | none => .error (refuse name (.text constant))
    | v => .error (refuse name v)
  toDomain
    | .null => .ok .null
    | .int i =>
      if i < 0 then .error (refuse name (.int i))
      else
        match constants[i.toInt.toNat]? with
        | some constant => .ok (.text constant)
        | none => .error (refuse name (.int i))
    | v => .error (refuse name v)

end Converter

end SemanticQuery
