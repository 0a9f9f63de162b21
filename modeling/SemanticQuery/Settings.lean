/-! Settings of lowering, binding and the interpretation cache. -/
namespace SemanticQuery

/-- A capacity of zero keeps nothing. -/
structure CacheSettings where
  enabled : Bool
  capacity : Nat
  deriving DecidableEq

def CacheSettings.default : CacheSettings := ⟨true, 256⟩

/-- Strict typing refuses a parameter whose type cannot be told while lowering. -/
structure Settings where
  strictParameterTyping : Bool
  traceBindings : Bool
  planCache : CacheSettings
  deriving DecidableEq

def Settings.default : Settings := ⟨false, false, .default⟩

end SemanticQuery
