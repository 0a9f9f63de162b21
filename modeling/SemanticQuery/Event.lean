import SemanticQuery.KeyedList
/-!
Events: what lowering, binding and caching report while they work, and the counters that sum them up.
-/
namespace SemanticQuery

inductive Event where
  | statementLowered
  | functionResolved (function : String)
  | slotsAllocated (slots : Nat)
  | mappingUnavailable (function : String)
  | planBuilt (bindings : Nat)
  | cacheHit
  | cacheMiss
  deriving DecidableEq

/-- The name an event is reported by. -/
def Event.label : Event → String
  | statementLowered => "statement_lowered"
  | functionResolved _ => "function_resolved"
  | slotsAllocated _ => "slots_allocated"
  | mappingUnavailable _ => "model_unavailable"
  | planBuilt _ => "plan_built"
  | cacheHit => "cache_hit"
  | cacheMiss => "cache_miss"

structure Counters where
  statementsLowered : Nat
  functionResolutions : Nat
  parameterSlots : Nat
  mappingFallbacks : Nat
  bindingPlans : Nat
  bindings : Nat
  cacheHits : Nat
  cacheMisses : Nat
  functions : KeyedList String Nat

namespace Counters

def zero : Counters := ⟨0, 0, 0, 0, 0, 0, 0, 0, .empty⟩

def record (c : Counters) : Event → Counters
  | .statementLowered => { c with statementsLowered := c.statementsLowered + 1 }
  | .functionResolved function =>
    { c with
      functionResolutions := c.functionResolutions + 1
      functions := c.functions.alter function fun n => n.getD 0 + 1 }
  | .slotsAllocated slots => { c with parameterSlots := c.parameterSlots + slots }
  | .mappingUnavailable _ => { c with mappingFallbacks := c.mappingFallbacks + 1 }
  | .planBuilt bindings =>
    { c with bindingPlans := c.bindingPlans + 1, bindings := c.bindings + bindings }
  | .cacheHit => { c with cacheHits := c.cacheHits + 1 }
  | .cacheMiss => { c with cacheMisses := c.cacheMisses + 1 }

/-- Every counter but those by function, under the name it is reported by. -/
def totals (c : Counters) : List (String × Nat) :=
  [("statements_lowered", c.statementsLowered),
    ("function_resolutions", c.functionResolutions),
    ("parameter_slots", c.parameterSlots),
    ("model_expressible_fallbacks", c.mappingFallbacks),
    ("binding_plans", c.bindingPlans),
    ("bindings", c.bindings),
    ("plan_cache_hits", c.cacheHits),
    ("plan_cache_misses", c.cacheMisses)]

def recordAll (c : Counters) (events : List Event) : Counters := events.foldl record c

end Counters

end SemanticQuery
