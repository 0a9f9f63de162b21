import SemanticQuery.Failure
import SemanticQuery.Settings
import SemanticQuery.Settings.Json
import SemanticQuery.Settings.Toml.Document
/-!
Settings from a document. A setting that is not given keeps its default; one that nothing is known of
is refused, as is a value of the wrong type.
-/
namespace SemanticQuery

inductive SettingsError where
  | unreadable (path : String)
  | malformed
  | redefined
  | unknown (key : List String)
  | mistyped (key : List String)
  deriving DecidableEq

namespace SettingsError

def message : SettingsError → String
  | unreadable path => "failed to read config '" ++ path ++ "'"
  | malformed => "invalid lowering config: not a settings document"
  | redefined => "invalid lowering config: a key or table is defined twice"
  | unknown key => "invalid lowering config: unknown setting " ++ ".".intercalate key
  | mistyped key => "invalid lowering config: value of the wrong type for " ++ ".".intercalate key

def toFailure (e : SettingsError) : Failure := ⟨.config, .config, e.message⟩

end SettingsError

namespace Settings

/-- Behind a list of cache settings, further items are passed over or refused. -/
inductive Surplus where
  | ignored
  | refused
  deriving DecidableEq

def flagOf (key : List String) : Item → Except SettingsError Bool
  | .flag b => .ok b
  | _ => .error (.mistyped key)

/-- A capacity fits into 64 bits. -/
def capacityOf (key : List String) : Item → Except SettingsError Nat
  | .number (.ofNat n) => if n < UInt64.size then .ok n else .error (.mistyped key)
  | _ => .error (.mistyped key)

def setCache (c : CacheSettings) (key : List String) (value : Item) :
    Except SettingsError CacheSettings := do
  match key with
  | ["enabled"] => return { c with enabled := ← flagOf key value }
  | ["capacity"] => return { c with capacity := ← capacityOf key value }
  | _ => throw (.unknown key)

def setCacheFields : CacheSettings → List (List String × Item) → Except SettingsError CacheSettings
  | c, [] => .ok c
  | c, (key, value) :: rest => do
    let c ← setCache c key value
    setCacheFields c rest

/-- Cache settings as a table, or as a list in the order of their declaration. -/
def cacheOf (surplus : Surplus) (key : List String) : Item → Except SettingsError CacheSettings
  | .table fields => setCacheFields .default fields
  | .list items =>
    if surplus = .refused ∧ 2 < items.length then .error (.mistyped key)
    else setCacheFields .default ([["enabled"], ["capacity"]].zip items)
  | _ => .error (.mistyped key)

def set (surplus : Surplus) (s : Settings) (key : List String) (value : Item) :
    Except SettingsError Settings := do
  match key with
  | ["strict_parameter_typing"] => return { s with strictParameterTyping := ← flagOf key value }
  | ["trace_bindings"] => return { s with traceBindings := ← flagOf key value }
  | ["plan_cache"] => return { s with planCache := ← cacheOf surplus key value }
  | "plan_cache" :: inner => return { s with planCache := ← setCache s.planCache inner value }
  | _ => throw (.unknown key)

/-- Settings from keys that differ from each other. -/
def setAll (surplus : Surplus) : Settings → List (List String × Item) → Except SettingsError Settings
  | s, [] => .ok s
  | s, (key, value) :: rest => do
    let s ← set surplus s key value
    setAll surplus s rest

/-- Settings from a table whose fields are listed once each, or from a list in the order of their
declaration. -/
def ofItem : Item → Except SettingsError Settings
  | .table fields => setAll .refused .default fields
  | .list items =>
    if 3 < items.length then .error .malformed
    else
      setAll .refused .default
        ([["strict_parameter_typing"], ["trace_bindings"], ["plan_cache"]].zip items)
  | _ => .error .malformed

/-- Settings from the text of a settings file. -/
def ofText (text : String) : Except SettingsError Settings :=
  match Toml.read? text with
  | none => .error .malformed
  | some d =>
    if !d.isConsistent then .error .redefined
    else
      match d.headers.find? (· ≠ ["plan_cache"]) with
      | some header => .error (.unknown header)
      | none => setAll .ignored .default (d.entries.map fun e => (e.path, e.value))

end Settings

end SemanticQuery
