import SemanticQuery.Catalog
import SemanticQuery.Precedence
import SemanticQuery.Query.Argument
import SemanticQuery.Sql.Expr
/-!
Functions that queries may call: how many arguments of which families they take, how the result is
typed, what an untyped argument is taken for, and how a call is written. A registry finds them by
name whatever its case.
-/
namespace SemanticQuery.Query

/-- Requirements on arguments: on what they are when a call is built, and on what they are lowered to. -/
structure Validator where
  check : (function : String) → List Argument → Resolution Unit
  checkLowered : (function : String) → List Sql.Expr → Except FunctionError Unit

namespace Validator

def describeCount (least : Nat) : Option Nat → String
  | none => "at least " ++ toString least
  | some most =>
    if most = least then "exactly " ++ toString most
    else toString least ++ " to " ++ toString most

/-- The number of arguments, which lowering does not change. -/
def count (least : Nat) (most : Option Nat) : Validator where
  check function arguments :=
    let found := arguments.length
    if found < least || most.any (· < found) then
      throw (.argumentCount function (describeCount least most) found)
    else pure ()
  checkLowered _ _ := .ok ()

def exactly (n : Nat) : Validator := count n (some n)

def atLeast (n : Nat) : Validator := count n none

/-- An untyped argument and an object fit any family. -/
def checkFamily (function : String) (index : Nat) (expected : Option Family) (found : Option Kind) :
    Except FunctionError Unit :=
  match expected, found with
  | some expected, some found =>
    if found = .object ∨ found.family = expected then .ok ()
    else .error (.argumentType function index expected found)
  | _, _ => .ok ()

section
variable (function : String) (familyAt : Nat → Option Family)

/-- The families of arguments from a position on, each checked when its type is found. -/
def checkFamilies (index : Nat) : List Argument → Resolution Unit
  | [] => pure ()
  | _ :: rest => do
    let type ← askType [index]
    MonadExcept.ofExcept (checkFamily function index (familyAt index) (type.map ExprType.kind))
    checkFamilies (index + 1) rest

def checkLoweredFamilies (index : Nat) : List Sql.Expr → Except FunctionError Unit
  | [] => .ok ()
  | e :: rest => do
    checkFamily function index (familyAt index) e.kind?
    checkLoweredFamilies (index + 1) rest

end

/-- Families by position, with one for all later positions. -/
def families (positional : List Family) (rest : Option Family) : Validator where
  check function arguments :=
    checkFamilies function (fun index => positional[index]?.or rest) 0 arguments
  checkLowered function arguments :=
    checkLoweredFamilies function (fun index => positional[index]?.or rest) 0 arguments

def uniform (family : Family) : Validator := families [] (some family)

def all (validators : List Validator) : Validator where
  check function arguments := validators.forM fun v => v.check function arguments
  checkLowered function arguments := validators.forM fun v => v.checkLowered function arguments

end Validator

/-- How the result of a call is typed, from the type that is implied for it, the arguments and the types that
are standard; and how it comes by a mapping, from what the arguments are lowered to and the mapping that its
type has, which it may ask for. -/
structure ReturnRule where
  resolve : (implied : Option ExprType) → List Argument → Catalog → Resolution (Option ExprType)
  mapping : List Sql.Expr → Inquiry Unit (Option Mapping) (Option Mapping) := fun _ => .ask () .done

/-- An invariant result gives way to an implied type of its own kind. -/
def invariantType (type : BasicType) : Option ExprType → ExprType
  | some implied => if implied.kind = type.kind then implied else .basic type
  | none => .basic type

namespace ReturnRule

/-- Always a type of its own. -/
def invariant (type : BasicType) : ReturnRule where
  resolve implied _ _ := pure (some (invariantType type implied))

/-- The type of one argument. A call there passes its mapping on. -/
def argument (index : Nat) : ReturnRule where
  resolve implied _ _ := do
    let type ← askType [index]
    return type.or implied
  mapping arguments :=
    match arguments[index]? with
    | some (.call _ _ _ _ (some m)) => .done (some m)
    | _ => .ask () .done

/-- The type that takes precedence among the arguments. -/
def highest : ReturnRule where
  resolve implied arguments _ := do
    let types ← askTypes 0 arguments
    return (highestType types).or implied

end ReturnRule

/-- What is known where an argument is lowered: the types that are standard, and how types are mapped. -/
structure Surroundings where
  catalog : Catalog
  mapping : ExprType → Except MappingError (Option Mapping)

namespace Surroundings

/-- The mapping of a type where a failed lookup only means that there is none. -/
def mapping? (s : Surroundings) (type : ExprType) : Option Mapping :=
  match s.mapping type with
  | .ok m => m
  | .error _ => none

end Surroundings

/-- What an argument at some position is taken for that has no type of its own. -/
structure ArgumentRule where
  mapping : (function : String) → (implied : Option ExprType) → List Argument → (index : Nat) →
    Surroundings → Inspection (Option Mapping)

namespace ArgumentRule

/-- For what takes precedence among the other arguments. -/
def others : ArgumentRule where
  mapping _ _ arguments index surroundings := do
    let types ← askTypesBut index 0 arguments
    return (highestType types).bind surroundings.mapping?

/-- Always for one type. -/
def invariant (type : BasicType) : ArgumentRule where
  mapping _ _ _ _ _ := pure (some (.basic type))

end ArgumentRule

structure FunctionDef where
  name : String
  returns : ReturnRule
  validator : Option Validator
  arguments : Option ArgumentRule
  style : CallStyle

/-- A function as calls hold it, with the types that were standard where they were built. -/
structure Callee extends FunctionDef where
  catalog : Catalog

/-- Functions by name in lower case, of ASCII letters. -/
structure Registry where
  functions : KeyedList String FunctionDef

namespace Registry

def empty : Registry := ⟨.empty⟩

def keyOf (name : String) : String := name.map Char.toLower

def register (r : Registry) (f : FunctionDef) : Registry := ⟨r.functions.insert (keyOf f.name) f⟩

def find (r : Registry) (name : String) : Except FunctionError FunctionDef :=
  match r.functions.find? (keyOf name) with
  | some f => .ok f
  | none => .error (.unknownFunction name)

def names (r : Registry) : List String := r.functions.keys

/-- The functions every database provides, typed by the catalog where it has the type. -/
def standard (c : Catalog) : Registry :=
  let typeFor (name : String) (kind : Kind) (column : ColumnType) : BasicType :=
    (c.standardType? kind).getD ⟨name, kind, column⟩
  let text := typeFor "string" .text .varchar
  let counted (v : Validator) (family : Family) : Option Validator := some (.all [v, .uniform family])
  let functions : List FunctionDef :=
    [⟨"abs", .argument 0, counted (.exactly 1) .numeric, none, .standard⟩,
      ⟨"mod", .highest, counted (.exactly 2) .numeric, some .others, .standard⟩,
      ⟨"coalesce", .highest, some (.atLeast 2), some .others, .standard⟩,
      ⟨"greatest", .highest, some (.atLeast 2), some .others, .standard⟩,
      ⟨"least", .highest, some (.atLeast 2), some .others, .standard⟩,
      ⟨"upper", .invariant text, counted (.exactly 1) .textual, none, .standard⟩,
      ⟨"lower", .invariant text, counted (.exactly 1) .textual, none, .standard⟩,
      ⟨"length", .invariant (typeFor "integer" .integer .integer), counted (.exactly 1) .textual,
        none, .standard⟩,
      ⟨"concat", .invariant text, counted (.atLeast 2) .textual, some (.invariant text), .standard⟩,
      ⟨"current_date", .invariant (typeFor "date" .date .date), some (.exactly 0), none, .keyword⟩]
  functions.foldl register empty

end Registry

end SemanticQuery.Query
