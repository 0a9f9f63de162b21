import SemanticQuery.Failure
import SemanticQuery.Inquiry
import SemanticQuery.Query.Parameter
/-!
Arguments as the functions see them that they are handed to. A function sees what an argument is made of,
without identities and notes, and it may ask what type an argument or a part of one has. What it is for
the answer to come about, such as a call below being resolved, is not for the function to see.
-/
namespace SemanticQuery.Query

inductive FunctionError where
  | argumentCount (function expected : String) (found : Nat)
  | argumentType (function : String) (index : Nat) (expected : Family) (found : Kind)
  | returnType (function reason : String)
  | unknownFunction (name : String)
  deriving DecidableEq

namespace FunctionError

/-- The name of the kind of error. -/
def label : FunctionError → String
  | argumentCount .. => "ArgumentCount"
  | argumentType .. => "ArgumentType"
  | returnType .. => "ReturnType"
  | unknownFunction _ => "UnknownFunction"

def message : FunctionError → String
  | argumentCount function expected found =>
    "function '" ++ function ++ "' expects " ++ expected ++ " argument(s), found " ++ toString found
  | argumentType function index expected found =>
    "function '" ++ function ++ "' argument " ++ toString index ++ " is " ++ found.name ++
      ", expected a " ++ expected.name ++ " type"
  | returnType function reason => "cannot resolve result type of '" ++ function ++ "': " ++ reason
  | unknownFunction name => "unknown function '" ++ name ++ "'"

def category : FunctionError → Category
  | argumentCount .. | argumentType .. | unknownFunction _ => .semantic
  | returnType .. => .typeResolution

def toFailure (e : FunctionError) : Failure := ⟨e.category, .function, e.message⟩

end FunctionError

inductive Argument where
  | literal (value : Value) (type : ExprType)
  | parameter (occurrence : Occurrence)
  | path (source : PathRef)
  | call (function : String) (arguments : List Argument) (implied : Option ExprType)
  | tuple (elements : List Argument)

/-- Where something stands among arguments: the place of the argument, of a part of it, and so on. -/
abbrev Place := List Nat

/-- What asking for the type of an expression comes to. -/
abbrev TypeAnswer := Except FunctionError (Option ExprType)

/-- What a function makes of its arguments, given that it may ask for types. -/
abbrev Inspection (α : Type) := Inquiry Place TypeAnswer α

/-- An inspection that may fail. -/
abbrev Resolution (α : Type) := ExceptT FunctionError (Inquiry Place TypeAnswer) α

/-- The type of what stands at a place; that there is none to be had is a failure. -/
def askType (place : Place) : Resolution (Option ExprType) := ExceptT.mk (.ask place .done)

/-- The type of what stands at a place, where a failure only means that there is none. -/
def askType? (place : Place) : Inspection (Option ExprType) :=
  .ask place fun
    | .ok type => .done type
    | .error _ => .done none

/-- The types of the arguments from some position on. -/
def askTypes (index : Nat) : List Argument → Resolution (List (Option ExprType))
  | [] => pure []
  | _ :: rest => do
    let first ← askType [index]
    let later ← askTypes (index + 1) rest
    return first :: later

/-- The types of the arguments from some position on, but for the one at another. -/
def askTypesBut (skipped index : Nat) : List Argument → Inspection (List (Option ExprType))
  | [] => pure []
  | _ :: rest =>
    if index = skipped then askTypesBut skipped (index + 1) rest
    else do
      let first ← askType? [index]
      let later ← askTypesBut skipped (index + 1) rest
      return first :: later

end SemanticQuery.Query
