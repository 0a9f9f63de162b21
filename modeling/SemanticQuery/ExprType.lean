import SemanticQuery.Mapping.Basic
import SemanticQuery.Path
/-!
Types of domain expressions. A basic type or a mapping has its columns at hand; a path finds them
in the from clause and a bare kind in the catalog.
-/
namespace SemanticQuery

/-- A reference to what a path leads to, with the kind found there. -/
structure PathRef where
  path : Path
  kind : Kind
  deriving DecidableEq

inductive ExprType where
  | basic (type : BasicType)
  | path (source : PathRef)
  | domain (kind : Kind)
  | mapped (mapping : Mapping)

namespace ExprType

def kind : ExprType → Kind
  | basic type => type.kind
  | path source => source.kind
  | domain kind => kind
  | mapped mapping => mapping.kind

def isPath : ExprType → Bool
  | path _ => true
  | _ => false

/-- The mapping a type carries by itself. -/
def ownMapping? : ExprType → Option Mapping
  | basic type => some (.basic type)
  | mapped mapping => some mapping
  | path _ | domain _ => none

def ofMapping : Mapping → ExprType
  | .basic type => basic type
  | mapping => mapped mapping

def text : ExprType → String
  | basic type => type.name
  | path source => "path(" ++ source.path.text ++ ")"
  | domain kind => kind.name
  | mapped mapping => mapping.text

end ExprType

end SemanticQuery
