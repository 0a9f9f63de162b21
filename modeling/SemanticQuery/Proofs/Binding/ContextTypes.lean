import SemanticQuery.Proofs.Binding.OwnTypes

/-! Occurrences without a type of their own. Lowering gives their slots the columns of a mapping from the
context, but the context is gone when values are bound: what is left to bind by is the standard type of
the value. -/
namespace SemanticQuery.Binding
open Query Lowering

/-! A flag that is stored as a letter, compared with a parameter that has no type. -/
namespace Bare
open Rebound (model builder)

def boolean : BasicType := ⟨"boolean", .boolean, .boolean⟩

def letter : Mapping := .converted .yesNo ⟨"character", .character, .char⟩

def flag : Parameter := ⟨.named "flag", none, false⟩

def occurrence : Occurrence := (builder.occurrence flag none none).1

/-- A selection of nothing where the stored flag is what the parameter is. -/
def statement : Statement :=
  .select ⟨[], [], [], some (.comparison (.literal 0 (.bool true) (.mapped letter)) .equal
    (.parameter 1 occurrence))⟩

def catalog : Catalog := Catalog.empty.register boolean

def state : BindingState :=
  (BindingState.start statement (builder.occurrence flag none none).2).step
    (.bind flag.key (.bool true))

end Bare

end SemanticQuery.Binding
