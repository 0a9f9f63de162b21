import SemanticQuery.Binding.Build
import SemanticQuery.Model.Sample
import SemanticQuery.Proofs.Lowering.Parameters
import SemanticQuery.Proofs.Mapping.Columns

/-! Nulls on both ways to the slots. A null that is bound is not decomposed, it takes the types that the
slots have from lowering; a null that is decomposed has a null for each column. Slots that were allocated
for a mapping have the types of its columns, so the two are the same. -/
namespace SemanticQuery

namespace Binding
open Query Lowering

/-! Nobody lives at an address that is null, and the null takes both columns of it. -/
namespace Nowhere

def people : Path := Model.Sample.people

def address : PathRef := Model.Sample.addressPath

def place : Occurrence := ⟨0, ⟨.named "place", some (.mapped Model.Sample.address), false⟩, none, none⟩

def statement : Statement :=
  .delete ⟨⟨"Person", people⟩, some (.comparison (.path 0 address) .equal (.parameter 1 place))⟩

end Nowhere

end Binding

end SemanticQuery
