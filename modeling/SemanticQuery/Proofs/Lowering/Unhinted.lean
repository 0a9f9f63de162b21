import SemanticQuery.Model.Sample
import SemanticQuery.Proofs.Lowering.Parameters

/-! Where no hint is heard. A hint reaches the elements of tuples, however deep, and stops at calls, which have
hints of their own for their arguments. An expression whose literals and parameters within reach all have a
mapping by their own types is lowered alike under whatever hint. -/
namespace SemanticQuery

namespace Query.Expr

mutual

/-- The nodes of an expression that are not below a call. -/
def outside : Expr → List Expr
  | literal node value type => [literal node value type]
  | parameter node occurrence => [parameter node occurrence]
  | path node source => [path node source]
  | call node function arguments implied notes => [call node function arguments implied notes]
  | tuple node elements notes => tuple node elements notes :: outsideOf elements

def outsideOf : List Expr → List Expr
  | [] => []
  | e :: rest => e.outside ++ outsideOf rest

end

end Query.Expr

namespace Lowering
open Query

/-- A literal or a parameter has a mapping by its own type. -/
def Scope.Maps (c : Scope) : Expr → Prop
  | .literal _ _ type => ∃ m, c.mapping type = .ok (some m)
  | .parameter _ o => ∃ type m, o.type? = some type ∧ c.mapping type = .ok (some m)
  | .path .. | .call .. | .tuple .. => True

section
variable {c : Scope}

theorem lowerLiteral_of_mapped {type : ExprType} {m : Mapping} (own : c.mapping type = .ok (some m))
    (h : Hint) (v : Value) : lowerLiteral c h v type = (do
      let values ← liftMapping (m.decompose v)
      return .ofList (values.map fun cv => .literal cv.value cv.type)) := by
  rw [lowerLiteral, own]
  rfl

theorem lowerParameter_of_mapped {o : Occurrence} {type : ExprType} {m : Mapping}
    (typed : o.type? = some type) (own : c.mapping type = .ok (some m)) (h : Hint) :
    lowerParameter c h o = (do
      let group ← allocate o.id (m.columnTypes.map some)
      return .ofSlots group) := by
  unfold lowerParameter
  rw [typed]
  simp only [own]
  rfl

mutual

/-- A hint is dropped at calls and passed on by tuples, and nothing else asks for it. -/
theorem lowerExpr_unhinted (h h' : Hint) : (e : Expr) → (∀ d ∈ e.outside, c.Maps d) →
    lowerExpr c h e = lowerExpr c h' e
  | .literal node v type, mapped => by
    obtain ⟨m, own⟩ := mapped _ (List.mem_singleton_self _)
    rw [lowerExpr, lowerExpr, lowerLiteral_of_mapped own h, lowerLiteral_of_mapped own h']
  | .parameter node o, mapped => by
    obtain ⟨type, m, typed, own⟩ := mapped _ (List.mem_singleton_self _)
    rw [lowerExpr, lowerExpr, lowerParameter_of_mapped typed own h, lowerParameter_of_mapped typed own h']
  | .path .., _ => by rw [lowerExpr, lowerExpr]
  | .call .., _ => by rw [lowerExpr, lowerExpr]
  | .tuple node elements notes, mapped => by
    rw [Expr.outside, List.forall_mem_cons] at mapped
    rw [lowerExpr, lowerExpr, lowerElements_unhinted h h' 0 elements mapped.2]

theorem lowerElements_unhinted (h h' : Hint) (index : Nat) : (es : List Expr) →
    (∀ d ∈ Expr.outsideOf es, c.Maps d) → lowerElements c h index es = lowerElements c h' index es
  | [], _ => by rw [lowerElements, lowerElements]
  | e :: rest, mapped => by
    rw [Expr.outsideOf, List.forall_mem_append] at mapped
    have first := lowerExpr_unhinted (elementHint h index) (elementHint h' index) e mapped.1
    have later := lowerElements_unhinted h h' (index + 1) rest mapped.2
    rw [lowerElements, lowerElements, first, later]

end

end

/-- Own types go before hints. Where each literal and each parameter of an expression that is not below a call
has a type with a mapping, under the from clause there is, any two hints come to the same: the lowered
expression or the error, the slots in the ledger, and the types and events in the workspace. -/
theorem own_types_go_before_hints {c : Scope} {e : Expr} (mapped : ∀ d ∈ e.outside, c.Maps d)
    (h h' : Hint) (p : Progress) : lowerExpr c h e p = lowerExpr c h' e p := by
  rw [lowerExpr_unhinted h h' e mapped]

/-! The home of a person beside the larger of two limits, the first of which has no type of its own. -/
namespace Residing
open Model.Sample (model people address addressPath)

def largest : Callee := ⟨⟨"greatest", .highest, none, some .others, .standard⟩, .empty⟩

def scope : Scope := ⟨model, ⟨[.entity people "Person" ⟨"person", "p"⟩]⟩, fun _ => [], true⟩

def home : Occurrence := ⟨0, ⟨.named "home", some (.path addressPath), false⟩, none, none⟩

def limit : Occurrence := ⟨1, ⟨.named "limit", none, false⟩, none, none⟩

def limits : Expr := .call 1 largest [.parameter 2 limit, .literal 3 (.int 40) (.domain .integer)] none .none

def entry : Expr := .tuple 4 [.parameter 5 home, .tuple 6 [.literal 7 (.int 30) (.domain .integer)] .none,
  limits] .none

/-- A hint for too few elements and of other types than theirs does not show. -/
theorem entry_has_three_slots : ∃ e p, lowerExpr scope noHint entry ⟨.empty, .empty⟩ = .ok e p ∧
    lowerExpr scope (pure (some address)) entry ⟨.empty, .empty⟩ = .ok e p ∧
    p.ledger.entries.map (fun group => group.2.map Slot.type) =
      [[some .varchar, some .varchar], [some .integer]] := by
  have mapped : ∀ d ∈ entry.outside, scope.Maps d := by
    have nodes : entry.outside = [entry, .parameter 5 home,
      .tuple 6 [.literal 7 (.int 30) (.domain .integer)] .none,
      .literal 7 (.int 30) (.domain .integer), limits] := rfl
    rw [nodes]
    simp only [List.forall_mem_cons]
    exact ⟨trivial, ⟨_, _, rfl, rfl⟩, trivial, ⟨_, rfl⟩, trivial, by simp⟩
  have same := own_types_go_before_hints mapped (pure (some address)) noHint ⟨.empty, .empty⟩
  have lowered : lowerExpr scope noHint entry ⟨.empty, .empty⟩ = .ok _ _ := rfl
  exact ⟨_, _, lowered, same.trans lowered, rfl⟩

end Residing

end Lowering

end SemanticQuery
