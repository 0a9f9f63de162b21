import SemanticQuery.Lowering.Expr
import SemanticQuery.Proofs.Outcome

/-! Slot allocation as a property of lowering steps. A step that succeeds adds groups of consecutive
numbers at the end of the ledger, and what it returns is related to the groups it added. -/
namespace SemanticQuery.Lowering
open Query

/-- Slot groups with the occurrences they were allocated for, in order. -/
abbrev Groups := List (OccurrenceId × List Slot)

def numbers (gs : Groups) : List Nat := gs.flatMap fun g => g.2.map Slot.number

theorem numbers_append (gs more : Groups) : numbers (gs ++ more) = numbers gs ++ numbers more :=
  List.flatMap_append

structure Ledger.Extends (before after : Ledger) (added : Groups) : Prop where
  entries : after.entries = before.entries ++ added
  consecutive : numbers added = List.range' before.next (numbers added).length
  next : after.next = before.next + (numbers added).length

namespace Ledger.Extends
variable {first middle last : Ledger} {gs more : Groups}

theorem refl (l : Ledger) : l.Extends l [] := ⟨by simp, rfl, rfl⟩

theorem trans (start : first.Extends middle gs) (later : middle.Extends last more) :
    first.Extends last (gs ++ more) where
  entries := by rw [later.entries, start.entries, List.append_assoc]
  consecutive := by
    rw [numbers_append, List.length_append, ← List.range'_append_1, ← start.next, ← start.consecutive,
      ← later.consecutive]
  next := by rw [later.next, start.next, numbers_append, List.length_append, Nat.add_assoc]

end Ledger.Extends

def Allocates {α : Type} (post : α → Groups → Prop) (m : LowerM α) : Prop :=
  ∀ ⦃p a p'⦄, m p = .ok a p' → ∃ added, p.ledger.Extends p'.ledger added ∧ post a added

/-- A step that allocates nothing. -/
abbrev Silent {α : Type} (m : LowerM α) : Prop := Allocates (fun _ added => added = []) m

variable {α β : Type} {post before : α → Groups → Prop} {after : β → Groups → Prop}
  {m : LowerM α} {f : α → LowerM β}

namespace Allocates

theorem pure {a : α} (holds : post a []) : Allocates post (pure a) := by
  intro p a p' run
  cases run
  exact ⟨[], .refl _, holds⟩

theorem throw (e : LoweringError) : Allocates post (throw e) := by
  intro p a p' run
  contradiction

theorem bind (first : Allocates before m)
    (later : ∀ a gs, before a gs → Allocates (fun b more => after b (gs ++ more)) (f a)) :
    Allocates after (m >>= f) := by
  intro p b p'' run
  obtain ⟨a, p', ran, run⟩ := run_bind_ok.mp run
  obtain ⟨gs, grown, holds⟩ := first ran
  obtain ⟨more, grownLater, holdsLater⟩ := later a gs holds run
  exact ⟨gs ++ more, grown.trans grownLater, holdsLater⟩

theorem imp {weaker : α → Groups → Prop} (allocates : Allocates post m)
    (implies : ∀ a gs, post a gs → weaker a gs) : Allocates weaker m := by
  intro p a p' run
  obtain ⟨added, grown, holds⟩ := allocates run
  exact ⟨added, grown, implies a added holds⟩

end Allocates

namespace Silent

/-- Groups are those of what follows a silent step. -/
theorem bind (first : Silent m) (later : ∀ a, Allocates after (f a)) : Allocates after (m >>= f) := by
  refine Allocates.bind first ?_
  rintro a _ rfl
  exact later a

theorem pure (a : α) : Silent (pure a) := Allocates.pure rfl

theorem of_ledger (kept : ∀ p a p', m p = .ok a p' → p'.ledger = p.ledger) : Silent m := by
  intro p a p' run
  exact ⟨[], kept p a p' run ▸ .refl _, rfl⟩

theorem liftMapping (x : Except MappingError α) : Silent (liftMapping x) := by
  cases x with
  | ok a => exact .pure a
  | error e => exact Allocates.throw _

/-- What follows a lookup may rely on what was found. -/
theorem lookup_bind {x : Except MappingError α} (later : ∀ a, x = .ok a → Allocates after (f a)) :
    Allocates after (Lowering.liftMapping x >>= f) := by
  intro p b p'' run
  obtain ⟨a, p', ran, run⟩ := run_bind_ok.mp run
  cases x with
  | ok found =>
    cases ran
    exact later a rfl run
  | error e => contradiction

theorem liftFunction (x : Except FunctionError α) : Silent (liftFunction x) := by
  cases x with
  | ok a => exact .pure a
  | error e => exact Allocates.throw _

theorem runTyping (x : TypingM α) : Silent (runTyping x) := by
  refine of_ledger fun p a p' run => ?_
  simp only [Lowering.runTyping] at run
  split at run
  · cases run
    rfl
  · contradiction

theorem runHint (h : Hint) : Silent (runHint h) := by
  refine of_ledger fun p a p' run => ?_
  cases run
  rfl

theorem report (e : Event) : Silent (report e) := by
  refine of_ledger fun p a p' run => ?_
  cases run
  rfl

end Silent

/-- What is written for an occurrence without a mapping of its own. -/
def lowerHinted (c : Scope) (h : Hint) (o : Occurrence) : LowerM Sql.Expr := do
  match ← runHint h with
  | some m =>
    let group ← allocate o.id (m.columnTypes.map some)
    return .ofSlots group
  | none =>
    if c.strict then throw (.untypedParameter o.key.text)
    else
      let group ← allocate o.id [none]
      return .ofSlots group

/-- What the mapping of a column of inline rows is checked for. -/
def singleColumn (column : String) : Option Mapping → LowerM (Option Mapping)
  | some m =>
    if m.columnCount = 1 then return some m
    else throw (.mapping (.multiColumnValues column m.text))
  | none => return none

theorem numbers_numberSlots (id : OccurrenceId) (n : Nat) (types : List (Option ColumnType)) :
    numbers [(id, numberSlots n types)] = List.range' n types.length := by
  simp only [numbers, List.flatMap_cons, List.flatMap_nil, List.append_nil]
  induction types generalizing n with
  | nil => rfl
  | cons type rest ih => simp only [numberSlots, List.map_cons, ih, List.length_cons, List.range'_succ]

theorem types_numberSlots (n : Nat) (types : List (Option ColumnType)) :
    (numberSlots n types).map Slot.type = types := by
  induction types generalizing n with
  | nil => rfl
  | cons type rest ih => rw [numberSlots, List.map_cons, ih]

theorem allocate_allocates (id : OccurrenceId) (types : List (Option ColumnType)) :
    Allocates (fun group added => added = [(id, group)] ∧ group.map Slot.type = types)
      (allocate id types) := by
  intro p group p' run
  cases run
  refine ⟨_, ⟨rfl, ?_, ?_⟩, rfl, types_numberSlots _ _⟩
  all_goals simp only [numbers_numberSlots, List.length_range']

end SemanticQuery.Lowering
