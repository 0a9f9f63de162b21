import Mathlib.Data.List.Perm.Subperm
import SemanticQuery.Proofs.Sql.Styles

/-! The slots of relational trees, and the placeholders written for them. Text is written for every part of
a tree but the arguments that a call leaves out, so that what calls do with their arguments, to write each
of them once or to keep their order, is what becomes of the slots. -/
namespace SemanticQuery.Sql

mutual

/-- The slots in an expression from left to right. -/
def Expr.slots : Expr → List Nat
  | .column _ | .literal .. => []
  | .parameter slot => [slot.number]
  | .call _ _ arguments _ _ => Expr.slotsOf arguments
  | .tuple elements => Expr.slotsOf elements

def Expr.slotsOf : List Expr → List Nat
  | [] => []
  | e :: rest => e.slots ++ slotsOf rest

end

mutual

def Predicate.slots : Predicate → List Nat
  | .comparison lhs _ rhs => lhs.slots ++ rhs.slots
  | .inList test items _ => test.slots ++ Expr.slotsOf items
  | .and children | .or children => Predicate.slotsOf children
  | .not inner => inner.slots
  | .isNull e _ => e.slots

def Predicate.slotsOf : List Predicate → List Nat
  | [] => []
  | p :: rest => p.slots ++ slotsOf rest

end

def restrictionSlots : Option Predicate → List Nat
  | none => []
  | some p => p.slots

def TableGroup.slots : TableGroup → List Nat
  | .entity .. => []
  | .values _ table _ _ _ => table.rows.flatMap Expr.slotsOf

def FromClause.slots (f : FromClause) : List Nat := f.roots.flatMap TableGroup.slots

/-- The slots of a statement in the order it is written in. -/
def Statement.slots : Statement → List Nat
  | .select s =>
    Expr.slotsOf (s.selections.map Selection.expr) ++ s.source.slots ++ restrictionSlots s.restriction
  | .update u => Expr.slotsOf (u.assignments.map Assignment.value) ++ restrictionSlots u.restriction
  | .delete d => restrictionSlots d.restriction

theorem Expr.slotsOf_eq_flatMap (es : List Expr) : slotsOf es = es.flatMap slots := by
  induction es with
  | nil => rfl
  | cons e rest ih => rw [slotsOf, ih, List.flatMap_cons]

theorem Expr.slotsOf_append (es more : List Expr) :
    slotsOf (es ++ more) = slotsOf es ++ slotsOf more := by
  simp only [slotsOf_eq_flatMap, List.flatMap_append]

/-! Reading the placeholders off pieces. -/

def placeholders (pieces : List Piece) : List Nat := pieces.filterMap Piece.slot?

@[simp] theorem placeholders_nil : placeholders [] = [] := rfl

@[simp] theorem placeholders_text (t : String) (rest : List Piece) :
    placeholders (.text t :: rest) = placeholders rest := rfl

@[simp] theorem placeholders_append (pieces more : List Piece) :
    placeholders (pieces ++ more) = placeholders pieces ++ placeholders more :=
  List.filterMap_append

@[simp] theorem placeholders_separated (separator : String) (items : List (List Piece)) :
    placeholders (separated separator items) = items.flatMap placeholders := by
  fun_induction separated separator items with
  | case1 => rfl
  | case2 item => simp
  | case3 item rest _ ih => simp [ih]

@[simp] theorem placeholders_parenthesized (pieces : List Piece) :
    placeholders (parenthesized pieces) = placeholders pieces := by
  simp [parenthesized]

theorem placeholders_column (c : ColumnRef) : placeholders c.pieces = [] := by
  unfold ColumnRef.pieces
  split <;> rfl

theorem placeholders_write (style : CallStyle) (name : String) (items : List (List Piece)) :
    placeholders (style.write (fun t => [.text t]) name items) =
      style.write (fun _ => []) name (items.map placeholders) := by
  refine CallStyle.write_related (R := fun pieces slots => placeholders pieces = slots) rfl ?_ (fun _ => rfl)
    (List.forall₂_map_right_iff.mpr (List.forall₂_same.mpr fun _ _ => rfl)) style name
  rintro pieces _ more _ rfl rfl
  exact placeholders_append pieces more

namespace Expr

/-- The placeholders written for an expression. -/
def written (e : Expr) : List Nat := placeholders e.pieces

theorem items_written (es : List Expr) : (itemPieces es).map placeholders = es.map written := by
  rw [itemPieces_eq_map, List.map_map]
  rfl

theorem call_written (name : String) (style : CallStyle) (arguments : List Expr) (result : Option ExprType)
    (mapping : Option Mapping) :
    (call name style arguments result mapping).written =
      (style.written name arguments.length).flatMap fun i => (arguments.map written)[i]?.getD [] := by
  rw [written, pieces, placeholders_write, items_written, CallStyle.write_arguments, List.length_map]

theorem tuple_written (elements : List Expr) : (tuple elements).written = (elements.map written).flatten := by
  rw [written, pieces, placeholders_parenthesized, placeholders_separated, List.flatMap_def, items_written]

theorem slotsOf_eq_flatten (es : List Expr) : slotsOf es = (es.map slots).flatten := by
  rw [slotsOf_eq_flatMap, List.flatMap_def]

mutual

/-- Each call is written in a style that suits its name and the number of its arguments. -/
def Calls (P : (name : String) → CallStyle → (count : Nat) → Prop) : Expr → Prop
  | column _ | literal .. | parameter _ => True
  | call name style arguments _ _ => P name style arguments.length ∧ AllCall P arguments
  | tuple elements => AllCall P elements

def AllCall (P : (name : String) → CallStyle → (count : Nat) → Prop) : List Expr → Prop
  | [] => True
  | e :: rest => e.Calls P ∧ AllCall P rest

end

section
variable {P Q : (name : String) → CallStyle → (count : Nat) → Prop}

theorem allCall_iff {es : List Expr} : AllCall P es ↔ ∀ e ∈ es, e.Calls P := by
  induction es with
  | nil => simp [AllCall]
  | cons e rest ih => rw [AllCall, ih, List.forall_mem_cons]

mutual

theorem calls_of_forall (always : ∀ name style count, P name style count) : (e : Expr) → e.Calls P
  | column _ | literal .. | parameter _ => trivial
  | call name style arguments _ _ => ⟨always name style _, allCall_of_forall always arguments⟩
  | tuple elements => allCall_of_forall always elements

theorem allCall_of_forall (always : ∀ name style count, P name style count) : (es : List Expr) → AllCall P es
  | [] => trivial
  | e :: rest => ⟨calls_of_forall always e, allCall_of_forall always rest⟩

end

mutual

theorem Calls.imp (implies : ∀ name style count, P name style count → Q name style count) :
    (e : Expr) → e.Calls P → e.Calls Q
  | column _, _ | literal .., _ | parameter _, _ => trivial
  | call name style arguments _ _, calls => ⟨implies name style _ calls.1, AllCall.imp implies arguments calls.2⟩
  | tuple elements, calls => AllCall.imp implies elements calls

theorem AllCall.imp (implies : ∀ name style count, P name style count → Q name style count) :
    (es : List Expr) → AllCall P es → AllCall Q es
  | [], _ => trivial
  | e :: rest, calls => ⟨Calls.imp implies e calls.1, AllCall.imp implies rest calls.2⟩

end

end

/-- In each call, the places of the arguments that are written are so related to the places of them all. -/
abbrev Writes (R : List Nat → List Nat → Prop) (e : Expr) : Prop :=
  e.Calls fun name style count => R (style.written name count) (List.range count)

abbrev AllWrite (R : List Nat → List Nat → Prop) (es : List Expr) : Prop :=
  AllCall (fun name style count => R (style.written name count) (List.range count)) es

/-- No style writes more than the arguments. -/
theorem writes_subset (e : Expr) : e.Writes (· ⊆ ·) :=
  calls_of_forall (fun name style count => style.written_subset name count) e

/-- Neither style of the functions that every database provides writes an argument twice. -/
theorem writes_subperm {e : Expr} (calls : e.Calls fun _ style _ => style = .standard ∨ style = .keyword) :
    e.Writes List.Subperm := by
  refine Calls.imp ?_ e calls
  rintro name _ count (rfl | rfl)
  · rw [CallStyle.standard_written]
  · rw [CallStyle.keyword_written]
    exact List.nil_subperm

/-- Where bare keywords have no arguments, these styles write all arguments in order. -/
theorem writes_all {R : List Nat → List Nat → Prop} (same : ∀ places, R places places) {e : Expr}
    (calls : e.Calls fun _ style count => style = .standard ∨ style = .keyword ∧ count = 0) : e.Writes R := by
  refine Calls.imp ?_ e calls
  rintro name _ count (rfl | ⟨rfl, rfl⟩)
  · rw [CallStyle.standard_written]
    exact same _
  · exact same []

end Expr

/-- Relations of lists that carry over from places to what stands at the places. -/
structure Carries (R : List Nat → List Nat → Prop) : Prop where
  same (l : List Nat) : R l l
  flatMap {l l' : List Nat} {f g : Nat → List Nat} (places : R l l') (each : ∀ i, R (f i) (g i)) :
    R (l.flatMap f) (l'.flatMap g)

namespace Carries

theorem subset : Carries (· ⊆ ·) where
  same l := List.Subset.refl l
  flatMap places each := by
    intro n mem
    obtain ⟨i, place, mem⟩ := List.mem_flatMap.mp mem
    exact List.mem_flatMap.mpr ⟨i, places place, each i mem⟩

theorem subperm : Carries List.Subperm where
  same := List.Subperm.refl
  flatMap {l l' f g} places each := by
    have pointwise : (l'.flatMap f).Subperm (l'.flatMap g) := by
      clear places
      induction l' with
      | nil => exact .refl _
      | cons i rest ih => exact (each i).append ih
    obtain ⟨m, perm, sublist⟩ := places
    exact ((perm.symm.flatMap_right f).subperm.trans (sublist.flatMap f).subperm).trans pointwise

theorem perm : Carries List.Perm where
  same := List.Perm.refl
  flatMap places each := places.flatMap fun i _ => each i

theorem eq : Carries Eq where
  same _ := rfl
  flatMap places each := by rw [places, funext each]

variable {R : List Nat → List Nat → Prop}

theorem flatten (carries : Carries R) {items items' : List (List Nat)} (each : List.Forall₂ R items items') :
    R items.flatten items'.flatten := by
  rw [← flatMap_range_getD, ← flatMap_range_getD, each.length_eq]
  exact carries.flatMap (carries.same _) (forall₂_getD (carries.same []) each)

mutual

/-- What calls do with their arguments is done to the slots of the expression. -/
theorem written_slots (carries : Carries R) : (e : Expr) → e.Writes R → R e.written e.slots
  | .column c, _ => by
    rw [Expr.written, Expr.pieces, placeholders_column]
    exact carries.same []
  | .literal .., _ | .parameter _, _ => carries.same _
  | .call name style arguments _ _, writes => by
    rw [Expr.call_written, Expr.slots, Expr.slotsOf_eq_flatten, ← flatMap_range_getD, List.length_map]
    exact carries.flatMap writes.1 (forall₂_getD (carries.same []) (carries.written_slotsOf arguments writes.2))
  | .tuple elements, writes => by
    rw [Expr.tuple_written, Expr.slots, Expr.slotsOf_eq_flatten]
    exact carries.flatten (carries.written_slotsOf elements writes)

theorem written_slotsOf (carries : Carries R) : (es : List Expr) → Expr.AllWrite R es →
    List.Forall₂ R (es.map Expr.written) (es.map Expr.slots)
  | [], _ => .nil
  | e :: rest, writes => .cons (carries.written_slots e writes.1) (carries.written_slotsOf rest writes.2)

end

end Carries

/-! A statement is made of expressions. What it has of slots and of placeholders, it has of them, in order. -/

mutual

def Predicate.operands : Predicate → List Expr
  | .comparison lhs _ rhs => [lhs, rhs]
  | .inList test items _ => test :: items
  | .and children | .or children => Predicate.operandsOf children
  | .not inner => inner.operands
  | .isNull e _ => [e]

def Predicate.operandsOf : List Predicate → List Expr
  | [] => []
  | p :: rest => p.operands ++ operandsOf rest

end

def restrictionOperands : Option Predicate → List Expr
  | none => []
  | some p => p.operands

def TableGroup.operands : TableGroup → List Expr
  | .entity .. => []
  | .values _ table _ _ _ => table.rows.flatten

/-- The expressions of a statement in the order it is written in. -/
def Statement.operands : Statement → List Expr
  | .select s =>
    s.selections.map Selection.expr ++ s.source.roots.flatMap TableGroup.operands ++
      restrictionOperands s.restriction
  | .update u => u.assignments.map Assignment.value ++ restrictionOperands u.restriction
  | .delete d => restrictionOperands d.restriction

mutual

theorem Predicate.slots_eq : (p : Predicate) → p.slots = p.operands.flatMap Expr.slots
  | .comparison lhs _ rhs => by simp [slots, operands]
  | .inList test items _ => by simp [slots, operands, Expr.slotsOf_eq_flatMap]
  | .and children | .or children => slotsOf_eq children
  | .not inner => slots_eq inner
  | .isNull e _ => by simp [slots, operands]

theorem Predicate.slotsOf_eq :
    (ps : List Predicate) → Predicate.slotsOf ps = (Predicate.operandsOf ps).flatMap Expr.slots
  | [] => rfl
  | p :: rest => by rw [slotsOf, operandsOf, List.flatMap_append, slots_eq p, slotsOf_eq rest]

end

theorem TableGroup.slots_eq (g : TableGroup) : g.slots = g.operands.flatMap Expr.slots := by
  cases g with
  | entity path name table => rfl
  | values path table mappings nested joins =>
    rw [slots, operands, List.flatten_eq_flatMap, List.flatMap_assoc]
    exact List.flatMap_congr fun row _ => Expr.slotsOf_eq_flatMap row

theorem restrictionSlots_eq (restriction : Option Predicate) :
    restrictionSlots restriction = (restrictionOperands restriction).flatMap Expr.slots := by
  cases restriction with
  | none => rfl
  | some p => exact p.slots_eq

theorem Statement.slots_eq (s : Statement) : s.slots = s.operands.flatMap Expr.slots := by
  cases s with
  | select s =>
    have sources : s.source.slots = (s.source.roots.flatMap TableGroup.operands).flatMap Expr.slots := by
      rw [FromClause.slots, List.flatMap_assoc]
      exact List.flatMap_congr fun root _ => root.slots_eq
    simp only [slots, operands, List.flatMap_append, Expr.slotsOf_eq_flatMap, sources, restrictionSlots_eq]
  | update u => simp only [slots, operands, List.flatMap_append, Expr.slotsOf_eq_flatMap, restrictionSlots_eq]
  | delete d => exact restrictionSlots_eq d.restriction

theorem Expr.list_written (es : List Expr) : placeholders (listPieces es) = es.flatMap written := by
  rw [listPieces, placeholders_separated, List.flatMap_def, items_written, List.flatMap_def]

mutual

theorem Predicate.placeholders_eq : (p : Predicate) → placeholders p.pieces = p.operands.flatMap Expr.written
  | .comparison lhs _ rhs => by simp [pieces, operands, Expr.written]
  | .inList test items _ => by simp [pieces, operands, Expr.list_written, Expr.written]
  | .and children | .or children => by
    simpa only [pieces, operands, placeholders_parenthesized, placeholders_separated] using children_eq children
  | .not inner => by simpa [pieces, operands] using placeholders_eq inner
  | .isNull e _ => by simp [pieces, operands, Expr.written]

theorem Predicate.children_eq : (ps : List Predicate) →
    (childPieces ps).flatMap placeholders = (Predicate.operandsOf ps).flatMap Expr.written
  | [] => rfl
  | p :: rest => by
    rw [childPieces, List.flatMap_cons, operandsOf, List.flatMap_append, placeholders_eq p, children_eq rest]

end

theorem restriction_placeholders (restriction : Option Predicate) :
    placeholders (restrictionPieces restriction) =
      (restrictionOperands restriction).flatMap Expr.written := by
  cases restriction with
  | none => rfl
  | some p => exact p.placeholders_eq

theorem TableGroup.placeholders_eq (g : TableGroup) :
    placeholders g.pieces = g.operands.flatMap Expr.written := by
  cases g with
  | entity path name table => rfl
  | values path table mappings nested joins =>
    have rows : (table.rows.map fun row => parenthesized (listPieces row)).flatMap placeholders =
        table.rows.flatten.flatMap Expr.written := by
      rw [List.flatMap_map, List.flatten_eq_flatMap, List.flatMap_assoc]
      refine List.flatMap_congr fun row _ => ?_
      rw [placeholders_parenthesized, Expr.list_written, id]
    simpa [pieces, ValuesTable.pieces, operands] using rows

theorem FromClause.placeholders_eq (f : FromClause) :
    placeholders f.pieces = (f.roots.flatMap TableGroup.operands).flatMap Expr.written := by
  unfold pieces
  split
  next none => rw [none]; rfl
  next =>
    rw [placeholders_text, placeholders_separated, List.flatMap_map, List.flatMap_assoc]
    exact List.flatMap_congr fun root _ => root.placeholders_eq

theorem Assignment.placeholders_eq (a : Assignment) : placeholders a.pieces = a.value.written := by
  simp [pieces, Expr.written]

theorem Statement.placeholders_eq (s : Statement) : s.render.slots = s.operands.flatMap Expr.written := by
  change placeholders s.pieces = _
  cases s with
  | select s =>
    simp only [pieces, operands, placeholders_append, placeholders_text, List.flatMap_append,
      Expr.list_written, FromClause.placeholders_eq, restriction_placeholders]
  | update u =>
    have assigned : (u.assignments.map Assignment.pieces).flatMap placeholders =
        (u.assignments.map Assignment.value).flatMap Expr.written := by
      rw [List.flatMap_map, List.flatMap_map]
      exact List.flatMap_congr fun a _ => a.placeholders_eq
    simp [pieces, operands, TableRef.pieces, assigned, restriction_placeholders]
  | delete d => simp [pieces, operands, TableRef.pieces, restriction_placeholders]

/-- What all calls of a statement do with their arguments is done to its slots. -/
theorem Statement.placeholders_related {R : List Nat → List Nat → Prop} (carries : Carries R) (s : Statement)
    (writes : ∀ e ∈ s.operands, e.Writes R) : R s.render.slots s.slots := by
  rw [placeholders_eq, slots_eq, List.flatMap_def, List.flatMap_def]
  exact carries.flatten (carries.written_slotsOf s.operands (Expr.allCall_iff.mpr writes))

/-- The placeholders of a statement are slots of it. -/
theorem Statement.placeholders_subset (s : Statement) : s.render.slots ⊆ s.slots :=
  s.placeholders_related .subset fun e _ => e.writes_subset

end SemanticQuery.Sql
