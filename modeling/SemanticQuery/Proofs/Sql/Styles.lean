import Mathlib.Data.List.Flatten
import Mathlib.Data.List.Forall2
import SemanticQuery.Sql.Text

/-! How calls are written. Whatever a style makes of a name and a number of arguments, what is written comes
from its texts and from the arguments at the places it gives. The standard style gives all places in order,
a bare keyword none. -/
namespace SemanticQuery

theorem flatMap_range_getD {α : Type} (items : List (List α)) :
    (List.range items.length).flatMap (fun i => items[i]?.getD []) = items.flatten := by
  induction items with
  | nil => rfl
  | cons item rest ih =>
    rw [List.length_cons, List.range_succ_eq_map, List.flatMap_cons, List.flatMap_map, List.flatten_cons, ← ih]
    rfl

theorem flatMap_intersperse {α β : Type} (f : α → List β) (separator : α) (items : List α) :
    (items.intersperse separator).flatMap f = ((items.map f).intersperse (f separator)).flatten := by
  induction items with
  | nil => rfl
  | cons item rest ih =>
    cases rest with
    | nil => simp
    | cons next rest =>
      rw [List.intersperse_cons_cons, List.flatMap_cons, List.flatMap_cons, ih]
      simp

theorem flatten_intersperse_nil {α : Type} (items : List (List α)) :
    (items.intersperse []).flatten = items.flatten := by
  induction items with
  | nil => rfl
  | cons item rest ih =>
    cases rest with
    | nil => rfl
    | cons next rest => rw [List.intersperse_cons_cons, List.flatten_cons, List.flatten_cons, ih]; rfl

theorem forall₂_getD {α β : Type} {R : List α → List β → Prop} (none : R [] []) {items : List (List α)}
    {items' : List (List β)} (each : List.Forall₂ R items items') (i : Nat) :
    R (items[i]?.getD []) (items'[i]?.getD []) := by
  induction each generalizing i with
  | nil => exact none
  | cons first _ ih =>
    cases i with
    | zero => exact first
    | succ i => exact ih i

namespace CallStyle
variable {α β : Type}

theorem write_congr {style other : CallStyle} {name : String} {arguments : List (List α)}
    (same : style.parts name arguments.length = other.parts name arguments.length)
    (text : String → List α) : style.write text name arguments = other.write text name arguments := by
  rw [write, same, write]

theorem write_standard (text : String → List α) (name : String) (arguments : List (List α)) :
    standard.write text name arguments =
      text name ++ (text "(" ++ ((arguments.intersperse (text ", ")).flatten ++ text ")")) := by
  have listed : ((List.range arguments.length).map CallPart.argument).map (CallPart.fill text arguments) =
      arguments := by
    refine List.ext_getElem (by simp) fun i _ _ => ?_
    simp [CallPart.fill, *]
  simp only [write, standard, List.flatMap_cons, List.flatMap_append, flatMap_intersperse, listed,
    List.flatMap_nil, List.append_nil, CallPart.fill]

theorem write_keyword (text : String → List α) (name : String) (arguments : List (List α)) :
    keyword.write text name arguments = text name :=
  List.flatMap_singleton ..

/-- What holds of texts and of arguments, and of what they make together, holds of the call. -/
theorem write_related {R : List α → List β → Prop} (none : R [] [])
    (append : ∀ {l l' m m'}, R l l' → R m m' → R (l ++ m) (l' ++ m')) {text : String → List α}
    {text' : String → List β} (texts : ∀ t, R (text t) (text' t)) {arguments : List (List α)}
    {arguments' : List (List β)} (each : List.Forall₂ R arguments arguments') (style : CallStyle)
    (name : String) : R (style.write text name arguments) (style.write text' name arguments') := by
  rw [write, write, each.length_eq]
  induction style.parts name arguments'.length with
  | nil => exact none
  | cons part rest ih =>
    refine append ?_ ih
    cases part with
    | text t => exact texts t
    | argument index => exact forall₂_getD none each index

/-- The places of the arguments that are written, in the order they are written in. -/
def written (style : CallStyle) (name : String) (count : Nat) : List Nat :=
  style.write (fun _ => []) name ((List.range count).map ([·]))

theorem standard_written (name : String) (count : Nat) :
    standard.written name count = List.range count := by
  simp [written, write_standard, flatten_intersperse_nil, ← List.flatMap_def]

theorem keyword_written (name : String) (count : Nat) : keyword.written name count = [] := rfl

/-- Where texts come to nothing, the arguments at the written places are left. -/
theorem write_arguments (style : CallStyle) (name : String) (arguments : List (List α)) :
    style.write (fun _ => []) name arguments =
      (style.written name arguments.length).flatMap fun i => arguments[i]?.getD [] := by
  rw [written, write, write, List.length_map, List.length_range, List.flatMap_assoc]
  refine List.flatMap_congr fun part _ => ?_
  cases part with
  | text t => rfl
  | argument index =>
    by_cases below : index < arguments.length <;> simp [CallPart.fill, below]

theorem written_subset (style : CallStyle) (name : String) (count : Nat) :
    style.written name count ⊆ List.range count := by
  intro i mem
  obtain ⟨part, -, mem⟩ := List.mem_flatMap.mp mem
  cases part with
  | text t => contradiction
  | argument index =>
    by_cases below : index < count
    · simp only [CallPart.fill, List.getElem?_map, List.getElem?_range below, Option.map_some,
        Option.getD_some, List.mem_singleton] at mem
      exact List.mem_range.mpr (mem ▸ below)
    · simp [CallPart.fill, below] at mem

end CallStyle

namespace Sql

theorem itemPieces_eq_map (es : List Expr) : itemPieces es = es.map Expr.pieces := by
  induction es with
  | nil => rfl
  | cons e rest ih => rw [itemPieces, ih, List.map_cons]

theorem separated_eq_flatten (separator : String) (items : List (List Piece)) :
    separated separator items = (items.intersperse [.text separator]).flatten := by
  fun_induction separated separator items with
  | case1 => rfl
  | case2 item => exact (List.append_nil item).symm
  | case3 item rest several ih =>
    cases rest with
    | nil => contradiction
    | cons next rest => rw [ih, List.intersperse_cons_cons, List.flatten_cons, List.flatten_cons]; rfl

theorem standard_pieces (name : String) (items : List (List Piece)) :
    CallStyle.standard.write (fun t => [Piece.text t]) name items =
      .text name :: parenthesized (separated ", " items) := by
  rw [CallStyle.write_standard, separated_eq_flatten]
  rfl

end Sql

end SemanticQuery
