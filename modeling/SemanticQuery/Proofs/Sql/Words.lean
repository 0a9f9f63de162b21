import Mathlib.Algebra.Group.Nat.Even
import SemanticQuery.Lowering.Statement
import SemanticQuery.Proofs.Sql.Placeholders
import SemanticQuery.Proofs.Sql.Scanning

/-! The words of statements, and the question marks a database finds in their text. Names are written as they
are and literal values quoted, so the question marks are the placeholders, unless a character that is itself
a quote stands among the values. -/
namespace SemanticQuery.Sql

/-- What is written into a statement from outside of its syntax: names and the texts of call styles as they
are, and literal values. -/
inductive Word where
  | name (name : String)
  | literal (value : Value)

namespace Word

def Plain : Word → Prop
  | name n => Unmarked n.toList
  | literal v => v.Plain

def looseQuotes : Word → Nat
  | name _ => 0
  | literal v => v.looseQuotes

end Word

def looseQuotes : List Word → Nat
  | [] => 0
  | w :: rest => w.looseQuotes + looseQuotes rest

theorem looseQuotes_append (ws more : List Word) :
    looseQuotes (ws ++ more) = looseQuotes ws + looseQuotes more := by
  induction ws with
  | nil => exact (Nat.zero_add _).symm
  | cons w rest ih => rw [List.cons_append, looseQuotes, looseQuotes, ih, Nat.add_assoc]

theorem looseQuotes_names (names : List String) : looseQuotes (names.map Word.name) = 0 := by
  induction names with
  | nil => rfl
  | cons n rest ih => rw [List.map_cons, looseQuotes, ih, Word.looseQuotes]

/-! The words of a statement in the order they are written; arguments that a call leaves out are not. -/

mutual

def Expr.words : Expr → List Word
  | .column c => [.name c.qualifier, .name c.column]
  | .literal v _ => [.literal v]
  | .parameter _ => []
  | .call name style arguments _ _ => style.write (fun t => [.name t]) name (Expr.eachWords arguments)
  | .tuple elements => (Expr.eachWords elements).flatten

def Expr.eachWords : List Expr → List (List Word)
  | [] => []
  | e :: rest => e.words :: eachWords rest

end

def Expr.wordsOf (es : List Expr) : List Word := (Expr.eachWords es).flatten

mutual

def Predicate.words : Predicate → List Word
  | .comparison lhs _ rhs => lhs.words ++ rhs.words
  | .inList test items _ => test.words ++ Expr.wordsOf items
  | .and children | .or children => Predicate.wordsOf children
  | .not inner => inner.words
  | .isNull e _ => e.words

def Predicate.wordsOf : List Predicate → List Word
  | [] => []
  | p :: rest => p.words ++ wordsOf rest

end

def restrictionWords : Option Predicate → List Word
  | none => []
  | some p => p.words

def TableRef.words (t : TableRef) : List Word := [.name t.table, .name t.qualifier]

def TableGroup.words : TableGroup → List Word
  | .entity _ _ table => table.words
  | .values _ table _ _ _ =>
    table.rows.flatMap Expr.wordsOf ++ .name table.qualifier :: table.columns.map .name

def Assignment.words (a : Assignment) : List Word :=
  (a.columns.map ColumnRef.column).map .name ++ a.value.words

def Statement.words : Statement → List Word
  | .select s =>
    Expr.wordsOf (s.selections.map Selection.expr) ++ s.source.roots.flatMap TableGroup.words ++
      restrictionWords s.restriction
  | .update u =>
    u.target.words ++ u.assignments.flatMap Assignment.words ++ restrictionWords u.restriction
  | .delete d => d.target.words ++ restrictionWords d.restriction

/-- Pieces that have these words, in any order, and read as text with a mark for each placeholder. -/
def Spells (ws : List Word) (pieces : List Piece) : Prop :=
  (∀ w ∈ ws, w.Plain) →
    Reads (looseQuotes ws) (placeholders pieces).length (pieces.flatMap Piece.chars)

namespace Spells
variable {ws more : List Word} {pieces later : List Piece} {t : String}

theorem append (first : Spells ws pieces) (second : Spells more later) :
    Spells (ws ++ more) (pieces ++ later) := by
  intro plain
  rw [List.forall_mem_append] at plain
  rw [looseQuotes_append, placeholders_append, List.length_append, List.flatMap_append]
  exact (first plain.1).append (second plain.2)

theorem nil : Spells [] [] := fun _ => .nil

theorem of_text (spelled : (∀ w ∈ ws, w.Plain) → Reads (looseQuotes ws) 0 t.toList) :
    Spells ws [.text t] := by
  intro plain
  simpa [Piece.chars] using spelled plain

theorem text (unmarked : Unmarked t.toList) : Spells [] [.text t] :=
  of_text fun _ => .of_unmarked unmarked

theorem name (n : String) : Spells [.name n] [.text n] :=
  of_text fun plain => .of_unmarked (plain _ List.mem_cons_self)

theorem literal (v : Value) : Spells [.literal v] [.text v.toText] :=
  of_text fun plain => v.reads_toText (plain _ List.mem_cons_self)

theorem placeholder (n : Nat) : Spells [] [.placeholder n] := fun _ => .mark

theorem mark_cons (unmarked : Unmarked t.toList) (spells : Spells ws pieces) :
    Spells ws (.text t :: pieces) :=
  (text unmarked).append spells

theorem append_mark (spells : Spells ws pieces) (unmarked : Unmarked t.toList) :
    Spells ws (pieces ++ [.text t]) := by
  simpa only [List.append_nil] using spells.append (text unmarked)

theorem parenthesized (spells : Spells ws pieces) : Spells ws (parenthesized pieces) :=
  mark_cons (by decide) (spells.append_mark (by decide))

/-- Items behind a first one, with a separator before them where there are any. -/
theorem separated_cons {separator : String} {items : List (List Piece)}
    (between : Unmarked separator.toList) (first : Spells ws pieces)
    (rest : Spells more (separated separator items)) :
    Spells (ws ++ more) (separated separator (pieces :: items)) := by
  cases items with
  | nil => simpa only [separated, List.append_nil] using first.append rest
  | cons next items => exact first.append (mark_cons between rest)

theorem separated {separator : String} {words : List (List Word)} {items : List (List Piece)}
    (between : Unmarked separator.toList) (each : List.Forall₂ Spells words items) :
    Spells words.flatten (separated separator items) := by
  induction each with
  | nil => exact nil
  | cons first _ ih => exact separated_cons between first ih

theorem names {names : List String} (joined : (∀ n ∈ names, Unmarked n.toList) → Unmarked t.toList) :
    Spells (names.map Word.name) [.text t] := by
  refine of_text fun plain => ?_
  rw [looseQuotes_names]
  exact .of_unmarked (joined fun n mem => plain _ (List.mem_map_of_mem mem))

end Spells

theorem unmarked_intercalate {names : List String} (plain : ∀ n ∈ names, Unmarked n.toList) :
    Unmarked (String.intercalate ", " names).toList := by
  rw [String.toList_intercalate]
  induction names with
  | nil => decide
  | cons first rest ih =>
    rw [List.forall_mem_cons] at plain
    cases rest with
    | nil => simpa [List.intercalate] using plain.1
    | cons next rest => exact plain.1.append (Unmarked.append (by decide) (ih plain.2))

theorem unmarked_listed {names : List String} {opening : String} (opens : Unmarked opening.toList)
    (plain : ∀ n ∈ names, Unmarked n.toList) :
    Unmarked (opening ++ String.intercalate ", " names ++ ")").toList := by
  rw [String.toList_append, String.toList_append]
  exact .append (opens.append (unmarked_intercalate plain)) (by decide)

theorem ColumnRef.spells (c : ColumnRef) : Spells [.name c.qualifier, .name c.column] c.pieces := by
  unfold ColumnRef.pieces
  split
  next empty =>
    have unqualified : Spells [.name c.qualifier] [] := fun _ => .nil
    exact unqualified.append (.name c.column)
  next => exact (Spells.name c.qualifier).append (.mark_cons (by decide) (.name c.column))

mutual

theorem Expr.spells : (e : Expr) → Spells e.words e.pieces
  | .column c => c.spells
  | .literal v _ => .literal v
  | .parameter slot => .placeholder slot.number
  | .call name style arguments _ _ =>
    CallStyle.write_related .nil .append .name (Expr.each_spells arguments) style name
  | .tuple elements => (Spells.separated (by decide) (Expr.each_spells elements)).parenthesized

theorem Expr.each_spells : (es : List Expr) → List.Forall₂ Spells (eachWords es) (itemPieces es)
  | [] => .nil
  | e :: rest => .cons e.spells (Expr.each_spells rest)

end

theorem Expr.list_spells (es : List Expr) : Spells (wordsOf es) (listPieces es) :=
  .separated (by decide) (Expr.each_spells es)

theorem Comparison.unmarked_token (operator : Comparison) :
    Unmarked (" " ++ operator.token ++ " ").toList := by
  cases operator <;> decide

mutual

theorem Predicate.spells : (p : Predicate) → Spells p.words p.pieces
  | .comparison lhs operator rhs =>
    lhs.spells.append (.mark_cons (Comparison.unmarked_token operator) rhs.spells)
  | .inList test items negated => by
    have opening : Unmarked (if negated then " not in (" else " in (").toList := by
      cases negated <;> decide
    exact test.spells.append (.mark_cons opening ((Expr.list_spells items).append_mark (by decide)))
  | .and children => (Predicate.children_spell (by decide) children).parenthesized
  | .or children => (Predicate.children_spell (by decide) children).parenthesized
  | .not inner => .mark_cons (by decide) (inner.spells.append_mark (by decide))
  | .isNull e negated => by
    refine e.spells.append_mark ?_
    cases negated <;> decide

theorem Predicate.children_spell {separator : String} (between : Unmarked separator.toList) :
    (ps : List Predicate) → Spells (Predicate.wordsOf ps) (separated separator (childPieces ps))
  | [] => .nil
  | p :: rest => .separated_cons between p.spells (Predicate.children_spell between rest)

end

theorem restriction_spells (restriction : Option Predicate) :
    Spells (restrictionWords restriction) (restrictionPieces restriction) := by
  cases restriction with
  | none => exact .nil
  | some p => exact .mark_cons (by decide) p.spells

theorem TableRef.spells (t : TableRef) : Spells t.words t.pieces :=
  (Spells.name t.table).append (.mark_cons (by decide) (.name t.qualifier))

theorem separated_spells {α : Type} {separator : String} (between : Unmarked separator.toList)
    {wordsOf : α → List Word} {piecesOf : α → List Piece} (spells : ∀ a, Spells (wordsOf a) (piecesOf a))
    (items : List α) : Spells (items.flatMap wordsOf) (separated separator (items.map piecesOf)) := by
  induction items with
  | nil => exact .nil
  | cons item rest ih => exact .separated_cons between (spells item) ih

theorem TableGroup.spells (g : TableGroup) : Spells g.words g.pieces := by
  cases g with
  | entity path name table => exact table.spells
  | values path table mappings nested joins =>
    have rows : Spells (table.rows.flatMap Expr.wordsOf)
        (separated ", " (table.rows.map fun row => parenthesized (listPieces row))) :=
      separated_spells (by decide) (fun row => (Expr.list_spells row).parenthesized) table.rows
    have columns : Spells (table.columns.map .name)
        [.text (" (" ++ String.intercalate ", " table.columns ++ ")")] :=
      Spells.names (unmarked_listed (by decide))
    exact .mark_cons (by decide)
      (rows.append (.mark_cons (by decide) ((Spells.name table.qualifier).append columns)))

theorem FromClause.spells (f : FromClause) : Spells (f.roots.flatMap TableGroup.words) f.pieces := by
  unfold FromClause.pieces
  split
  next none =>
    rw [none]
    exact .nil
  next => exact .mark_cons (by decide) (separated_spells (by decide) TableGroup.spells f.roots)

theorem Assignment.spells (a : Assignment) : Spells a.words a.pieces := by
  refine (Spells.names ?_).append (.mark_cons (by decide) a.value.spells)
  intro plain
  split
  next c single => exact plain _ (by simp [single])
  next => exact unmarked_listed (by decide) plain

theorem Statement.spells (s : Statement) : Spells s.words s.pieces := by
  cases s with
  | select s =>
    exact .append (.append (.mark_cons (by decide) (Expr.list_spells _)) s.source.spells)
      (restriction_spells s.restriction)
  | update u =>
    have assigned : Spells (u.assignments.flatMap Assignment.words)
        (separated ", " (u.assignments.map Assignment.pieces)) :=
      separated_spells (by decide) Assignment.spells u.assignments
    exact .append (.append (.mark_cons (by decide) u.target.spells) (.mark_cons (by decide) assigned))
      (restriction_spells u.restriction)
  | delete d => exact .append (.mark_cons (by decide) d.target.spells) (restriction_spells d.restriction)

/-- A statement whose names and decimals hold neither quotes nor question marks: a scan of its text ends
outside of literals exactly where the characters among its values that are a quote are even in number, and
where there are none it meets exactly as many question marks as the text has placeholders. -/
theorem Statement.scan_render {s : Statement} (plain : ∀ w ∈ s.words, w.Plain) :
    ((scan s.render.sql).inside = false ↔ Even (looseQuotes s.words)) ∧
      (looseQuotes s.words = 0 → scan s.render.sql = ⟨false, s.render.slots.length⟩) := by
  have reads := s.spells plain
  have scanned : scan s.render.sql = (s.pieces.flatMap Piece.chars).foldl Scan.step ⟨false, 0⟩ :=
    scan_ofList _
  rw [scanned]
  constructor
  · rw [inside_foldl_step, reads.parity, Nat.even_iff]
    simp
  · intro none
    rw [reads.returns none, Nat.zero_add]
    rfl

namespace LoneQuote
open Query Lowering

/-- A quote compared with a parameter. -/
def statement : Query.Statement :=
  .select ⟨[], [], [],
    some (.comparison (.literal 0 (.char quote) (.basic ⟨"char", .character, .char⟩)) .equal
      (.parameter 1 ⟨0, ⟨.positional 1, none, false⟩, none, none⟩))⟩

def lowered : Statement :=
  .select ⟨.empty, [], [],
    some (.comparison (.literal (.char quote) .char) .equal (.parameter ⟨0, some .char⟩))⟩

/-- Three quotes in a row leave a literal open, and the placeholder behind them is read as part of it. -/
theorem quote_hides_placeholder :
    ∃ (ledger : Ledger) (source : FromClause) (w : Workspace),
      lowerStatement ⟨.empty, .empty⟩ true (fun _ => []) statement .empty =
          .ok ⟨lowered, ledger, source⟩ w ∧
        (∀ w ∈ lowered.words, w.Plain) ∧ lowered.render.slots = [0] ∧
        (scan lowered.render.sql).inside = true ∧ (scan lowered.render.sql).marks = 0 := by
  have plain : ∀ w ∈ lowered.words, w.Plain := by
    rintro w (_ | ⟨_, ⟨⟩⟩)
    trivial
  refine ⟨_, _, _, rfl, plain, rfl, ?_, ?_⟩
  · rw [← Bool.not_eq_false, (Statement.scan_render plain).1]
    decide
  · exact (congrArg Scan.marks (scan_ofList _)).trans (by decide)

end LoneQuote

end SemanticQuery.Sql
