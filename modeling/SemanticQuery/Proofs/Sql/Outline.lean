import SemanticQuery.Proofs.Sql.Styles

/-! The outline of a predicate: the tests and connectives it is made of, over leaves that are known by their
texts. It is all that the text of a predicate is written from. -/
namespace SemanticQuery.Sql

/-- Calls and tuples over leaves: columns, literals, placeholders, and calls that are written in another way
than with their arguments in parentheses, such as bare keywords. -/
inductive Term where
  | leaf (text : List Char)
  | call (name : List Char) (arguments : List Term)
  | tuple (elements : List Term)

/-- What a test asks of its operand. -/
inductive Check where
  | compare (operator : Comparison) (rhs : Term)
  | oneOf (items : List Term) (negated : Bool)
  | null (negated : Bool)

inductive Connective where
  | all
  | any
  deriving DecidableEq

inductive Clause where
  | test (operand : Term) (check : Check)
  | junction (connective : Connective) (children : List Clause)
  | not (inner : Clause)

mutual

def Expr.outline : Expr → Term
  | .column c => .leaf (c.pieces.flatMap Piece.chars)
  | .literal v _ => .leaf v.toText.toList
  | .parameter _ => .leaf ['?']
  | .call name style arguments result mapping =>
    if style.parts name arguments.length = CallStyle.standard.parts name arguments.length then
      .call name.toList (Expr.outlines arguments)
    else .leaf ((Expr.call name style arguments result mapping).pieces.flatMap Piece.chars)
  | .tuple elements => .tuple (Expr.outlines elements)

def Expr.outlines : List Expr → List Term
  | [] => []
  | e :: rest => e.outline :: Expr.outlines rest

end

section
variable (name : String) (arguments : List Expr) (result : Option ExprType) (mapping : Option Mapping)

@[simp] theorem Expr.outline_standard :
    (Expr.call name .standard arguments result mapping).outline =
      .call name.toList (Expr.outlines arguments) := by
  rw [Expr.outline, if_pos rfl]

@[simp] theorem Expr.outline_keyword :
    (Expr.call name .keyword arguments result mapping).outline = .leaf name.toList := by
  have apart : CallStyle.keyword.parts name arguments.length ≠
      CallStyle.standard.parts name arguments.length := by
    simp [CallStyle.keyword, CallStyle.standard]
  rw [Expr.outline, if_neg apart, Expr.pieces, CallStyle.write_keyword]
  exact congrArg Term.leaf (List.append_nil _)

end

mutual

def Predicate.outline : Predicate → Clause
  | .comparison lhs operator rhs => .test lhs.outline (.compare operator rhs.outline)
  | .inList test items negated => .test test.outline (.oneOf (Expr.outlines items) negated)
  | .and children => .junction .all (Predicate.outlines children)
  | .or children => .junction .any (Predicate.outlines children)
  | .not inner => .not inner.outline
  | .isNull e negated => .test e.outline (.null negated)

def Predicate.outlines : List Predicate → List Clause
  | [] => []
  | p :: rest => p.outline :: Predicate.outlines rest

end

/-! The text of an outline. -/

/-- Items with a separator before each. -/
def following (separator : List Char) : List (List Char) → List Char
  | [] => []
  | item :: rest => separator ++ (item ++ following separator rest)

def joined (separator : List Char) : List (List Char) → List Char
  | [] => []
  | item :: rest => item ++ following separator rest

def enclosed (text : List Char) : List Char := '(' :: (text ++ [')'])

mutual

def Term.chars : Term → List Char
  | .leaf text => text
  | .call name arguments => name ++ enclosed (joined [',', ' '] (Term.charsOf arguments))
  | .tuple elements => enclosed (joined [',', ' '] (Term.charsOf elements))

def Term.charsOf : List Term → List (List Char)
  | [] => []
  | t :: rest => t.chars :: Term.charsOf rest

end

def Check.chars : Check → List Char
  | .compare operator rhs => ' ' :: (operator.token.toList ++ ' ' :: rhs.chars)
  | .oneOf items negated =>
    (if negated then " not in " else " in ").toList ++ enclosed (joined [',', ' '] (Term.charsOf items))
  | .null negated => (if negated then " is not null" else " is null").toList

def Connective.word : Connective → List Char
  | .all => "and ".toList
  | .any => "or ".toList

mutual

def Clause.chars : Clause → List Char
  | .test operand check => operand.chars ++ check.chars
  | .junction connective children => enclosed (joined (' ' :: connective.word) (Clause.charsOf children))
  | .not inner => "not ".toList ++ enclosed inner.chars

def Clause.charsOf : List Clause → List (List Char)
  | [] => []
  | c :: rest => c.chars :: Clause.charsOf rest

end

theorem Term.charsOf_eq_map (ts : List Term) : Term.charsOf ts = ts.map Term.chars := by
  induction ts with
  | nil => rfl
  | cons t rest ih => rw [charsOf, ih, List.map_cons]

theorem Clause.charsOf_eq_map (cs : List Clause) : Clause.charsOf cs = cs.map Clause.chars := by
  induction cs with
  | nil => rfl
  | cons c rest ih => rw [charsOf, ih, List.map_cons]

/-! Predicates are written as their outlines are. -/

theorem chars_separated (separator : String) (items : List (List Piece)) :
    (separated separator items).flatMap Piece.chars =
      joined separator.toList (items.map (List.flatMap Piece.chars)) := by
  induction items with
  | nil => rfl
  | cons item rest ih =>
    cases rest with
    | nil => simp [separated, joined, following]
    | cons next others =>
      simp only [separated, List.flatMap_append, List.flatMap_cons, ih, List.map_cons, joined, following,
        Piece.chars]

theorem chars_parenthesized (pieces : List Piece) :
    (parenthesized pieces).flatMap Piece.chars = enclosed (pieces.flatMap Piece.chars) := by
  simp [parenthesized, enclosed, Piece.chars]

mutual

theorem Expr.chars_outline : (e : Expr) → e.pieces.flatMap Piece.chars = e.outline.chars
  | .column _ => rfl
  | .literal .. | .parameter _ => List.append_nil _
  | .call name style arguments _ _ => by
    rw [Expr.outline]
    split
    next same =>
      have count : (itemPieces arguments).length = arguments.length := by
        rw [itemPieces_eq_map, List.length_map]
      rw [Expr.pieces, CallStyle.write_congr (count.symm ▸ same), standard_pieces, List.flatMap_cons,
        chars_parenthesized, chars_separated, Expr.chars_outlines]
      rfl
    next => rfl
  | .tuple elements => by
    rw [Expr.pieces, chars_parenthesized, chars_separated, Expr.chars_outlines]
    rfl

theorem Expr.chars_outlines : (es : List Expr) →
    (itemPieces es).map (List.flatMap Piece.chars) = Term.charsOf (Expr.outlines es)
  | [] => rfl
  | e :: rest => by
    rw [itemPieces, List.map_cons, Expr.chars_outline e, Expr.chars_outlines rest]
    rfl

end

mutual

theorem Predicate.chars_outline : (p : Predicate) → p.pieces.flatMap Piece.chars = p.outline.chars
  | .comparison lhs operator rhs => by
    simp [Predicate.pieces, Predicate.outline, Clause.chars, Check.chars, Expr.chars_outline, Piece.chars]
  | .inList test items negated => by
    have listed : (listPieces items).flatMap Piece.chars =
        joined [',', ' '] (Term.charsOf (Expr.outlines items)) := by
      rw [listPieces, chars_separated, Expr.chars_outlines]
      rfl
    cases negated <;>
      simp [Predicate.pieces, Predicate.outline, Clause.chars, Check.chars, Expr.chars_outline, Piece.chars,
        listed, enclosed]
  | .and children | .or children => by
    rw [Predicate.pieces, chars_parenthesized, chars_separated, Predicate.chars_outlines]
    rfl
  | .not inner => by
    simp [Predicate.pieces, Predicate.outline, Clause.chars, Predicate.chars_outline inner, Piece.chars,
      enclosed]
  | .isNull e negated => by
    simp [Predicate.pieces, Predicate.outline, Clause.chars, Check.chars, Expr.chars_outline, Piece.chars]

theorem Predicate.chars_outlines : (ps : List Predicate) →
    (childPieces ps).map (List.flatMap Piece.chars) = Clause.charsOf (Predicate.outlines ps)
  | [] => rfl
  | p :: rest => by
    rw [childPieces, List.map_cons, Predicate.chars_outline p, Predicate.chars_outlines rest]
    rfl

end

end SemanticQuery.Sql
