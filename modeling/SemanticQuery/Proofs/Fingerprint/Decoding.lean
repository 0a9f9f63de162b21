import SemanticQuery.Proofs.Fingerprint.PrefixFree
import SemanticQuery.Proofs.Fingerprint.Skeleton
import SemanticQuery.Proofs.Names

/-! Unique decoding of fingerprints. The encoding of skeletons is prefix-free, so the bytes hashed for
a statement determine its skeleton. Lengths and identities must fit the 32 bits they are written in. -/
namespace SemanticQuery.Fingerprint
open Query Binding

def TypeMark.Fits (m : TypeMark) : Prop := FitsText m.text

structure ParameterMark.Fits (m : ParameterMark) : Prop where
  key : FitsText m.key.text
  anticipated : FitsOption TypeMark.Fits m.anticipated
  declared : FitsOption TypeMark.Fits m.declared
  expansions : FitsList (FitsOption TypeMark.Fits) m.expansions

mutual

def ExprSkeleton.Fits : ExprSkeleton → Prop
  | .literal type _ text => type.Fits ∧ FitsText text
  | .parameter mark => mark.Fits
  | .path p _ => FitsText p.text
  | .call name implied arguments =>
    FitsText name ∧ FitsOption TypeMark.Fits implied ∧ arguments.length < wordLimit ∧
      ExprSkeleton.FitsAll arguments
  | .tuple elements => elements.length < wordLimit ∧ ExprSkeleton.FitsAll elements

def ExprSkeleton.FitsAll : List ExprSkeleton → Prop
  | [] => True
  | e :: rest => e.Fits ∧ ExprSkeleton.FitsAll rest

end

mutual

def PredicateSkeleton.Fits : PredicateSkeleton → Prop
  | .comparison lhs _ rhs => lhs.Fits ∧ rhs.Fits
  | .inList test items _ => test.Fits ∧ items.length < wordLimit ∧ ExprSkeleton.FitsAll items
  | .and children | .or children =>
    children.length < wordLimit ∧ PredicateSkeleton.FitsAll children
  | .not inner => inner.Fits
  | .isNull e _ => e.Fits

def PredicateSkeleton.FitsAll : List PredicateSkeleton → Prop
  | [] => True
  | p :: rest => p.Fits ∧ PredicateSkeleton.FitsAll rest

end

def FitsRow (row : List ExprSkeleton) : Prop :=
  row.length < wordLimit ∧ ExprSkeleton.FitsAll row

structure FitsRoot (root : Root) : Prop where
  entity : FitsText root.entity
  path : FitsText root.path.text

structure ValuesSkeleton.Fits (v : ValuesSkeleton) : Prop where
  path : FitsText v.path.text
  columns : FitsList FitsText v.columns
  rows : FitsList FitsRow v.rows

structure SelectionSkeleton.Fits (s : SelectionSkeleton) : Prop where
  expr : s.expr.Fits
  label : FitsOption FitsText s.label

structure AssignmentSkeleton.Fits (a : AssignmentSkeleton) : Prop where
  target : FitsText a.target.text
  value : a.value.Fits

/-- Every text and every list written for the statement is shorter than `2 ^ 32`. -/
def StatementSkeleton.Fits : StatementSkeleton → Prop
  | .select roots values selections restriction =>
    FitsList FitsRoot roots ∧ FitsList ValuesSkeleton.Fits values ∧
      FitsList SelectionSkeleton.Fits selections ∧ FitsOption PredicateSkeleton.Fits restriction
  | .update target assignments restriction =>
    FitsRoot target ∧ FitsList AssignmentSkeleton.Fits assignments ∧
      FitsOption PredicateSkeleton.Fits restriction
  | .delete target restriction => FitsRoot target ∧ FitsOption PredicateSkeleton.Fits restriction

/-! Leaves. -/

theorem mark_prefixFree : PrefixFree TypeMark.Fits TypeMark.bytes := by
  intro m n rest others fits fits' same
  simp only [TypeMark.bytes, List.append_assoc] at same
  obtain ⟨kinds, same⟩ := kind_prefixFree trivial trivial same
  obtain ⟨texts, rests⟩ := text_prefixFree fits fits' same
  exact ⟨TypeMark.ext kinds texts, rests⟩

theorem path_prefixFree : PrefixFree (fun p : Path => FitsText p.text) fun p => ofText p.text := by
  intro p q rest others fitsP fitsQ same
  obtain ⟨texts, rests⟩ := text_prefixFree fitsP fitsQ same
  exact ⟨Path.text_injective texts, rests⟩

theorem key_prefixFree : PrefixFree (fun k : ParameterKey => FitsText k.text) fun k => ofText k.text := by
  intro k l rest others fitsK fitsL same
  obtain ⟨texts, rests⟩ := text_prefixFree fitsK fitsL same
  exact ⟨ParameterKey.text_injective texts, rests⟩

theorem comparison_injective {a b : Comparison} (same : ofComparison a = ofComparison b) : a = b := by
  cases a <;> cases b <;> first | rfl | exact absurd same (by decide)

theorem parameterMark_prefixFree : PrefixFree ParameterMark.Fits ParameterMark.bytes := by
  intro m n rest others fits fits' same
  simp only [ParameterMark.bytes, List.append_assoc] at same
  obtain ⟨keys, same⟩ := key_prefixFree fits.key fits'.key same
  obtain ⟨ids, same⟩ := word_prefixFree m.id.toNat_lt n.id.toNat_lt same
  obtain ⟨anticipated, same⟩ := option_prefixFree mark_prefixFree fits.anticipated
    fits'.anticipated same
  obtain ⟨declared, same⟩ := option_prefixFree mark_prefixFree fits.declared fits'.declared same
  obtain ⟨flags, same⟩ := bool_prefixFree trivial trivial same
  obtain ⟨expansions, rests⟩ := list_prefixFree (option_prefixFree mark_prefixFree) fits.expansions
    fits'.expansions same
  exact ⟨ParameterMark.ext keys (UInt32.toNat_inj.mp ids) anticipated declared flags expansions, rests⟩

/-! Expressions. A tag tells the constructors apart; a list is as long as the number before it. -/

mutual

theorem expr_prefixFree : (a b : ExprSkeleton) → (rest others : Bytes) → a.Fits → b.Fits →
    a.bytes ++ rest = b.bytes ++ others → a = b ∧ rest = others
  | .literal type kind text, b, rest, others, fits, fits', same => by
    simp only [ExprSkeleton.bytes, List.cons_append, List.append_assoc] at same
    cases b with
    | literal type' kind' text' =>
      simp only [ExprSkeleton.bytes, List.cons_append, List.append_assoc, List.cons.injEq,
        true_and] at same
      simp only [ExprSkeleton.Fits] at fits fits'
      obtain ⟨marks, same⟩ := mark_prefixFree fits.1 fits'.1 same
      obtain ⟨kinds, same⟩ := kind_prefixFree trivial trivial same
      obtain ⟨texts, rests⟩ := text_prefixFree fits.2 fits'.2 same
      exact ⟨by rw [marks, kinds, texts], rests⟩
    | _ => exact absurd (List.cons.inj same).1 (by decide)
  | .parameter mark, b, rest, others, fits, fits', same => by
    simp only [ExprSkeleton.bytes, List.cons_append] at same
    cases b with
    | parameter mark' =>
      simp only [ExprSkeleton.bytes, List.cons_append, List.cons.injEq, true_and] at same
      simp only [ExprSkeleton.Fits] at fits fits'
      obtain ⟨marks, rests⟩ := parameterMark_prefixFree fits fits' same
      exact ⟨by rw [marks], rests⟩
    | _ => exact absurd (List.cons.inj same).1 (by decide)
  | .path p kind, b, rest, others, fits, fits', same => by
    simp only [ExprSkeleton.bytes, List.cons_append, List.append_assoc] at same
    cases b with
    | path p' kind' =>
      simp only [ExprSkeleton.bytes, List.cons_append, List.append_assoc, List.cons.injEq,
        true_and] at same
      simp only [ExprSkeleton.Fits] at fits fits'
      obtain ⟨paths, same⟩ := path_prefixFree fits fits' same
      obtain ⟨kinds, rests⟩ := kind_prefixFree trivial trivial same
      exact ⟨by rw [paths, kinds], rests⟩
    | _ => exact absurd (List.cons.inj same).1 (by decide)
  | .call name implied arguments, b, rest, others, fits, fits', same => by
    simp only [ExprSkeleton.bytes, List.cons_append, List.append_assoc] at same
    cases b with
    | call name' implied' arguments' =>
      simp only [ExprSkeleton.bytes, List.cons_append, List.append_assoc, List.cons.injEq,
        true_and] at same
      simp only [ExprSkeleton.Fits] at fits fits'
      obtain ⟨texts, same⟩ := text_prefixFree fits.1 fits'.1 same
      obtain ⟨options, same⟩ := option_prefixFree mark_prefixFree fits.2.1 fits'.2.1 same
      obtain ⟨length, same⟩ := word_prefixFree fits.2.2.1 fits'.2.2.1 same
      obtain ⟨lists, rests⟩ := exprs_prefixFree arguments arguments' rest others fits.2.2.2
        fits'.2.2.2 length same
      exact ⟨by rw [texts, options, lists], rests⟩
    | _ => exact absurd (List.cons.inj same).1 (by decide)
  | .tuple elements, b, rest, others, fits, fits', same => by
    simp only [ExprSkeleton.bytes, List.cons_append, List.append_assoc] at same
    cases b with
    | tuple elements' =>
      simp only [ExprSkeleton.bytes, List.cons_append, List.append_assoc, List.cons.injEq,
        true_and] at same
      simp only [ExprSkeleton.Fits] at fits fits'
      obtain ⟨length, same⟩ := word_prefixFree fits.1 fits'.1 same
      obtain ⟨lists, rests⟩ := exprs_prefixFree elements elements' rest others fits.2 fits'.2
        length same
      exact ⟨by rw [lists], rests⟩
    | _ => exact absurd (List.cons.inj same).1 (by decide)

theorem exprs_prefixFree : (as bs : List ExprSkeleton) → (rest others : Bytes) →
    ExprSkeleton.FitsAll as → ExprSkeleton.FitsAll bs → as.length = bs.length →
    ExprSkeleton.bytesOf as ++ rest = ExprSkeleton.bytesOf bs ++ others → as = bs ∧ rest = others
  | [], [], _, _, _, _, _, same => ⟨rfl, same⟩
  | a :: as, b :: bs, rest, others, fits, fits', length, same => by
    simp only [ExprSkeleton.FitsAll] at fits fits'
    simp only [ExprSkeleton.bytesOf, List.append_assoc] at same
    obtain ⟨exprs, tails⟩ := expr_prefixFree a b _ _ fits.1 fits'.1 same
    obtain ⟨lists, rests⟩ := exprs_prefixFree as bs rest others fits.2 fits'.2
      (Nat.succ.inj length) tails
    exact ⟨by rw [exprs, lists], rests⟩

end

theorem row_prefixFree : PrefixFree FitsRow rowBytes := by
  intro row row' rest others fits fits' same
  simp only [rowBytes, List.append_assoc] at same
  obtain ⟨length, same⟩ := word_prefixFree fits.1 fits'.1 same
  exact exprs_prefixFree row row' rest others fits.2 fits'.2 length same

/-! Predicates. -/

mutual

theorem predicate_prefixFree : (a b : PredicateSkeleton) → (rest others : Bytes) → a.Fits →
    b.Fits → a.bytes ++ rest = b.bytes ++ others → a = b ∧ rest = others
  | .comparison lhs operator rhs, b, rest, others, fits, fits', same => by
    simp only [PredicateSkeleton.bytes, List.cons_append, List.append_assoc] at same
    cases b with
    | comparison lhs' operator' rhs' =>
      simp only [PredicateSkeleton.bytes, List.cons_append, List.append_assoc, List.cons.injEq,
        true_and] at same
      simp only [PredicateSkeleton.Fits] at fits fits'
      obtain ⟨exprs, same⟩ := expr_prefixFree lhs lhs' _ _ fits.1 fits'.1 same
      obtain ⟨operators, same⟩ := List.cons.inj same
      have operators := comparison_injective operators
      obtain ⟨exprs2, rests⟩ := expr_prefixFree rhs rhs' _ _ fits.2 fits'.2 same
      exact ⟨by rw [exprs, operators, exprs2], rests⟩
    | _ => exact absurd (List.cons.inj same).1 (by decide)
  | .inList test items negated, b, rest, others, fits, fits', same => by
    simp only [PredicateSkeleton.bytes, List.cons_append, List.append_assoc] at same
    cases b with
    | inList test' items' negated' =>
      simp only [PredicateSkeleton.bytes, List.cons_append, List.append_assoc, List.cons.injEq,
        true_and] at same
      simp only [PredicateSkeleton.Fits] at fits fits'
      obtain ⟨flags, same⟩ := bool_prefixFree trivial trivial same
      obtain ⟨exprs, same⟩ := expr_prefixFree test test' _ _ fits.1 fits'.1 same
      obtain ⟨length, same⟩ := word_prefixFree fits.2.1 fits'.2.1 same
      obtain ⟨lists, rests⟩ := exprs_prefixFree items items' _ _ fits.2.2 fits'.2.2 length same
      exact ⟨by rw [flags, exprs, lists], rests⟩
    | _ => exact absurd (List.cons.inj same).1 (by decide)
  | .and children, b, rest, others, fits, fits', same => by
    simp only [PredicateSkeleton.bytes, List.cons_append, List.append_assoc] at same
    cases b with
    | and children' =>
      simp only [PredicateSkeleton.bytes, List.cons_append, List.append_assoc, List.cons.injEq,
        true_and] at same
      simp only [PredicateSkeleton.Fits] at fits fits'
      obtain ⟨length, same⟩ := word_prefixFree fits.1 fits'.1 same
      obtain ⟨lists, rests⟩ := predicates_prefixFree children children' _ _ fits.2 fits'.2 length same
      exact ⟨by rw [lists], rests⟩
    | _ => exact absurd (List.cons.inj same).1 (by decide)
  | .or children, b, rest, others, fits, fits', same => by
    simp only [PredicateSkeleton.bytes, List.cons_append, List.append_assoc] at same
    cases b with
    | or children' =>
      simp only [PredicateSkeleton.bytes, List.cons_append, List.append_assoc, List.cons.injEq,
        true_and] at same
      simp only [PredicateSkeleton.Fits] at fits fits'
      obtain ⟨length, same⟩ := word_prefixFree fits.1 fits'.1 same
      obtain ⟨lists, rests⟩ := predicates_prefixFree children children' _ _ fits.2 fits'.2 length same
      exact ⟨by rw [lists], rests⟩
    | _ => exact absurd (List.cons.inj same).1 (by decide)
  | .not inner, b, rest, others, fits, fits', same => by
    simp only [PredicateSkeleton.bytes, List.cons_append] at same
    cases b with
    | not inner' =>
      simp only [PredicateSkeleton.bytes, List.cons_append, List.cons.injEq, true_and] at same
      simp only [PredicateSkeleton.Fits] at fits fits'
      obtain ⟨predicates, rests⟩ := predicate_prefixFree inner inner' _ _ fits fits' same
      exact ⟨by rw [predicates], rests⟩
    | _ => exact absurd (List.cons.inj same).1 (by decide)
  | .isNull e negated, b, rest, others, fits, fits', same => by
    simp only [PredicateSkeleton.bytes, List.cons_append, List.append_assoc] at same
    cases b with
    | isNull e' negated' =>
      simp only [PredicateSkeleton.bytes, List.cons_append, List.append_assoc, List.cons.injEq,
        true_and] at same
      simp only [PredicateSkeleton.Fits] at fits fits'
      obtain ⟨flags, same⟩ := bool_prefixFree trivial trivial same
      obtain ⟨exprs, rests⟩ := expr_prefixFree e e' _ _ fits fits' same
      exact ⟨by rw [flags, exprs], rests⟩
    | _ => exact absurd (List.cons.inj same).1 (by decide)

theorem predicates_prefixFree : (as bs : List PredicateSkeleton) → (rest others : Bytes) →
    PredicateSkeleton.FitsAll as → PredicateSkeleton.FitsAll bs → as.length = bs.length →
    PredicateSkeleton.bytesOf as ++ rest = PredicateSkeleton.bytesOf bs ++ others →
    as = bs ∧ rest = others
  | [], [], _, _, _, _, _, same => ⟨rfl, same⟩
  | a :: as, b :: bs, rest, others, fits, fits', length, same => by
    simp only [PredicateSkeleton.FitsAll] at fits fits'
    simp only [PredicateSkeleton.bytesOf, List.append_assoc] at same
    obtain ⟨predicates, tails⟩ := predicate_prefixFree a b _ _ fits.1 fits'.1 same
    obtain ⟨lists, rests⟩ := predicates_prefixFree as bs rest others fits.2 fits'.2
      (Nat.succ.inj length) tails
    exact ⟨by rw [predicates, lists], rests⟩

end

theorem restriction_prefixFree :
    PrefixFree (FitsOption PredicateSkeleton.Fits) restrictionBytes := by
  intro a b rest others fits fits' same
  cases a with
  | none =>
    cases b with
    | none => exact ⟨rfl, (List.cons.inj same).2⟩
    | some b => exact absurd (List.cons.inj same).1 (by decide)
  | some a =>
    cases b with
    | none => exact absurd (List.cons.inj same).1 (by decide)
    | some b =>
      obtain ⟨predicates, rests⟩ := predicate_prefixFree a b _ _ fits fits' (List.cons.inj same).2
      exact ⟨by rw [predicates], rests⟩

/-! Statements. -/

theorem root_prefixFree : PrefixFree FitsRoot ofRoot := by
  intro a b rest others fits fits' same
  simp only [ofRoot, List.append_assoc] at same
  obtain ⟨entities, same⟩ := text_prefixFree fits.entity fits'.entity same
  obtain ⟨paths, rests⟩ := path_prefixFree fits.path fits'.path same
  cases a
  cases b
  exact ⟨congr (congrArg Root.mk entities) paths, rests⟩

theorem values_prefixFree : PrefixFree ValuesSkeleton.Fits ValuesSkeleton.bytes := by
  intro a b rest others fits fits' same
  simp only [ValuesSkeleton.bytes, List.append_assoc] at same
  obtain ⟨paths, same⟩ := path_prefixFree fits.path fits'.path same
  obtain ⟨columns, same⟩ := list_prefixFree text_prefixFree fits.columns fits'.columns same
  obtain ⟨rows, rests⟩ := list_prefixFree row_prefixFree fits.rows fits'.rows same
  exact ⟨ValuesSkeleton.ext paths columns rows, rests⟩

theorem selection_prefixFree : PrefixFree SelectionSkeleton.Fits SelectionSkeleton.bytes := by
  intro a b rest others fits fits' same
  simp only [SelectionSkeleton.bytes, List.append_assoc] at same
  obtain ⟨exprs, same⟩ := expr_prefixFree a.expr b.expr _ _ fits.expr fits'.expr same
  obtain ⟨labels, rests⟩ := option_prefixFree text_prefixFree fits.label fits'.label same
  exact ⟨SelectionSkeleton.ext exprs labels, rests⟩

theorem assignment_prefixFree : PrefixFree AssignmentSkeleton.Fits AssignmentSkeleton.bytes := by
  intro a b rest others fits fits' same
  simp only [AssignmentSkeleton.bytes, List.append_assoc] at same
  obtain ⟨targets, same⟩ := path_prefixFree fits.target fits'.target same
  obtain ⟨values, rests⟩ := expr_prefixFree a.value b.value _ _ fits.value fits'.value same
  exact ⟨AssignmentSkeleton.ext targets values, rests⟩

theorem statement_prefixFree : PrefixFree StatementSkeleton.Fits StatementSkeleton.bytes := by
  intro a b rest others fits fits' same
  cases a with
  | select roots values selections restriction =>
    simp only [StatementSkeleton.bytes, List.cons_append, List.append_assoc] at same
    cases b with
    | select roots' values' selections' restriction' =>
      simp only [List.cons_append, List.append_assoc, List.cons.injEq, true_and] at same
      obtain ⟨lists, same⟩ := list_prefixFree root_prefixFree fits.1 fits'.1 same
      obtain ⟨lists2, same⟩ := list_prefixFree values_prefixFree fits.2.1 fits'.2.1 same
      obtain ⟨lists3, same⟩ := list_prefixFree selection_prefixFree fits.2.2.1 fits'.2.2.1 same
      obtain ⟨restrictions, rests⟩ := restriction_prefixFree fits.2.2.2 fits'.2.2.2 same
      exact ⟨by rw [lists, lists2, lists3, restrictions], rests⟩
    | _ => exact absurd (List.cons.inj same).1 (by decide)
  | update target assignments restriction =>
    simp only [StatementSkeleton.bytes, List.cons_append, List.append_assoc] at same
    cases b with
    | update target' assignments' restriction' =>
      simp only [List.cons_append, List.append_assoc, List.cons.injEq, true_and] at same
      obtain ⟨roots, same⟩ := root_prefixFree fits.1 fits'.1 same
      obtain ⟨lists, same⟩ := list_prefixFree assignment_prefixFree fits.2.1 fits'.2.1 same
      obtain ⟨restrictions, rests⟩ := restriction_prefixFree fits.2.2 fits'.2.2 same
      exact ⟨by rw [roots, lists, restrictions], rests⟩
    | _ => exact absurd (List.cons.inj same).1 (by decide)
  | delete target restriction =>
    simp only [StatementSkeleton.bytes, List.cons_append, List.append_assoc] at same
    cases b with
    | delete target' restriction' =>
      simp only [List.cons_append, List.append_assoc, List.cons.injEq, true_and] at same
      obtain ⟨roots, same⟩ := root_prefixFree fits.1 fits'.1 same
      obtain ⟨restrictions, rests⟩ := restriction_prefixFree fits.2 fits'.2 same
      exact ⟨by rw [roots, restrictions], rests⟩
    | _ => exact absurd (List.cons.inj same).1 (by decide)

theorem stream_eq (s : Statement) (t : OccurrenceTable) :
    stream s t = utf8 "sqmfp:v1" ++ (skeleton t s).bytes := by
  rw [stream, skeleton_bytes]

theorem skeleton_of_stream {s₁ s₂ : Statement} {t₁ t₂ : OccurrenceTable}
    (fits₁ : (skeleton t₁ s₁).Fits) (fits₂ : (skeleton t₂ s₂).Fits)
    (same : stream s₁ t₁ = stream s₂ t₂) : skeleton t₁ s₁ = skeleton t₂ s₂ := by
  rw [stream_eq, stream_eq] at same
  have bytes := List.append_cancel_left same
  have padded : (skeleton t₁ s₁).bytes ++ [] = (skeleton t₂ s₂).bytes ++ [] := by rw [bytes]
  exact (statement_prefixFree fits₁ fits₂ padded).1

/-- Two statements, each with a table of its own, are hashed from the same bytes exactly if they have
the same skeleton: kind, roots, inline rows, targets, labels, predicates, calls and leaves. -/
theorem stream_eq_iff_skeleton_eq {s₁ s₂ : Statement} {t₁ t₂ : OccurrenceTable}
    (fits₁ : (skeleton t₁ s₁).Fits) (fits₂ : (skeleton t₂ s₂).Fits) :
    stream s₁ t₁ = stream s₂ t₂ ↔ skeleton t₁ s₁ = skeleton t₂ s₂ := by
  constructor
  · exact skeleton_of_stream fits₁ fits₂
  · intro same
    rw [stream_eq, stream_eq, same]

/-- A deletion of the people whose age compares in a given way with a parameter. -/
def deletionByAge (operator : Comparison) : Statement :=
  .delete ⟨⟨"Person", .root "p"⟩, some (.comparison (.path 0 ⟨.ofText "p.age", .integer⟩) operator
    (.parameter 1 ⟨0, ⟨.named "age", none, false⟩, none, none⟩))⟩

theorem deletionByAge_fits (operator : Comparison) :
    (skeleton .empty (deletionByAge operator)).Fits := by
  have entity : FitsText "Person" := by decide
  have key : FitsText (ParameterKey.named "age").text := by decide
  have root : FitsText (Path.root "p").text := by decide
  have path : FitsText (Path.ofText "p.age").text := by decide
  have unexpanded : FitsList (FitsOption TypeMark.Fits) [] := ⟨by decide, by simp⟩
  refine ⟨⟨entity, root⟩, ?_⟩
  simp only [Option.map_some, FitsOption, predicateSkeleton, exprSkeleton, PredicateSkeleton.Fits,
    ExprSkeleton.Fits]
  exact ⟨path, key, trivial, trivial, unexpanded⟩

theorem stream_tells_operators_apart :
    stream (deletionByAge .less) .empty ≠ stream (deletionByAge .greater) .empty := by
  intro same
  have skeletons := (stream_eq_iff_skeleton_eq (deletionByAge_fits .less)
    (deletionByAge_fits .greater)).mp same
  simp [skeleton, deletionByAge, predicateSkeleton] at skeletons

end SemanticQuery.Fingerprint
