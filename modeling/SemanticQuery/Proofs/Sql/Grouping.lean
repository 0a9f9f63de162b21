import SemanticQuery.Proofs.Sql.Outline

/-! Reading outlines back from text. Parentheses enclose junctions, tuples, lists and arguments alike, yet what
stands between them tells these apart, so that predicates over plain words are written alike only where
they are grouped alike. -/
namespace SemanticQuery.Sql

/-- The characters that end a word. -/
def separators : List Char := [' ', ',', '(', ')']

/-- A text that is one word. -/
def Plain (text : List Char) : Prop := text ≠ [] ∧ ∀ c ∈ text, c ∉ separators

instance (text : List Char) : Decidable (Plain text) :=
  have : Decidable (∀ c ∈ text, c ∉ separators) := List.decidableBAll _ text
  inferInstanceAs (Decidable (text ≠ [] ∧ ∀ c ∈ text, c ∉ separators))

/-- Leaves and names of functions are words. -/
inductive Term.Legible : Term → Prop
  | leaf {text : List Char} (plain : Plain text) : Legible (.leaf text)
  | call {name : List Char} {arguments : List Term} (plain : Plain name)
      (legible : ∀ t ∈ arguments, Legible t) : Legible (.call name arguments)
  | tuple {elements : List Term} (legible : ∀ t ∈ elements, Legible t) : Legible (.tuple elements)

def Check.Legible : Check → Prop
  | .compare _ rhs => rhs.Legible
  | .oneOf items _ => ∀ t ∈ items, t.Legible
  | .null _ => True

/-- Terms are legible and junctions have two children at least. -/
inductive Clause.Legible : Clause → Prop
  | test {operand : Term} {check : Check} (term : operand.Legible) (legible : check.Legible) :
      Legible (.test operand check)
  | junction {connective : Connective} {children : List Clause} (several : 2 ≤ children.length)
      (legible : ∀ c ∈ children, Legible c) : Legible (.junction connective children)
  | not {inner : Clause} (legible : Legible inner) : Legible (.not inner)

/-- A text that ends or goes on with one of some characters. -/
def Stops (stops text : List Char) : Prop := ∀ c ∈ text.head?, c ∈ stops

theorem Stops.mono {stops more text : List Char} (stopped : Stops stops text) (fewer : stops ⊆ more) :
    Stops more text := fun c mem => fewer (stopped c mem)

/-- What follows a text and stops it does not change what is read from it. -/
def ReadBack {α : Type} (chars : α → List Char) (valid : α → Prop) (stops : List Char) (a : α) : Prop :=
  ∀ ⦃b : α⦄ ⦃rest others : List Char⦄, valid b → Stops stops rest → Stops stops others →
    chars a ++ rest = chars b ++ others → a = b ∧ rest = others

/-- What can stand behind a term. -/
abbrev termStops : List Char := [' ', ',', ')']

/-- What can stand behind a clause. -/
abbrev clauseStops : List Char := [' ', ')']

/-! Words end where a separator stands. -/

namespace Plain
variable {word other rest others : List Char}

theorem unique (plain : Plain word) (plain' : Plain other) (stopped : Stops separators rest)
    (stopped' : Stops separators others) (same : word ++ rest = other ++ others) :
    word = other ∧ rest = others := by
  replace plain := plain.2
  replace plain' := plain'.2
  induction word generalizing other with
  | nil =>
    cases other with
    | nil => exact ⟨rfl, same⟩
    | cons c other =>
      obtain rfl : rest = c :: (other ++ others) := same
      exact absurd (stopped c rfl) (plain' c List.mem_cons_self)
  | cons c word ih =>
    rw [List.forall_mem_cons] at plain
    cases other with
    | nil =>
      obtain rfl : c :: (word ++ rest) = others := same
      exact absurd (stopped' c rfl) plain.1
    | cons c' other =>
      rw [List.forall_mem_cons] at plain'
      obtain ⟨rfl, behind⟩ := List.cons.inj same
      obtain ⟨rfl, rests⟩ := ih behind plain.2 plain'.2
      exact ⟨rfl, rests⟩

theorem starts (plain : Plain word) {c : Char} (separates : c ∈ separators) :
    word ++ rest ≠ c :: others := by
  obtain ⟨nonempty, plain⟩ := plain
  cases word with
  | nil => contradiction
  | cons first word =>
    intro same
    obtain ⟨rfl, -⟩ := List.cons.inj same
    exact plain first List.mem_cons_self separates

end Plain

/-! Items between separators, up to a closing parenthesis. -/

section
variable {α : Type} {chars : α → List Char} {valid : α → Prop} {stops : List Char} {mark : Char}
  {word : List Char} {as bs : List α} {rest others : List Char}

theorem stops_following (led : mark ∈ stops) (closing : ')' ∈ stops) (items : List (List Char)) :
    Stops stops (following (mark :: word) items ++ ')' :: rest) := by
  cases items <;> simp [Stops, following, led, closing]

theorem following_unique (led : mark ∈ stops) (closing : ')' ∈ stops) (different : mark ≠ ')')
    (readBack : ∀ a ∈ as, ReadBack chars valid stops a) (legible : ∀ b ∈ bs, valid b)
    (same : following (mark :: word) (as.map chars) ++ ')' :: rest =
      following (mark :: word) (bs.map chars) ++ ')' :: others) : as = bs ∧ rest = others := by
  induction as generalizing bs with
  | nil =>
    cases bs with
    | nil => exact ⟨rfl, (List.cons.inj same).2⟩
    | cons b bs => exact absurd (List.cons.inj same).1.symm different
  | cons a as ih =>
    cases bs with
    | nil => exact absurd (List.cons.inj same).1 different
    | cons b bs =>
      rw [List.forall_mem_cons] at readBack legible
      simp only [List.map_cons, following, List.append_assoc, List.append_cancel_left_eq] at same
      obtain ⟨rfl, behind⟩ :=
        readBack.1 legible.1 (stops_following led closing _) (stops_following led closing _) same
      obtain ⟨rfl, rests⟩ := ih readBack.2 legible.2 behind
      exact ⟨rfl, rests⟩

end

/-! Terms. -/

namespace Term

theorem Legible.starts {t : Term} (legible : t.Legible) (rest others : List Char) :
    t.chars ++ rest ≠ ')' :: others := by
  cases legible with
  | leaf plain => exact plain.starts (by decide)
  | call plain _ =>
    rw [chars, List.append_assoc]
    exact plain.starts (by decide)
  | tuple _ => simp [chars, enclosed]

/-- Enclosed terms, as in tuples, calls and lists, are read one by one. -/
theorem enclosed_unique {as bs : List Term} {rest others : List Char}
    (readBack : ∀ a ∈ as, ReadBack chars Legible termStops a) (legible : ∀ a ∈ as, a.Legible)
    (legible' : ∀ b ∈ bs, b.Legible)
    (same : enclosed (joined [',', ' '] (charsOf as)) ++ rest =
      enclosed (joined [',', ' '] (charsOf bs)) ++ others) : as = bs ∧ rest = others := by
  simp only [charsOf_eq_map, enclosed, List.cons_append, List.append_assoc, List.cons.injEq, true_and,
    List.nil_append] at same
  cases as with
  | nil =>
    cases bs with
    | nil => exact ⟨rfl, (List.cons.inj same).2⟩
    | cons b bs =>
      simp only [List.map_cons, joined, List.append_assoc] at same
      exact absurd same.symm ((legible' b List.mem_cons_self).starts _ _)
  | cons a as =>
    cases bs with
    | nil =>
      simp only [List.map_cons, joined, List.append_assoc] at same
      exact absurd same ((legible a List.mem_cons_self).starts _ _)
    | cons b bs =>
      rw [List.forall_mem_cons] at readBack legible'
      simp only [List.map_cons, joined, List.append_assoc] at same
      obtain ⟨rfl, behind⟩ := readBack.1 legible'.1 (stops_following (by decide) (by decide) _)
        (stops_following (by decide) (by decide) _) same
      obtain ⟨rfl, rests⟩ :=
        following_unique (by decide) (by decide) (by decide) readBack.2 legible'.2 behind
      exact ⟨rfl, rests⟩

/-- A leaf does not go on with arguments. -/
theorem leaf_ne_call {text name arguments rest others : List Char} (plain : Plain text)
    (plain' : Plain name) (stopped : Stops termStops rest) :
    text ++ rest ≠ name ++ enclosed arguments ++ others := by
  intro same
  rw [List.append_assoc] at same
  have opened : Stops separators (enclosed arguments ++ others) := by simp [Stops, enclosed, separators]
  obtain ⟨-, rfl⟩ := plain.unique plain' (stopped.mono (by decide)) opened same
  exact absurd (stopped '(' rfl) (by decide)

theorem call_ne_tuple {name arguments elements rest others : List Char} (plain : Plain name) :
    name ++ enclosed arguments ++ rest ≠ enclosed elements ++ others := by
  rw [List.append_assoc]
  exact plain.starts (by decide)

theorem Legible.readBack {a : Term} (legible : a.Legible) : ReadBack chars Legible termStops a := by
  induction legible with
  | leaf plain =>
    intro b rest others legible' stopped stopped' same
    cases legible' with
    | leaf plain' =>
      obtain ⟨rfl, rests⟩ := plain.unique plain' (stopped.mono (by decide)) (stopped'.mono (by decide)) same
      exact ⟨rfl, rests⟩
    | call plain' _ => exact absurd same (leaf_ne_call plain plain' stopped)
    | tuple _ => exact absurd same (plain.starts (by decide))
  | @call name arguments plain legible ih =>
    intro b rest others legible' stopped stopped' same
    cases legible' with
    | leaf plain' => exact absurd same.symm (leaf_ne_call plain' plain stopped')
    | call plain' legible' =>
      simp only [chars, List.append_assoc] at same
      obtain ⟨rfl, behind⟩ :=
        plain.unique plain' (by simp [Stops, enclosed, separators]) (by simp [Stops, enclosed, separators]) same
      obtain ⟨rfl, rests⟩ := enclosed_unique ih legible legible' behind
      exact ⟨rfl, rests⟩
    | tuple _ => exact absurd same (call_ne_tuple plain)
  | @tuple elements legible ih =>
    intro b rest others legible' stopped stopped' same
    cases legible' with
    | leaf plain' => exact absurd same.symm (plain'.starts (by decide))
    | call plain' _ => exact absurd same.symm (call_ne_tuple plain')
    | tuple legible' =>
      obtain ⟨rfl, rests⟩ := enclosed_unique ih legible legible' same
      exact ⟨rfl, rests⟩

end Term

/-! Checks. -/

theorem token_plain (operator : Comparison) : Plain operator.token.toList := by
  cases operator <;> decide

theorem token_injective {a b : Comparison} (same : a.token.toList = b.token.toList) : a = b := by
  cases a <;> cases b <;> simp [Comparison.token] at same ⊢

namespace Check

theorem starts (check : Check) : ∃ text, check.chars = ' ' :: text := by
  cases check with
  | compare operator rhs => exact ⟨_, rfl⟩
  | oneOf items negated => cases negated <;> exact ⟨_, rfl⟩
  | null negated => cases negated <;> exact ⟨_, rfl⟩

theorem stops (check : Check) (rest : List Char) : Stops termStops (check.chars ++ rest) := by
  obtain ⟨text, starts⟩ := check.starts
  simp [Stops, starts]

/-- No check starts with a parenthesis. -/
theorem not_enclosed (check : Check) (rest others : List Char) : check.chars ++ rest ≠ ' ' :: '(' :: others := by
  cases check with
  | compare operator rhs => cases operator <;> simp [chars, Comparison.token]
  | oneOf items negated => cases negated <;> simp [chars]
  | null negated => cases negated <;> simp [chars]

theorem Legible.unique {a b : Check} {rest others : List Char} (legible : a.Legible) (legible' : b.Legible)
    (stopped : Stops clauseStops rest) (stopped' : Stops clauseStops others)
    (same : a.chars ++ rest = b.chars ++ others) : a = b ∧ rest = others := by
  match a, b with
  | .compare operator rhs, .compare operator' rhs' =>
    simp only [chars, List.cons_append, List.append_assoc, List.cons.injEq, true_and] at same
    obtain ⟨token, behind⟩ := (token_plain operator).unique (token_plain operator')
      (by simp [Stops, separators]) (by simp [Stops, separators]) same
    obtain rfl := token_injective token
    obtain ⟨rfl, rests⟩ := Term.Legible.readBack legible legible' (stopped.mono (by decide))
      (stopped'.mono (by decide)) (List.cons.inj behind).2
    exact ⟨rfl, rests⟩
  | .oneOf items negated, .oneOf items' negated' =>
    obtain rfl : negated = negated' := by
      cases negated <;> cases negated' <;> simp [chars] at same ⊢
    simp only [chars, List.append_assoc, List.append_cancel_left_eq] at same
    obtain ⟨rfl, rests⟩ := Term.enclosed_unique (fun t mem => (legible t mem).readBack) legible legible' same
    exact ⟨rfl, rests⟩
  | .null negated, .null negated' =>
    obtain rfl : negated = negated' := by
      cases negated <;> cases negated' <;> simp [chars] at same ⊢
    exact ⟨rfl, List.append_cancel_left same⟩
  | .compare operator _, .oneOf _ negated | .oneOf _ negated, .compare operator _
  | .compare operator _, .null negated | .null negated, .compare operator _ =>
    cases operator <;> cases negated <;> simp [chars, Comparison.token] at same
  | .oneOf _ negated, .null negated' | .null negated', .oneOf _ negated =>
    cases negated <;> cases negated' <;> simp [chars] at same

end Check

/-! Clauses. -/

namespace Clause

theorem Legible.starts {c : Clause} (legible : c.Legible) (rest others : List Char) :
    c.chars ++ rest ≠ ')' :: others := by
  cases legible with
  | test term _ =>
    rw [chars, List.append_assoc]
    exact term.starts _ _
  | junction _ _ => simp [chars, enclosed]
  | not _ => simp [chars]

/-- Where a term ends in a list or at its end, no clause is read. -/
def Apart (c : Clause) : Prop :=
  ∀ ⦃t : Term⦄ ⦃rest others : List Char⦄, t.Legible → Stops [',', ')'] rest → Stops clauseStops others →
    c.chars ++ others ≠ t.chars ++ rest

/-- What stands between the parentheses of a junction is not a list of terms. -/
theorem junction_apart {connective : Connective} {first : Clause} {children : List Clause}
    (legible : first.Legible) (apart : first.Apart) {t : Term} (term : t.Legible) (rest others : List Char) :
    (junction connective (first :: children)).chars ++ others ≠ t.chars ++ rest := by
  intro same
  cases term with
  | leaf plain => exact absurd same.symm (plain.starts (by decide))
  | call plain _ => exact absurd same.symm (Term.call_ne_tuple plain)
  | @tuple elements terms =>
    simp only [chars, Term.chars, charsOf, joined, enclosed, List.cons_append, List.append_assoc,
      List.nil_append, List.cons.injEq, true_and] at same
    cases elements with
    | nil => exact absurd same (legible.starts _ _)
    | cons e elements =>
      simp only [Term.charsOf, List.append_assoc] at same
      exact apart (terms e List.mem_cons_self) (stops_following (by decide) (by decide) _)
        (stops_following (by decide) (by decide) _) same

/-- A negation starts with a word, and goes on unlike any test of it. -/
theorem behind_not {inner : Clause} {t : Term} {rest others : List Char} (term : t.Legible)
    (stopped : Stops termStops rest) (same : (not inner).chars ++ others = t.chars ++ rest) :
    rest = ' ' :: (enclosed inner.chars ++ others) := by
  have word : (Term.leaf "not".toList).Legible := .leaf (by decide)
  have spaced : Stops termStops (' ' :: (enclosed inner.chars ++ others)) := by simp [Stops]
  exact (word.readBack term spaced stopped same).2.symm

-- By induction on the clause: read as a tuple, a junction has its first child for the first element.
theorem Legible.apart {c : Clause} (legible : c.Legible) : c.Apart := by
  induction legible with
  | @test operand check term legible =>
    intro t rest others legible' stopped stopped' same
    rw [chars, List.append_assoc] at same
    obtain ⟨-, behind⟩ := term.readBack legible' (check.stops others) (stopped.mono (by decide)) same
    obtain ⟨text, starts⟩ := check.starts
    rw [starts] at behind
    subst behind
    exact absurd (stopped ' ' rfl) (by decide)
  | @junction connective children several legible ih =>
    intro t rest others legible' stopped stopped'
    cases children with
    | nil => contradiction
    | cons first children =>
      exact junction_apart (legible first List.mem_cons_self) (ih first List.mem_cons_self) legible' rest others
  | @not inner legible ih =>
    intro t rest others legible' stopped stopped' same
    obtain rfl := behind_not legible' (stopped.mono (by decide)) same
    exact absurd (stopped ' ' rfl) (by decide)

section
variable {operand : Term} {check : Check} {rest others : List Char}

theorem test_ne_junction {connective : Connective} {children : List Clause} (term : operand.Legible)
    (legible : (junction connective children).Legible) :
    (test operand check).chars ++ rest ≠ (junction connective children).chars ++ others := by
  intro same
  rw [chars, List.append_assoc] at same
  cases legible with
  | junction several legible =>
    cases children with
    | nil => contradiction
    | cons first children =>
      have firstLegible := legible first List.mem_cons_self
      exact junction_apart firstLegible firstLegible.apart term _ _ same.symm

theorem test_ne_not {inner : Clause} (term : operand.Legible) :
    (test operand check).chars ++ rest ≠ (not inner).chars ++ others := by
  intro same
  rw [chars, List.append_assoc] at same
  exact check.not_enclosed _ _ (behind_not term (check.stops rest) same.symm)

theorem junction_ne_not {connective : Connective} {children : List Clause} {inner : Clause} :
    (junction connective children).chars ++ rest ≠ (not inner).chars ++ others := by
  simp [chars, enclosed]

end

theorem word_injective {a b : Connective} {rest others : List Char}
    (same : a.word ++ rest = b.word ++ others) : a = b := by
  cases a <;> cases b <;> simp [Connective.word] at same ⊢

/-- Two children at least show the connective between them. -/
theorem junction_unique {a b : Connective} {as bs : List Clause} {rest others : List Char}
    (readBack : ∀ c ∈ as, ReadBack chars Legible clauseStops c) (legible : ∀ c ∈ bs, c.Legible)
    (several : 2 ≤ as.length) (several' : 2 ≤ bs.length)
    (same : (junction a as).chars ++ rest = (junction b bs).chars ++ others) :
    junction a as = junction b bs ∧ rest = others := by
  match as, bs with
  | first :: second :: as, first' :: second' :: bs =>
    rw [List.forall_mem_cons] at readBack legible
    simp only [chars, charsOf_eq_map, List.map_cons, joined, enclosed, List.cons_append, List.append_assoc,
      List.nil_append, List.cons.injEq, true_and] at same
    obtain ⟨rfl, behind⟩ := readBack.1 legible.1 (stops_following (by decide) (by decide) _)
      (stops_following (by decide) (by decide) _) same
    obtain rfl : a = b := by
      simp only [following, List.cons_append, List.append_assoc, List.cons.injEq, true_and] at behind
      exact word_injective behind
    rw [← List.map_cons, ← List.map_cons] at behind
    obtain ⟨children, rests⟩ :=
      following_unique (by decide) (by decide) (by decide) readBack.2 legible.2 behind
    exact ⟨by rw [children], rests⟩

theorem Legible.readBack {a : Clause} (legible : a.Legible) : ReadBack chars Legible clauseStops a := by
  induction legible with
  | @test operand check term legible =>
    intro b rest others legible' stopped stopped' same
    cases legible' with
    | @test operand' check' term' legible' =>
      simp only [chars, List.append_assoc] at same
      obtain ⟨rfl, behind⟩ := term.readBack term' (check.stops rest) (check'.stops others) same
      obtain ⟨rfl, rests⟩ := legible.unique legible' stopped stopped' behind
      exact ⟨rfl, rests⟩
    | junction several legible' => exact absurd same (test_ne_junction term (.junction several legible'))
    | not _ => exact absurd same (test_ne_not term)
  | junction several legible ih =>
    intro b rest others legible' stopped stopped' same
    cases legible' with
    | test term _ => exact absurd same.symm (test_ne_junction term (.junction several legible))
    | junction several' legible' => exact junction_unique ih legible' several several' same
    | not _ => exact absurd same junction_ne_not
  | not legible ih =>
    intro b rest others legible' stopped stopped' same
    cases legible' with
    | test term _ => exact absurd same.symm (test_ne_not term)
    | junction _ _ => exact absurd same.symm junction_ne_not
    | not legible' =>
      simp only [chars, enclosed, List.append_assoc, List.cons_append, List.append_cancel_left_eq,
        List.cons.injEq, true_and, List.nil_append] at same
      obtain ⟨rfl, behind⟩ := ih legible' (by simp [Stops]) (by simp [Stops]) same
      exact ⟨rfl, (List.cons.inj behind).2⟩

end Clause

/-- Over plain words, predicates are written alike exactly where they have one outline: the same connectives,
comparisons, tests, tuples and calls, over leaves with the same texts. -/
theorem Predicate.sql_eq_iff_outline_eq {p q : Predicate} (legible : p.outline.Legible)
    (legible' : q.outline.Legible) :
    (Rendered.ofPieces p.pieces).sql = (Rendered.ofPieces q.pieces).sql ↔ p.outline = q.outline := by
  simp only [Rendered.ofPieces, String.ofList_inj, Predicate.chars_outline]
  constructor
  · intro same
    have ended : Stops clauseStops [] := nofun
    exact (legible.readBack legible' ended ended (congrArg (· ++ []) same)).1
  · intro same
    rw [same]

/-! Three tests of a person, under two groupings. -/
namespace Grouped

def column (name : String) : Expr := .column ⟨"p", name, .varchar⟩

def bound : Expr := .parameter ⟨0, none⟩

def adult : Predicate := .comparison (column "age") .greaterOrEqual bound

def known : Predicate :=
  .comparison (.tuple [column "city", .call "upper" .standard [column "name"] none none]) .equal
    (.tuple [bound, bound])

def unnamed : Predicate := .isNull (column "name") false

def conjunction : Predicate := .and [adult, .or [known, unnamed]]

def disjunction : Predicate := .or [.and [adult, known], unnamed]

theorem groupings_are_written_apart :
    (Rendered.ofPieces conjunction.pieces).sql =
        "(p.age >= ? and ((p.city, upper(p.name)) = (?, ?) or p.name is null))" ∧
      (Rendered.ofPieces disjunction.pieces).sql =
        "((p.age >= ? and (p.city, upper(p.name)) = (?, ?)) or p.name is null)" ∧
      conjunction.outline.Legible ∧ disjunction.outline.Legible ∧
      (Rendered.ofPieces conjunction.pieces).sql ≠ (Rendered.ofPieces disjunction.pieces).sql := by
  have one {α : Type} {P : α → Prop} {a : α} (only : P a) : ∀ x ∈ [a], P x := by simpa
  have two {α : Type} {P : α → Prop} {a b : α} (first : P a) (second : P b) : ∀ x ∈ [a, b], P x := by
    simp [first, second]
  have adultLegible : adult.outline.Legible := .test (.leaf (by decide)) (.leaf (by decide))
  have unnamedLegible : unnamed.outline.Legible := .test (.leaf (by decide)) trivial
  have upper : (Expr.call "upper" .standard [column "name"] none none).outline.Legible :=
    .call (by decide) (one (.leaf (by decide)))
  have knownLegible : known.outline.Legible :=
    .test (.tuple (two (.leaf (by decide)) upper))
      (.tuple (two (.leaf (by decide)) (.leaf (by decide))))
  have all : conjunction.outline.Legible :=
    .junction (by decide) (two adultLegible (.junction (by decide) (two knownLegible unnamedLegible)))
  have any : disjunction.outline.Legible :=
    .junction (by decide) (two (.junction (by decide) (two adultLegible knownLegible)) unnamedLegible)
  refine ⟨rfl, rfl, all, any, ?_⟩
  rw [ne_eq, Predicate.sql_eq_iff_outline_eq all any]
  simp [conjunction, disjunction, Predicate.outline]

end Grouped

end SemanticQuery.Sql
