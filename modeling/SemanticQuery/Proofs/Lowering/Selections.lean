import SemanticQuery.Proofs.Lowering.Slots

/-! The selections of a lowered select as a partition: each selection item is lowered where the one before
it left off, takes a column for each leaf of its expression, and is read back from exactly these columns. -/
namespace SemanticQuery

namespace Sql

mutual

/-- Columns are counted without taking the expression apart, and one stands for each leaf. -/
theorem Expr.leaves_length : (e : Expr) → e.leaves.length = e.columnCount
  | .column _ | .literal .. | .parameter _ | .call .. => rfl
  | .tuple elements => by
    rw [Expr.leaves, Expr.columnCount]
    exact leavesOf_length elements

theorem Expr.leavesOf_length : (es : List Expr) → (Expr.leavesOf es).length = Expr.columnCounts es
  | [] => rfl
  | e :: rest => by
    rw [Expr.leavesOf, Expr.columnCounts, List.length_append, leaves_length e, leavesOf_length rest]

end

theorem Expr.columnCount_of_single {e : Expr} (single : e.isTuple = false) : e.columnCount = 1 := by
  cases e with
  | tuple elements => contradiction
  | column | literal | parameter | call => rfl

theorem Expr.columnCounts_of_single {es : List Expr} (single : ∀ e ∈ es, e.isTuple = false) :
    columnCounts es = es.length := by
  induction es with
  | nil => rfl
  | cons e rest ih =>
    obtain ⟨first, later⟩ := List.forall_mem_cons.mp single
    rw [columnCounts, columnCount_of_single first, ih later, List.length_cons, Nat.add_comm]

/-- Side by side, expressions that are not tuples take a column each. -/
theorem Expr.columnCount_ofList {es : List Expr} (single : ∀ e ∈ es, e.isTuple = false) :
    (ofList es).columnCount = es.length := by
  match es with
  | [] => rfl
  | [e] => exact columnCount_of_single (single e List.mem_cons_self)
  | first :: second :: rest => exact columnCounts_of_single single

theorem Expr.leaves_of_single {e : Expr} (single : e.isTuple = false) : e.leaves = [e] := by
  cases e with
  | tuple elements => contradiction
  | column c => rfl
  | literal v type => rfl
  | parameter slot => rfl
  | call name style arguments result mapping => rfl

namespace Result

theorem valuesAt?_isSome (row : List Value) (positions : List Nat) :
    (valuesAt? row positions).isSome ↔ ∀ n ∈ positions, n < row.length := by
  induction positions with
  | nil => simp [valuesAt?]
  | cons position rest ih =>
    rw [List.forall_mem_cons, ← ih, valuesAt?]
    by_cases inside : position < row.length
    · rw [List.getElem?_eq_getElem inside]
      cases valuesAt? row rest <;> simp [inside]
    · rw [List.getElem?_eq_none (Nat.le_of_not_lt inside)]
      simp [inside]

/-- A result is read from the rows that have all its positions. -/
theorem assemble_isSome (r : Result) (row : List Value) :
    (r.assemble row).isSome ↔ ∀ n ∈ r.positions, n < row.length := by
  cases r with
  | basic position label kind => simp [assemble, positions]
  | tuple positions label kind path =>
    rw [assemble, Option.isSome_map]
    exact valuesAt?_isSome row positions

end Result

end Sql

namespace Lowering
open Query

theorem numberSelections_append (position : Nat) (es more : List Sql.Expr) :
    numberSelections position (es ++ more) =
      numberSelections position es ++ numberSelections (position + es.length) more := by
  induction es generalizing position with
  | nil => rfl
  | cons e rest ih =>
    rw [List.cons_append, numberSelections, numberSelections, ih, List.cons_append, List.length_cons]
    congr 3
    omega

theorem getElem?_numberSelections (position : Nat) (es : List Sql.Expr) (i : Nat) :
    (numberSelections position es)[i]? = es[i]?.map (Sql.Selection.mk (position + i)) := by
  induction es generalizing position i with
  | nil => rfl
  | cons e rest ih =>
    cases i with
    | zero => rfl
    | succ i =>
      rw [numberSelections, List.getElem?_cons_succ, List.getElem?_cons_succ, ih]
      congr 2
      omega

theorem numberSelections_length (position : Nat) (es : List Sql.Expr) :
    (numberSelections position es).length = es.length := by
  rw [← List.length_map, exprs_numberSelections]

theorem itemResult_ok {position : Nat} {item : Selection} {e : Sql.Expr} {r : Sql.Result}
    {p p' : Progress} (read : itemResult position item e p = .ok r p') :
    r.label = item.label ∧ r.positions = List.range' position e.leaves.length := by
  rw [itemResult] at read
  split at read
  · obtain ⟨type, p₁, -, made⟩ := run_bind_ok.mp read
    cases made
    exact ⟨rfl, by rw [e.leaves_length, Sql.Result.positions]⟩
  next single =>
    cases read
    rw [Sql.Expr.leaves_of_single (Bool.eq_false_iff.mpr single)]
    exact ⟨rfl, rfl⟩

/-- Selection items from a position on, each with its lowered expression and the result it is read back
by. An item starts behind the leaves of the one before it. -/
inductive Itemized (c : Scope) :
    Nat → List Selection → Progress → List (Sql.Expr × Sql.Result) → Progress → Prop
  | nil (position : Nat) (p : Progress) : Itemized c position [] p [] p
  | cons {position : Nat} {item : Selection} {rest : List Selection} {e : Sql.Expr} {r : Sql.Result}
      {made : List (Sql.Expr × Sql.Result)} {p p₁ p₂ p' : Progress}
      (lowered : lowerExpr c noHint item.expr p = .ok e p₁)
      (read : itemResult position item e p₁ = .ok r p₂)
      (later : Itemized c (position + e.leaves.length) rest p₂ made p') :
      Itemized c position (item :: rest) p ((e, r) :: made) p'

def leavesOfItems (made : List (Sql.Expr × Sql.Result)) : List Sql.Expr :=
  made.flatMap fun item => item.1.leaves

theorem itemized_of_lowerSelections {c : Scope} {position : Nat} {items : List Selection}
    {p p' : Progress} {selections : List Sql.Selection} {results : List Sql.Result}
    (run : lowerSelections c position items p = .ok (selections, results) p') :
    ∃ made, Itemized c position items p made p' ∧
      selections = numberSelections position (leavesOfItems made) ∧ results = made.map Prod.snd := by
  induction items generalizing position p p' selections results with
  | nil =>
    cases run
    exact ⟨[], .nil position _, rfl, rfl⟩
  | cons item rest ih =>
    rw [lowerSelections] at run
    obtain ⟨e, p₁, lowered, run⟩ := run_bind_ok.mp run
    obtain ⟨r, p₂, read, run⟩ := run_bind_ok.mp run
    obtain ⟨⟨later, laterResults⟩, p₃, ran, run⟩ := run_bind_ok.mp run
    cases run
    obtain ⟨made, itemized, rfl, rfl⟩ := ih ran
    refine ⟨(e, r) :: made, .cons lowered read itemized, ?_, rfl⟩
    exact (numberSelections_append position e.leaves _).symm

namespace Itemized
variable {c : Scope} {position : Nat} {items : List Selection} {p p' : Progress}
  {made : List (Sql.Expr × Sql.Result)}

theorem labels (itemized : Itemized c position items p made p') :
    made.map (fun item => item.2.label) = items.map Selection.label := by
  induction itemized with
  | nil => rfl
  | cons lowered read later ih => rw [List.map_cons, List.map_cons, ih, (itemResult_ok read).1]

/-- The positions of the results follow one another without a gap. -/
theorem positions (itemized : Itemized c position items p made p') :
    made.flatMap (fun item => item.2.positions) =
      List.range' position (leavesOfItems made).length := by
  induction itemized with
  | nil => rfl
  | cons lowered read later ih =>
    rw [leavesOfItems] at ih
    rw [List.flatMap_cons, ih, (itemResult_ok read).2, leavesOfItems, List.flatMap_cons,
      List.length_append, ← List.range'_append_1]

/-- The leaves of an item are where its result reads, behind those of the items before. -/
theorem covers (itemized : Itemized c position items p made p') {e : Sql.Expr} {r : Sql.Result}
    (mem : (e, r) ∈ made) : ∃ before after, leavesOfItems made = before ++ e.leaves ++ after ∧
      r.positions = List.range' (position + before.length) e.leaves.length := by
  induction itemized with
  | nil => contradiction
  | @cons position item rest first _ made _ _ _ _ lowered read later ih =>
    cases mem with
    | head => exact ⟨[], leavesOfItems made, rfl, (itemResult_ok read).2⟩
    | tail _ mem =>
      obtain ⟨before, after, all, reads⟩ := ih mem
      refine ⟨first.leaves ++ before, after, ?_, ?_⟩
      · rw [leavesOfItems] at all
        rw [leavesOfItems, List.flatMap_cons, all]
        simp only [List.append_assoc]
      · rw [reads, List.length_append, Nat.add_assoc]

end Itemized

/-- The results of a select share out its selections: the positions they read are all positions, in order
and each once, and each result has the leaves of the expression it goes with. -/
structure Partitioned (q : Sql.Select) (made : List (Sql.Expr × Sql.Result)) : Prop where
  results : q.results = made.map Prod.snd
  numbered : ∀ (i : Nat) (inside : i < q.selections.length), q.selections[i].position = i
  positions : q.results.flatMap Sql.Result.positions = List.range q.selections.length
  covers : ∀ e r, (e, r) ∈ made →
    r.positions.map (fun n => (q.selections[n]?).map Sql.Selection.expr) = e.leaves.map some

theorem Itemized.partitioned {c : Scope} {items : List Selection} {p p' : Progress}
    {made : List (Sql.Expr × Sql.Result)} (itemized : Itemized c 0 items p made p')
    (source : Sql.FromClause) (restriction : Option Sql.Predicate) :
    Partitioned ⟨source, numberSelections 0 (leavesOfItems made), made.map Prod.snd, restriction⟩
      made where
  results := rfl
  numbered i inside := by
    have found := getElem?_numberSelections 0 (leavesOfItems made) i
    rw [List.getElem?_eq_getElem inside] at found
    obtain ⟨e, -, same⟩ := Option.map_eq_some_iff.mp found.symm
    rw [← same]
    exact Nat.zero_add i
  positions := by
    rw [List.flatMap_map, itemized.positions, numberSelections_length, List.range_eq_range']
  covers e r mem := by
    obtain ⟨before, after, all, reads⟩ := itemized.covers mem
    simp only [getElem?_numberSelections, Option.map_map]
    rw [reads, all, Nat.zero_add]
    apply List.ext_getElem
    · simp
    intro i inside _
    rw [List.length_map, List.length_range'] at inside
    have leaf : (before ++ (e.leaves ++ after))[before.length + i]? = some e.leaves[i] := by
      rw [List.getElem?_append_right (Nat.le_add_right ..), Nat.add_sub_cancel_left,
        List.getElem?_append_left inside, List.getElem?_eq_getElem inside]
    simpa using leaf

/-- The sources of a select, entered one after the other. -/
def enterSources (c : Scope) (s : Select) : LowerM Scope := do
  let c ← addRoots c s.roots
  addValues c s.values

theorem Partitioned.position_lt {q : Sql.Select} {made : List (Sql.Expr × Sql.Result)}
    (partitioned : Partitioned q made) {r : Sql.Result} (mem : r ∈ q.results) {n : Nat}
    (read : n ∈ r.positions) : n < q.selections.length := by
  rw [← List.mem_range, ← partitioned.positions]
  exact List.mem_flatMap.mpr ⟨r, mem, read⟩

/-- A lowered select is partitioned by its results, one for each selection item, under the item's label.
A row with a value for each selection can be read by all of them, and a row too short for the positions of
one cannot be read by it. -/
theorem selections_partitioned {model : Model} {strict : Bool}
    {expansions : OccurrenceId → List Occurrence} {s : Select} {w w' : Workspace} {l : Lowered}
    (lowered : lowerStatement model strict expansions (.select s) w = .ok l w') :
    ∃ (q : Sql.Select) (made : List (Sql.Expr × Sql.Result)) (sources : Scope) (p p' : Progress),
      l.statement = .select q ∧
      enterSources ⟨model, .empty, expansions, strict⟩ s ⟨w, .empty⟩ = .ok sources p ∧
      Itemized sources 0 s.selections p made p' ∧
      Partitioned q made ∧
      q.results.map Sql.Result.label = s.selections.map Selection.label ∧
      ∀ r ∈ q.results, ∀ row : List Value,
        (q.selections.length ≤ row.length → (r.assemble row).isSome) ∧
        ((∃ n ∈ r.positions, row.length ≤ n) → r.assemble row = none) := by
  simp only [lowerStatement] at lowered
  split at lowered
  next statement source p run =>
    cases lowered
    rw [lowerParts, lowerSelect] at run
    obtain ⟨rooted, p₁, roots, run⟩ := run_bind_ok.mp run
    obtain ⟨sources, p₂, values, run⟩ := run_bind_ok.mp run
    obtain ⟨⟨selections, results⟩, p₃, items, run⟩ := run_bind_ok.mp run
    obtain ⟨restriction, p₄, -, run⟩ := run_bind_ok.mp run
    cases run
    obtain ⟨made, itemized, rfl, rfl⟩ := itemized_of_lowerSelections items
    have partitioned := itemized.partitioned sources.source restriction
    refine ⟨_, made, sources, p₂, p₃, rfl, run_bind_ok.mpr ⟨rooted, p₁, roots, values⟩, itemized,
      partitioned, ?_, ?_⟩
    · rw [List.map_map]
      exact itemized.labels
    · intro r mem row
      constructor
      · intro long
        apply (r.assemble_isSome row).mpr
        intro n read
        have := partitioned.position_lt mem read
        omega
      · rintro ⟨n, read, short⟩
        apply Option.not_isSome_iff_eq_none.mp
        intro assembled
        have := (r.assemble_isSome row).mp assembled n read
        omega
  · contradiction

/-! A select of a column of inline rows and a literal of two columns in one item with an empty tuple
between them, of an empty tuple, of a call, and of a parameter of two columns. -/
namespace Sectioned

def integer : BasicType := ⟨"integer", .integer, .integer⟩

def point : Mapping := .embedded "Point" [("x", .basic integer), ("y", .basic integer)]

def rows : Path := ⟨["v"], by simp, by decide⟩

def size : Path := ⟨["v", "size"], by simp, by decide⟩

def shape : Expr :=
  .tuple 4 [.path 1 ⟨size, .integer⟩, .tuple 2 [] .none,
    .literal 3 (.composite [.int 2, .int 3]) (.mapped point)] .none

def today : Callee where
  name := "current_date"
  style := .keyword
  arguments := none
  returns := .invariant ⟨"date", .date, .date⟩
  validator := none
  catalog := .empty

def select : Select where
  roots := []
  values := [⟨rows, ["size"], [[.literal 0 (.int 1) (.basic integer)]]⟩]
  selections := [⟨shape, some "shape"⟩, ⟨.tuple 5 [] .none, some "nothing"⟩,
    ⟨.call 6 today [] none .none, none⟩,
    ⟨.parameter 7 ⟨0, ⟨.named "at", some (.mapped point), false⟩, none, none⟩, some "at"⟩]
  restriction := none

theorem items_share_columns :
    ∃ (l : Lowered) (w : Workspace) (q : Sql.Select),
      lowerStatement ⟨.empty, .empty⟩ true (fun _ => []) (.select select) .empty = .ok l w ∧
        l.statement = .select q ∧
        q.results.map Sql.Result.positions = [[0, 1, 2], [], [3], [4, 5]] ∧
        q.results.flatMap Sql.Result.positions = List.range q.selections.length ∧
        q.results.map Sql.Result.label = [some "shape", some "nothing", none, some "at"] := by
  have lowered : lowerStatement ⟨.empty, .empty⟩ true (fun _ => []) (.select select) .empty = .ok _ _ :=
    rfl
  obtain ⟨q, made, sources, p, p', same, -, -, partitioned, labels, -⟩ := selections_partitioned lowered
  cases same
  exact ⟨_, _, _, lowered, rfl, rfl, partitioned.positions, labels⟩

end Sectioned

end Lowering

end SemanticQuery
