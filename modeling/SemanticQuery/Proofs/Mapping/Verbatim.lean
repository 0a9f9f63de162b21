import SemanticQuery.Proofs.Mapping.Components

/-! Composites that their columns spell. Side by side, the column values of a composite are the composite itself
where each component keeps its part as it is, in one column. A basic type does; the converters at hand do not,
unless there is nothing but null to convert; and a composite of a single column comes out without its level. -/
namespace SemanticQuery

/-- Values side by side; a single one stands alone. -/
def Value.ofList : List Value → Value
  | [v] => v
  | vs => .composite vs

theorem Value.ofList_of_several {vs : List Value} (several : vs.length ≠ 1) :
    ofList vs = .composite vs := by
  unfold ofList
  split
  · contradiction
  · rfl

namespace Mapping

/-- A mapping that keeps whatever it accepts in one column, as it is. -/
def IsVerbatim (m : Mapping) : Prop :=
  ∀ v values, m.decompose v = .ok values → values.map ColumnValue.value = [v]

theorem basic_verbatim (type : BasicType) : (basic type).IsVerbatim := by
  intro v values made
  rw [decompose_basic made, List.map_singleton]

/-- A converted mapping is verbatim where its converter is. -/
theorem converted_verbatim_iff {converter : Converter} {relational : BasicType} :
    (converted converter relational).IsVerbatim ↔
      ∀ v stored, converter.toRelational v = .ok stored → stored = v := by
  constructor
  · intro verbatim v stored conversion
    have made : (converted converter relational).decompose v = .ok [⟨relational.column, stored⟩] := by
      rw [decompose, conversion]
      rfl
    exact List.singleton_inj.mp (verbatim v _ made)
  · intro kept v values made
    rw [decompose] at made
    obtain ⟨stored, conversion, made⟩ := bind_ok.mp made
    cases made
    rw [List.map_singleton, kept v stored conversion]

theorem yesNo_altering (relational : BasicType) : ¬(converted .yesNo relational).IsVerbatim := by
  intro verbatim
  have kept := converted_verbatim_iff.mp verbatim (.bool true) _ rfl
  contradiction

/-- Without constants null is all there is to store. -/
theorem ordinal_verbatim_iff {name : String} {constants : List String} {relational : BasicType} :
    (converted (.ordinal name constants) relational).IsVerbatim ↔ constants = [] := by
  rw [converted_verbatim_iff]
  constructor
  · intro kept
    cases constants with
    | nil => rfl
    | cons constant later =>
      have first : (Converter.ordinal name (constant :: later)).toRelational (.text constant) =
          .ok (.int (Int32.ofNat 0)) := by
        simp [Converter.ordinal, List.findIdx?_cons]
      have same := kept _ _ first
      contradiction
  · rintro rfl v stored conversion
    cases v with
    | null => exact (Except.ok.inj conversion).symm
    | _ => contradiction

theorem decomposeParts_of_verbatim {components : List (String × Mapping)} {parts : List Value}
    {values : List ColumnValue} (verbatim : ∀ c ∈ components, c.2.IsVerbatim)
    (whole : parts.length = components.length) (made : decomposeParts components parts = .ok values) :
    values.map ColumnValue.value = parts := by
  induction components generalizing parts values with
  | nil =>
    obtain rfl := List.length_eq_zero_iff.mp whole
    cases made
    rfl
  | cons component rest ih =>
    obtain ⟨name, m⟩ := component
    cases parts with
    | nil => contradiction
    | cons v parts =>
      rw [decomposeParts] at made
      obtain ⟨first, own, made⟩ := bind_ok.mp made
      obtain ⟨later, others, made⟩ := bind_ok.mp made
      cases made
      obtain ⟨here, behind⟩ := List.forall_mem_cons.mp verbatim
      rw [List.map_append, here v first own, ih behind (Nat.succ.inj whole) others]
      rfl

/-- What spans no column has no converter to get to. -/
theorem keepsNull_of_unseen : {m : Mapping} → m.columnCount = 0 → m.KeepsNull
  | basic _, unseen | converted .., unseen => by
    rw [columnCount] at unseen
    contradiction
  | embedded .., _ => trivial
  | identifier _ _ key, unseen | foreignKey _ _ key, unseen => by
    rw [columnCount] at unseen
    exact keepsNull_of_unseen (m := key) unseen

theorem columnCount_of_mem {components : List (String × Mapping)} (unseen : columnCounts components = 0) :
    ∀ c ∈ components, c.2.columnCount = 0 := by
  induction components with
  | nil => simp
  | cons component rest ih =>
    rw [columnCounts] at unseen
    refine List.forall_mem_cons.mpr ⟨?_, ih ?_⟩ <;> omega

/-- What spans no column accepts more than null, and nothing shows of it. -/
theorem exists_hidden {m : Mapping} (unseen : m.columnCount = 0) : ∃ v, v ≠ .null ∧ m.decompose v = .ok [] := by
  have nothing {m : Mapping} (unseen : m.columnCount = 0) : m.decompose .null = .ok [] := by
    rw [m.decompose_null (keepsNull_of_unseen unseen), nulls,
      List.eq_nil_of_length_eq_zero (m.columnTypes_length.trans unseen), List.map_nil]
  cases m with
  | basic | converted =>
    rw [columnCount] at unseen
    contradiction
  | embedded name components =>
    refine ⟨.composite (.replicate components.length .null), by simp, ?_⟩
    rw [← decompose_nulls, nothing unseen]
    rw [columnCount] at unseen
    exact fun c mem => keepsNull_of_unseen (columnCount_of_mem unseen c mem)
  | identifier entity idName key =>
    refine ⟨.entity entity .null [], by simp, ?_⟩
    rw [columnCount] at unseen
    rw [decompose]
    exact nothing unseen
  | foreignKey association target key =>
    refine ⟨.entity target .null [], by simp, ?_⟩
    rw [columnCount] at unseen
    rw [decompose]
    exact nothing unseen

/-- Where there are as many columns as components and none is without one, each has one. -/
theorem columnCounts_of_full {components : List (String × Mapping)}
    (seen : ∀ c ∈ components, c.2.columnCount ≠ 0) :
    components.length ≤ columnCounts components ∧
      (columnCounts components = components.length → ∀ c ∈ components, c.2.columnCount = 1) := by
  induction components with
  | nil => simp [columnCounts]
  | cons component rest ih =>
    obtain ⟨first, later⟩ := List.forall_mem_cons.mp seen
    obtain ⟨least, exact⟩ := ih later
    rw [columnCounts, List.length_cons]
    refine ⟨by omega, fun whole => List.forall_mem_cons.mpr ⟨?_, exact ?_⟩⟩ <;> omega

theorem decomposeParts_append {components more : List (String × Mapping)} {parts later : List Value}
    (whole : parts.length = components.length) :
    decomposeParts (components ++ more) (parts ++ later) = (do
      let first ← decomposeParts components parts
      let second ← decomposeParts more later
      return first ++ second) := by
  induction components generalizing parts with
  | nil =>
    obtain rfl := List.length_eq_zero_iff.mp whole
    change decomposeParts more later = (do
      let second ← decomposeParts more later
      return [] ++ second)
    simp
  | cons component rest ih =>
    obtain ⟨name, m⟩ := component
    cases parts with
    | nil => contradiction
    | cons v parts =>
      rw [List.cons_append, List.cons_append, decomposeParts, decomposeParts, ih (Nat.succ.inj whole)]
      simp only [bind_assoc, pure_bind, List.append_assoc]

/-- One part among nulls comes to its column values among nulls. -/
theorem decomposeParts_among {before behind : List (String × Mapping)} {component : String × Mapping} {v : Value}
    {values : List ColumnValue} (keep : ∀ c ∈ before ++ component :: behind, c.2.KeepsNull)
    (made : component.2.decompose v = .ok values) :
    decomposeParts (before ++ component :: behind)
        (.replicate before.length .null ++ v :: .replicate behind.length .null) =
      .ok (((typesOf before).map fun type => ⟨type, .null⟩) ++
        (values ++ (typesOf behind).map fun type => ⟨type, .null⟩)) := by
  obtain ⟨keepBefore, keepLater⟩ := List.forall_mem_append.mp keep
  obtain ⟨-, keepBehind⟩ := List.forall_mem_cons.mp keepLater
  rw [decomposeParts_append List.length_replicate, decomposeParts_nulls keepBefore, decomposeParts, made,
    decomposeParts_nulls keepBehind]
  rfl

/-- Composites that are all spelled by their column values have a column for each component, and each component
keeps its part there. -/
theorem verbatim_of_spelled {components : List (String × Mapping)} (keep : ∀ c ∈ components, c.2.KeepsNull)
    (spelled : ∀ parts values, parts.length = components.length → decomposeParts components parts = .ok values →
      values.map ColumnValue.value = parts) : ∀ c ∈ components, c.2.IsVerbatim := by
  have among {before behind : List (String × Mapping)} {component : String × Mapping} {v : Value}
      {values : List ColumnValue} (whole : components = before ++ component :: behind)
      (made : component.2.decompose v = .ok values) :
      List.replicate (columnCounts before) Value.null ++
          (values.map ColumnValue.value ++ List.replicate (columnCounts behind) Value.null) =
        List.replicate before.length Value.null ++ v :: List.replicate behind.length .null := by
    subst whole
    have same := spelled _ _ (by simp) (decomposeParts_among keep made)
    simpa [List.map_append, Function.comp_def, typesOf_length] using same
  have seen : ∀ c ∈ components, c.2.columnCount ≠ 0 := by
    -- what a component without a column accepts beside null is missing from the columns, which are all null
    intro c listed unseen
    obtain ⟨before, behind, whole⟩ := List.append_of_mem listed
    obtain ⟨v, there, made⟩ := exists_hidden unseen
    have mem : v ∈ List.replicate before.length Value.null ++ v :: List.replicate behind.length .null :=
      List.mem_append_right _ List.mem_cons_self
    rw [← among whole made] at mem
    simp only [List.map_nil, List.nil_append, List.mem_append, List.mem_replicate] at mem
    rcases mem with ⟨-, null⟩ | ⟨-, null⟩
    all_goals exact there null
  have one : ∀ c ∈ components, c.2.columnCount = 1 := by
    refine (columnCounts_of_full seen).2 ?_
    have nulls := decomposeParts_nulls keep
    have same := congrArg List.length (spelled _ _ List.length_replicate nulls)
    simpa [typesOf_length] using same
  intro c listed v values made
  obtain ⟨before, behind, whole⟩ := List.append_of_mem listed
  have counts : columnCounts before = before.length := by
    have each : ∀ c ∈ before, c.2.columnCount = 1 := fun c mem => one c (whole ▸ List.mem_append_left _ mem)
    clear whole
    induction before with
    | nil => rfl
    | cons component rest ih =>
      obtain ⟨first, later⟩ := List.forall_mem_cons.mp each
      rw [columnCounts, first, ih later, List.length_cons, Nat.add_comm]
  have same := among whole made
  rw [counts, List.append_cancel_left_eq, ← List.singleton_append] at same
  refine (List.append_inj same ?_).1
  rw [List.length_map, decompose_length made, columnTypes_length, one c listed, List.length_singleton]

/-- Every composite is what its column values are side by side, where the columns are not one and each
component is verbatim. -/
theorem ofList_of_verbatim {name : String} {components : List (String × Mapping)}
    (several : (embedded name components).columnCount ≠ 1) (verbatim : ∀ c ∈ components, c.2.IsVerbatim)
    {parts : List Value} {values : List ColumnValue}
    (made : (embedded name components).decompose (.composite parts) = .ok values) :
    Value.ofList (values.map ColumnValue.value) = .composite parts := by
  have count : (values.map ColumnValue.value).length = (embedded name components).columnCount := by
    rw [List.length_map, decompose_length made, columnTypes_length]
  rw [Value.ofList_of_several (count ▸ several)]
  rw [decompose] at made
  split at made
  next whole => rw [decomposeParts_of_verbatim verbatim whole made]
  · contradiction

/-- Nowhere else, as long as the components take null. -/
theorem ofList_eq_iff (name : String) {components : List (String × Mapping)}
    (keep : ∀ c ∈ components, c.2.KeepsNull) :
    (∀ parts values, (embedded name components).decompose (.composite parts) = .ok values →
        Value.ofList (values.map ColumnValue.value) = .composite parts) ↔
      (embedded name components).columnCount ≠ 1 ∧ ∀ c ∈ components, c.2.IsVerbatim := by
  constructor
  · intro spelled
    have several : (embedded name components).columnCount ≠ 1 := by
      -- the composite of nulls comes out of a single column as null
      intro one
      have nulls := (decompose_nulls name keep).symm.trans (decompose_null _ trivial)
      have same := spelled _ _ nulls
      rw [Mapping.nulls, List.map_map] at same
      obtain ⟨type, only⟩ := List.length_eq_one_iff.mp ((columnTypes_length _).trans one)
      rw [only] at same
      contradiction
    refine ⟨several, verbatim_of_spelled keep fun parts values whole made => ?_⟩
    have composed : (embedded name components).decompose (.composite parts) = .ok values := by
      rw [decompose, if_pos whole, made]
    have same := spelled parts values composed
    rw [Value.ofList_of_several] at same
    · exact Value.composite.inj same
    · rwa [List.length_map, decompose_length composed, columnTypes_length]
  · rintro ⟨several, verbatim⟩ parts values made
    exact ofList_of_verbatim several verbatim made

end Mapping

end SemanticQuery
