import SemanticQuery.Model.Resolve
import SemanticQuery.Proofs.Mapping.Columns

/-! Components of embedded mappings along names. The columns of a component start behind those of the
components before it and lie next to each other, and the column values of a decomposition in the same
places are those of the part that stands for the component. -/
namespace SemanticQuery

/-- A part of a composite by its place. Inside of null there is only null. -/
def Value.partAt? : Value → Nat → Option Value
  | .null, _ => some .null
  | .composite parts, i => parts[i]?
  | _, _ => none

namespace Mapping

/-- The place and the mapping of the first component of a name. -/
def place? (name : String) (components : List (String × Mapping)) : Option (Nat × Mapping) := do
  let i ← components.findIdx? fun component => component.1 = name
  let component ← components[i]?
  return (i, component.2)

/-- The component that names lead to through embedded mappings, behind so many columns of the whole. -/
def within? : List String → Mapping → Option (Nat × Mapping)
  | [], m => some (0, m)
  | name :: rest, embedded _ components => do
    let (i, part) ← place? name components
    let (start, component) ← within? rest part
    return (columnCounts (components.take i) + start, component)
  | _ :: _, _ => none

/-- The part of a value that stands for the component the names lead to. -/
def partAlong? : List String → Mapping → Value → Option Value
  | [], _, v => some v
  | name :: rest, embedded _ components, v => do
    let (i, part) ← place? name components
    let w ← v.partAt? i
    partAlong? rest part w
  | _ :: _, _, _ => none

theorem place?_cons (name n : String) (m : Mapping) (rest : List (String × Mapping)) :
    place? name ((n, m) :: rest) =
      if n = name then some (0, m) else (place? name rest).map fun (i, part) => (i + 1, part) := by
  by_cases same : n = name
  · simp [place?, List.findIdx?_cons, same]
  · simp only [place?, List.findIdx?_cons, same, decide_false, Bool.false_eq_true, if_false]
    cases rest.findIdx? fun component => decide (component.1 = name) with
    | none => rfl
    | some i => cases found : rest[i]? <;> simp [found]

/-- The search by name with a running count comes to the place of the component. -/
theorem findComponent?_eq (name : String) (components : List (String × Mapping)) (start : Nat) :
    findComponent? name components start =
      (place? name components).map fun (i, part) =>
        (start + columnCounts (components.take i), part) := by
  induction components generalizing start with
  | nil => rfl
  | cons component rest ih =>
    obtain ⟨n, m⟩ := component
    rw [findComponent?, place?_cons]
    by_cases same : n = name
    · rw [if_pos same, if_pos same]
      rfl
    · rw [if_neg same, if_neg same, ih, Option.map_map]
      congr 1
      funext ⟨i, part⟩
      simp [columnCounts, Nat.add_assoc]

theorem getElem?_of_place? {name : String} {components : List (String × Mapping)} {i : Nat}
    {part : Mapping} (placed : place? name components = some (i, part)) :
    ∃ n, components[i]? = some (n, part) := by
  simp only [place?, Option.bind_eq_bind, Option.bind_eq_some_iff] at placed
  obtain ⟨j, -, ⟨n, m⟩, found, made⟩ := placed
  cases made
  exact ⟨n, found⟩

/-- The columns of a component end where those of the whole do, or before. -/
theorem columnCounts_take_le {components : List (String × Mapping)} {i : Nat} {n : String}
    {part : Mapping} (found : components[i]? = some (n, part)) :
    columnCounts (components.take i) + part.columnCount ≤ columnCounts components := by
  induction components generalizing i with
  | nil => contradiction
  | cons component rest ih =>
    obtain ⟨name, m⟩ := component
    cases i with
    | zero =>
      cases found
      rw [List.take_zero, columnCounts, columnCounts]
      omega
    | succ i =>
      have later := ih found
      rw [List.take_succ_cons, columnCounts, columnCounts]
      omega

theorem within?_le {names : List String} {m component : Mapping} {start : Nat}
    (leads : within? names m = some (start, component)) :
    start + component.columnCount ≤ m.columnCount := by
  induction names generalizing m start with
  | nil =>
    cases leads
    exact Nat.le_of_eq (Nat.zero_add _)
  | cons name rest ih =>
    cases m with
    | embedded _ components =>
      simp only [within?, Option.bind_eq_bind, Option.bind_eq_some_iff] at leads
      obtain ⟨⟨i, part⟩, placed, ⟨inner, last⟩, leads, made⟩ := leads
      cases made
      obtain ⟨n, found⟩ := getElem?_of_place? placed
      have whole := columnCounts_take_le found
      have below : inner + last.columnCount ≤ part.columnCount := ih leads
      rw [columnCount]
      dsimp only
      omega
    | basic | converted | identifier | foreignKey => contradiction

/-- A segment of a segment, counted from the start of the whole. -/
theorem take_drop_segment {α : Type} (as : List α) {start count inner part : Nat}
    (within : inner + part ≤ count) :
    (((as.drop start).take count).drop inner).take part = (as.drop (start + inner)).take part := by
  rw [List.drop_take, List.take_take, List.drop_drop, Nat.min_eq_left (by omega)]

/-- Narrowing the columns name by name comes to the segment of the component. -/
theorem descend_eq (names : List String) {m : Mapping} {columns : List String}
    (whole : columns.length = m.columnCount) :
    descend names m columns = (within? names m).map fun (start, component) =>
      (component, (columns.drop start).take component.columnCount) := by
  induction names generalizing m columns with
  | nil =>
    change some (m, columns) = some (m, (columns.drop 0).take m.columnCount)
    rw [List.drop_zero, ← whole, List.take_length]
  | cons name rest ih =>
    cases m with
    | embedded _ components =>
      rw [descend, within?, findComponent?_eq]
      cases placed : place? name components with
      | none => rfl
      | some found =>
        obtain ⟨i, part⟩ := found
        obtain ⟨n, found⟩ := getElem?_of_place? placed
        have inside := columnCounts_take_le found
        rw [columnCount] at whole
        have narrowed : ((columns.drop (columnCounts (components.take i))).take part.columnCount).length =
            part.columnCount := by
          rw [List.length_take, List.length_drop]
          omega
        simp only [Option.map_some, Nat.zero_add, Option.bind_eq_bind, Option.bind_some]
        rw [if_pos (by omega), ih narrowed]
        cases leads : within? rest part with
        | none => rfl
        | some inner =>
          obtain ⟨start, component⟩ := inner
          simp [take_drop_segment columns (within?_le leads)]
    | basic | converted | identifier | foreignKey => rfl

/-! Values. -/

theorem decomposeParts_nulls {components : List (String × Mapping)} (keep : ∀ c ∈ components, c.2.KeepsNull) :
    decomposeParts components (List.replicate components.length .null) =
      .ok ((typesOf components).map fun type => ⟨type, .null⟩) := by
  induction components with
  | nil => rfl
  | cons component rest ih =>
    obtain ⟨name, m⟩ := component
    obtain ⟨first, later⟩ := List.forall_mem_cons.mp keep
    rw [List.length_cons, List.replicate_succ, decomposeParts, m.decompose_null first, ih later, typesOf_cons,
      List.map_append]
    rfl

/-- A null decomposes as the composite of nulls does. -/
theorem decompose_nulls (name : String) {components : List (String × Mapping)}
    (keep : ∀ c ∈ components, c.2.KeepsNull) : (embedded name components).decompose .null =
      (embedded name components).decompose (.composite (List.replicate components.length .null)) := by
  rw [decompose, decompose, if_pos List.length_replicate, decomposeParts_nulls keep, nulls,
    columnTypes_embedded]

/-- The column types of a component are a segment of those of the whole. -/
theorem typesOf_at {components : List (String × Mapping)} {i : Nat} {n : String} {part : Mapping}
    (found : components[i]? = some (n, part)) :
    ((typesOf components).drop (columnCounts (components.take i))).take part.columnCount =
      part.columnTypes := by
  induction components generalizing i with
  | nil => contradiction
  | cons component rest ih =>
    obtain ⟨name, m⟩ := component
    rw [typesOf_cons]
    cases i with
    | zero =>
      cases found
      rw [List.take_zero, columnCounts, List.drop_zero, List.take_left' part.columnTypes_length]
    | succ i =>
      rw [List.take_succ_cons, columnCounts, ← m.columnTypes_length, List.drop_length_add_append, ih found]

theorem decomposeParts_at {components : List (String × Mapping)} {parts : List Value}
    {values : List ColumnValue} {i : Nat} {n : String} {part : Mapping} {w : Value}
    (made : decomposeParts components parts = .ok values) (found : components[i]? = some (n, part))
    (placed : parts[i]? = some w) :
    part.decompose w =
      .ok ((values.drop (columnCounts (components.take i))).take part.columnCount) := by
  induction components generalizing parts values i with
  | nil => contradiction
  | cons component rest ih =>
    obtain ⟨name, m⟩ := component
    cases parts with
    | nil => contradiction
    | cons v parts =>
      rw [decomposeParts] at made
      obtain ⟨first, own, made⟩ := bind_ok.mp made
      obtain ⟨later, others, made⟩ := bind_ok.mp made
      cases made
      have count : first.length = m.columnCount := by
        rw [decompose_length own, columnTypes_length]
      cases i with
      | zero =>
        cases found
        cases placed
        rw [own, List.take_zero, columnCounts, List.drop_zero, List.take_left' count]
      | succ i =>
        rw [ih others found placed, List.take_succ_cons, columnCounts, ← count,
          List.drop_length_add_append]

theorem decompose_at {name n : String} {components : List (String × Mapping)} {v w : Value}
    {values : List ColumnValue} {i : Nat} {part : Mapping} (keeps : part.KeepsNull)
    (made : (embedded name components).decompose v = .ok values)
    (found : components[i]? = some (n, part)) (placed : v.partAt? i = some w) :
    part.decompose w =
      .ok ((values.drop (columnCounts (components.take i))).take part.columnCount) := by
  cases v with
  | null =>
    cases placed
    rw [decompose, nulls, columnTypes_embedded] at made
    cases made
    rw [part.decompose_null keeps, nulls, ← List.map_drop, ← List.map_take, typesOf_at found]
  | composite parts =>
    rw [decompose] at made
    split at made
    · exact decomposeParts_at made found placed
    · contradiction
  | _ => contradiction

/-- Whatever is accepted has a part at the place of each component. -/
theorem partAt?_isSome {name n : String} {components : List (String × Mapping)} {v : Value}
    {values : List ColumnValue} {i : Nat} {part : Mapping}
    (made : (embedded name components).decompose v = .ok values)
    (found : components[i]? = some (n, part)) : ∃ w, v.partAt? i = some w := by
  have inside : i < components.length := (List.getElem?_eq_some_iff.mp found).1
  cases v with
  | null => exact ⟨.null, rfl⟩
  | composite parts =>
    rw [decompose] at made
    split at made
    next whole => exact ⟨_, List.getElem?_eq_getElem (whole ▸ inside)⟩
    · contradiction
  | _ => contradiction

/-- On the way to a component there are only embedded mappings. -/
theorem keepsNull_of_within {names : List String} {m component : Mapping} {start : Nat}
    (leads : within? names m = some (start, component)) (keeps : component.KeepsNull) : m.KeepsNull := by
  cases names with
  | nil =>
    cases leads
    exact keeps
  | cons name rest =>
    cases m with
    | embedded => trivial
    | basic | converted | identifier | foreignKey => contradiction

/-- The part along the names decomposes into the column values that lie where its columns do. -/
theorem decompose_along {names : List String} {m component : Mapping} {start : Nat} {v : Value}
    {values : List ColumnValue} (keeps : component.KeepsNull) (leads : within? names m = some (start, component))
    (made : m.decompose v = .ok values) :
    ∃ w, partAlong? names m v = some w ∧
      component.decompose w = .ok ((values.drop start).take component.columnCount) := by
  induction names generalizing m start v values with
  | nil =>
    cases leads
    have count : values.length = component.columnCount := by
      rw [decompose_length made, columnTypes_length]
    refine ⟨v, rfl, ?_⟩
    rw [made, List.drop_zero, ← count, List.take_length]
  | cons name rest ih =>
    cases m with
    | embedded _ components =>
      simp only [within?, Option.bind_eq_bind, Option.bind_eq_some_iff] at leads
      obtain ⟨⟨i, part⟩, placed, ⟨inner, _⟩, leads, made'⟩ := leads
      cases made'
      obtain ⟨n, found⟩ := getElem?_of_place? placed
      obtain ⟨u, there⟩ := partAt?_isSome made found
      obtain ⟨w, along, decomposed⟩ := ih leads (decompose_at (keepsNull_of_within leads keeps) made found there)
      refine ⟨w, ?_, ?_⟩
      · simp [partAlong?, placed, there, along]
      · rw [decomposed, take_drop_segment values (within?_le leads)]
    | basic | converted | identifier | foreignKey => contradiction

end Mapping

end SemanticQuery
