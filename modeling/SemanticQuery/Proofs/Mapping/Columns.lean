import SemanticQuery.Mapping.Decompose
import SemanticQuery.Proofs.Outcome

/-! Columns of mappings: a composite has the columns of its components one after the other, and a value
decomposes into one value for each column, under the type of the column. A basic type leaves a value as
it is; a converter makes of it what it likes, but is expected to keep null. -/
namespace SemanticQuery

namespace Converter

/-- Null is stored as null, as it is expected of every converter. -/
def KeepsNull (c : Converter) : Prop := c.toRelational .null = .ok .null

theorem yesNo_keepsNull : yesNo.KeepsNull := rfl

theorem ordinal_keepsNull (name : String) (constants : List String) : (ordinal name constants).KeepsNull := rfl

end Converter

namespace Mapping

def typesOf (components : List (String × Mapping)) : List ColumnType :=
  components.flatMap fun component => component.2.columnTypes

theorem typesOf_cons (name : String) (m : Mapping) (rest : List (String × Mapping)) :
    typesOf ((name, m) :: rest) = m.columnTypes ++ typesOf rest := List.flatMap_cons

mutual

theorem visitColumns_types (start : Nat) (seen : List ColumnType) : (m : Mapping) →
    (m.visitColumns (fun types _ type => types ++ [type]) start seen).2 = seen ++ m.columnTypes
  | basic _ | converted .. => rfl
  | embedded name components => by
    have all := visitComponents_types 0 [] components
    rw [List.nil_append] at all
    rw [columnTypes, visitColumns, visitColumns, all]
    exact visitComponents_types start seen components
  | identifier _ _ key | foreignKey _ _ key => by
    rw [columnTypes, visitColumns, visitColumns]
    exact visitColumns_types start seen key

theorem visitComponents_types (start : Nat) (seen : List ColumnType) :
    (components : List (String × Mapping)) →
    (visitComponents (fun types _ type => types ++ [type]) start seen components).2 =
      seen ++ typesOf components
  | [] => (List.append_nil seen).symm
  | (_, m) :: rest => by
    rw [visitComponents, typesOf_cons, ← List.append_assoc]
    have first := visitColumns_types start seen m
    generalize m.visitColumns (fun types _ type => types ++ [type]) start seen = visited at first ⊢
    obtain ⟨span, types⟩ := visited
    subst first
    exact visitComponents_types (start + span) _ rest

end

theorem columnTypes_embedded (name : String) (components : List (String × Mapping)) :
    (embedded name components).columnTypes = typesOf components := by
  rw [columnTypes, visitColumns]
  exact (visitComponents_types 0 [] components).trans (List.nil_append _)

theorem columnTypes_identifier (entity idName : String) (key : Mapping) :
    (identifier entity idName key).columnTypes = key.columnTypes := rfl

theorem columnTypes_foreignKey (association target : String) (key : Mapping) :
    (foreignKey association target key).columnTypes = key.columnTypes := rfl

mutual

theorem columnTypes_length : (m : Mapping) → m.columnTypes.length = m.columnCount
  | basic _ | converted .. => rfl
  | embedded name components => by
    rw [columnTypes_embedded, columnCount]
    exact typesOf_length components
  | identifier entity idName key => by
    rw [columnTypes_identifier, columnCount]
    exact columnTypes_length key
  | foreignKey association target key => by
    rw [columnTypes_foreignKey, columnCount]
    exact columnTypes_length key

theorem typesOf_length : (components : List (String × Mapping)) →
    (typesOf components).length = columnCounts components
  | [] => rfl
  | (_, m) :: rest => by
    rw [typesOf_cons, List.length_append, columnCounts, columnTypes_length m, typesOf_length rest]

end

mutual

/-- Every walk visits the column types in order, each under its position, and counts the columns. -/
theorem visitColumns_eq {σ : Type} (visit : σ → Nat → ColumnType → σ) (start : Nat) (s : σ) :
    (m : Mapping) → m.visitColumns visit start s =
      (m.columnCount, (m.columnTypes.zip (List.range' start m.columnCount)).foldl
        (fun s column => visit s column.2 column.1) s)
  | basic _ | converted .. => rfl
  | embedded name components => by
    rw [visitColumns, columnTypes_embedded, columnCount]
    exact visitComponents_eq visit start s components
  | identifier entity idName key => by
    rw [visitColumns, columnTypes_identifier, columnCount]
    exact visitColumns_eq visit start s key
  | foreignKey association target key => by
    rw [visitColumns, columnTypes_foreignKey, columnCount]
    exact visitColumns_eq visit start s key

theorem visitComponents_eq {σ : Type} (visit : σ → Nat → ColumnType → σ) (start : Nat) (s : σ) :
    (components : List (String × Mapping)) → visitComponents visit start s components =
      (columnCounts components,
        ((typesOf components).zip (List.range' start (columnCounts components))).foldl
          (fun s column => visit s column.2 column.1) s)
  | [] => rfl
  | (_, m) :: rest => by
    have aligned : m.columnTypes.length = (List.range' start m.columnCount).length := by
      rw [columnTypes_length, List.length_range']
    rw [visitComponents, visitColumns_eq visit start s m]
    dsimp only
    rw [visitComponents_eq visit (start + m.columnCount) _ rest, columnCounts, typesOf_cons,
      ← List.range'_append_1, List.zip_append aligned, List.foldl_append]

end

theorem nulls_types (m : Mapping) : m.nulls.map ColumnValue.type = m.columnTypes := by
  rw [nulls, List.map_map]
  exact List.map_id _

/-- A null gets to a converter by way of keys alone; an embedded mapping does not hand it to its components. -/
def KeepsNull : Mapping → Prop
  | basic _ | embedded .. => True
  | converted converter _ => converter.KeepsNull
  | identifier _ _ key | foreignKey _ _ key => key.KeepsNull

/-- Whatever the shape of the mapping, a null has a null for each of its columns. -/
theorem decompose_null : (m : Mapping) → m.KeepsNull → m.decompose .null = .ok m.nulls
  | basic type, _ => by
    rw [decompose]
    rfl
  | converted converter relational, keeps => by
    rw [KeepsNull, Converter.KeepsNull] at keeps
    rw [decompose, keeps]
    rfl
  | embedded name components, _ => by rw [decompose]
  | identifier entity idName key, keeps => by
    rw [decompose]
    exact decompose_null key keeps
  | foreignKey association target key, keeps => by
    rw [decompose]
    exact decompose_null key keeps

mutual

/-- Whatever the shape of the mapping, the values of a decomposition have the types of its columns. -/
theorem decompose_types : (m : Mapping) → (v : Value) → {values : List ColumnValue} →
    m.decompose v = .ok values → values.map ColumnValue.type = m.columnTypes
  | basic type, v, values, parts => by
    rw [decompose] at parts
    split at parts
    · cases parts
      rfl
    · contradiction
  | converted converter relational, v, values, parts => by
    rw [decompose] at parts
    obtain ⟨stored, -, made⟩ := bind_ok.mp parts
    cases made
    rfl
  | embedded name components, .null, values, parts => by
    cases parts
    exact nulls_types _
  | embedded name components, .composite items, values, parts => by
    rw [decompose] at parts
    split at parts
    next whole =>
      rw [columnTypes_embedded]
      exact decomposeParts_types components items whole parts
    · contradiction
  | identifier entity idName key, v, values, parts => by
    rw [decompose] at parts
    rw [columnTypes_identifier]
    exact decompose_types key v.identifier parts
  | foreignKey association target key, v, values, parts => by
    rw [decompose] at parts
    rw [columnTypes_foreignKey]
    exact decompose_types key v.identifier parts

theorem decomposeParts_types : (components : List (String × Mapping)) → (parts : List Value) →
    {values : List ColumnValue} → parts.length = components.length →
    decomposeParts components parts = .ok values → values.map ColumnValue.type = typesOf components
  | [], parts, values, _, made => by
    rw [decomposeParts] at made
    · cases made
      rfl
    · simp
  | (_, m) :: rest, [], values, whole, made => by
    rw [List.length_nil, List.length_cons] at whole
    omega
  | (_, m) :: rest, part :: parts, values, whole, made => by
    rw [decomposeParts] at made
    obtain ⟨first, own, made⟩ := bind_ok.mp made
    obtain ⟨later, others, made⟩ := bind_ok.mp made
    cases made
    rw [List.length_cons, List.length_cons] at whole
    have behind := decomposeParts_types rest parts (by omega) others
    rw [List.map_append, decompose_types m part own, behind, typesOf_cons]

end

theorem decompose_length {m : Mapping} {v : Value} {values : List ColumnValue}
    (parts : m.decompose v = .ok values) : values.length = m.columnTypes.length := by
  rw [← m.decompose_types v parts, List.length_map]

/-- All walks over the columns of a mapping agree: any walk visits the positions from zero up, each with
the type listed there, and returns the number of columns, which is that of the listed types; and a value
decomposes, when it does, under exactly these types. -/
theorem column_walks_agree (m : Mapping) :
    (∀ {σ : Type} (visit : σ → Nat → ColumnType → σ) (s : σ), m.visitColumns visit 0 s =
      (m.columnCount, (m.columnTypes.zip (List.range m.columnCount)).foldl
        (fun s column => visit s column.2 column.1) s)) ∧
    m.visitColumns (fun seen position _ => seen ++ [position]) 0 [] =
      (m.columnCount, List.range m.columnCount) ∧
    m.columnTypes.length = m.columnCount ∧
    ∀ v values, m.decompose v = .ok values → values.map ColumnValue.type = m.columnTypes := by
  have walk : ∀ {σ : Type} (visit : σ → Nat → ColumnType → σ) (s : σ), m.visitColumns visit 0 s =
      (m.columnCount, (m.columnTypes.zip (List.range m.columnCount)).foldl
        (fun s column => visit s column.2 column.1) s) := by
    intro σ visit s
    rw [List.range_eq_range']
    exact m.visitColumns_eq visit 0 s
  refine ⟨walk, ?_, m.columnTypes_length, fun v values parts => m.decompose_types v parts⟩
  -- The positions alone: what is zipped with them is as long as they are.
  have positions : (m.columnTypes.zip (List.range m.columnCount)).map Prod.snd =
      List.range m.columnCount := by
    apply List.map_snd_zip
    simp [columnTypes_length]
  rw [walk, List.foldl_append_eq_append, List.nil_append, ← List.flatMap_def, ← List.map_eq_flatMap,
    positions]

/-- A foreign key to accounts, which are identified by a region, a flag and the branch they belong to. -/
def account : Mapping :=
  .foreignKey "account" "Account" (.embedded "AccountId"
    [("region", .embedded "Region" [("country", .basic ⟨"string", .text, .varchar⟩),
        ("number", .basic ⟨"integer", .integer, .integer⟩)]),
      ("active", .converted .yesNo ⟨"character", .character, .char⟩),
      ("branch", .identifier "Branch" "id" (.basic ⟨"long", .long, .bigInt⟩))])

/-- An account with an entity inside its identifier and nothing known of its region. -/
def savings : Value :=
  .entity "Account" (.composite [.null, .bool true, .entity "Branch" (.long 3) []])
    [("title", .text "savings")]

theorem account_columns :
    account.decompose savings =
      .ok [⟨.varchar, .null⟩, ⟨.integer, .null⟩, ⟨.char, .char 'Y'⟩, ⟨.bigInt, .long 3⟩] ∧
    account.columnTypes = [.varchar, .integer, .char, .bigInt] ∧
    account.visitColumns (fun seen position _ => seen ++ [position]) 0 [] = (4, [0, 1, 2, 3]) :=
  ⟨rfl, ((column_walks_agree account).2.2.2 savings _ rfl).symm, (column_walks_agree account).2.1⟩

/-- A basic type leaves the values it takes as they are. -/
theorem decompose_basic {type : BasicType} {v : Value} {values : List ColumnValue}
    (parts : (basic type).decompose v = .ok values) : values = [⟨type.column, v⟩] := by
  rw [decompose] at parts
  split at parts
  · exact (Except.ok.inj parts).symm
  · contradiction

end Mapping

end SemanticQuery
