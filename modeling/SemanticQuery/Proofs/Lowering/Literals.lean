import SemanticQuery.Proofs.Lowering.Opposite
import SemanticQuery.Query.Builder

/-! Literals opposite a path. A literal that was built from a value has the standard type of the value's kind,
and the mapping of the path is a hint, asked for only where no catalog has such a type. So a converter of the
path does not reach the literals that have a standard type. -/
namespace SemanticQuery

namespace Catalog

/-- A catalog that answers each kind with a type of that kind. -/
def Filed (c : Catalog) : Prop := ∀ k t, c.standardType? k = some t → t.kind = k

theorem filed_empty : empty.Filed := by
  intro k t found
  contradiction

theorem Filed.register {c : Catalog} (filed : c.Filed) (t : BasicType) : (c.register t).Filed := by
  intro k u found
  obtain ⟨rfl, rfl⟩ | before := KeyedList.of_find?_insert found
  · rfl
  · exact filed k u before

theorem filed_standard : standard.Filed := by
  rw [standard]
  refine List.foldlRecOn (motive := Filed) scalars _ filed_empty fun c filed s _ => ?_
  split
  · exact filed.register _
  · exact filed

theorem Filed.decompose {c : Catalog} (filed : c.Filed) {v : Value} {type : BasicType}
    (standard : c.standardType? v.kind = some type) :
    (Mapping.basic type).decompose v = .ok [⟨type.column, v⟩] := by
  have kind := filed v.kind type standard
  rw [Mapping.decompose, if_pos]
  simp [Mapping.accepts, kind]

end Catalog

namespace Lowering
open Query

/-- The type that is standard for a value: that of the builder's catalog, else that of the model's. -/
def standardFor? (b : Builder) (m : Model) (v : Value) : Option BasicType :=
  (b.catalog.standardType? v.kind).or (m.catalog.standardType? v.kind)

/-- A literal of the value itself under its standard type; without one, of what the other side stores for it. -/
def writtenLiteral (b : Builder) (m : Model) (v : Value) (stored : ColumnValue) : Sql.Expr :=
  match standardFor? b m v with
  | some type => .literal v type.column
  | none => .literal stored.value stored.type

/-- A path to a converted mapping, and what is stored there for a value that the converter takes. -/
structure Converts (m : Model) (f : Sql.FromClause) (path : Path) (r : ResolvedPath) (v : Value)
    (stored : ColumnValue) : Prop where
  resolved : m.resolvePath f path = .ok r
  mapped : ∃ converter relational, r.mapping = .converted converter relational ∧
    converter.toRelational v = .ok stored.value ∧ relational.column = stored.type

theorem Converts.decompose {m : Model} {f : Sql.FromClause} {path : Path} {r : ResolvedPath} {v : Value}
    {stored : ColumnValue} (converts : Converts m f path r v stored) :
    r.mapping.decompose v = .ok [stored] := by
  obtain ⟨converter, relational, mapped, taken, column⟩ := converts.mapped
  rw [mapped, Mapping.decompose, taken, column]
  rfl

/-- A value of one column is written as one literal. -/
theorem decomposed_literal {m : Mapping} {v : Value} {cv : ColumnValue} (parts : m.decompose v = .ok [cv])
    (p : Progress) : (do
      let values ← liftMapping (m.decompose v)
      return .ofList (values.map fun cv => .literal cv.value cv.type) : LowerM Sql.Expr) p =
        .ok (.literal cv.value cv.type) p := by
  rw [parts]
  rfl

/-- A literal under the hint of a converted path. -/
theorem lowerLiteral_of_hint {c : Scope} {h : Hint} {b : Builder} {v : Value} {stored : ColumnValue}
    {m : Mapping} (filed : b.catalog.Filed) (modelFiled : c.model.catalog.Filed)
    (hinted : ∀ w, h w = (some m, w)) (taken : m.decompose v = .ok [stored]) (p : Progress) :
    lowerLiteral c h v (b.literalType v) p = .ok (writtenLiteral b c.model v stored) p := by
  rw [writtenLiteral, standardFor?, Builder.literalType]
  cases own : b.catalog.standardType? v.kind with
  | some type => exact decomposed_literal (filed.decompose own) p
  | none =>
    have known : c.mapping (.domain v.kind) =
        .ok ((c.model.catalog.standardType? v.kind).map .basic) := rfl
    simp only [lowerLiteral, known]
    cases others : c.model.catalog.standardType? v.kind with
    | some type => exact decomposed_literal (modelFiled.decompose others) p
    | none =>
      -- only here is the hint asked for
      refine run_bind_ok.mpr ⟨none, p, rfl, run_bind_ok.mpr ⟨some m, p, ?_, decomposed_literal taken p⟩⟩
      simp only [runHint, hinted]

variable {c : Scope} {b : Builder} {path : PathRef} {r : ResolvedPath} {v : Value}
  {stored : ColumnValue} {p p' : Progress}

/-- What is written for a comparison of a converted path with a literal, for each order of the two. -/
structure FacesLiteral (b : Builder) (model : Model) (source : Sql.FromClause) (condition : Predicate)
    (lowered : Sql.Predicate) : Prop where
  right : ∀ {n node : NodeId} {path : PathRef} {operator : Comparison} {r : ResolvedPath} {v : Value}
    {stored : ColumnValue},
    condition = .comparison (.path n path) operator (.literal node v (b.literalType v)) →
    Converts model source path.path r v stored →
    lowered = .comparison (.ofColumns (columnRefs r.qualifier r.columns r.mapping)) operator
      (writtenLiteral b model v stored)
  left : ∀ {n node : NodeId} {path : PathRef} {operator : Comparison} {r : ResolvedPath} {v : Value}
    {stored : ColumnValue},
    condition = .comparison (.literal node v (b.literalType v)) operator (.path n path) →
    Converts model source path.path r v stored →
    lowered = .comparison (writtenLiteral b model v stored) operator
      (.ofColumns (columnRefs r.qualifier r.columns r.mapping))

theorem lowerExpr_literal (n node : NodeId) (filed : b.catalog.Filed)
    (modelFiled : c.model.catalog.Filed) (converts : Converts c.model c.source path.path r v stored)
    (p : Progress) : lowerExpr c (typeHint c (.path n path)) (.literal node v (b.literalType v)) p =
      .ok (writtenLiteral b c.model v stored) p := by
  rw [lowerExpr]
  exact lowerLiteral_of_hint filed modelFiled (typeHint_path converts.resolved) converts.decompose p

theorem lowerPredicate_facesLiteral {condition : Predicate} {lowered : Sql.Predicate}
    (filed : b.catalog.Filed) (modelFiled : c.model.catalog.Filed)
    (ran : lowerPredicate c condition p = .ok lowered p') :
    FacesLiteral b c.model c.source condition lowered where
  right := by
    rintro n node path operator r v stored rfl converts
    rw [lowerPredicate] at ran
    obtain ⟨columns, q, first, ran⟩ := run_bind_ok.mp ran
    obtain ⟨literal, q', second, made⟩ := run_bind_ok.mp ran
    cases made
    rw [lowerExpr_literal n node filed modelFiled converts] at second
    cases second
    rw [lowerExpr] at first
    obtain ⟨again, resolved, rfl, rfl⟩ := lowerPath_ok first
    cases converts.resolved.symm.trans resolved
    rfl
  left := by
    rintro n node path operator r v stored rfl converts
    rw [lowerPredicate] at ran
    obtain ⟨literal, q, first, ran⟩ := run_bind_ok.mp ran
    obtain ⟨columns, q', second, made⟩ := run_bind_ok.mp ran
    cases made
    rw [lowerExpr_literal n node filed modelFiled converts] at first
    cases first
    rw [lowerExpr] at second
    obtain ⟨again, resolved, rfl, rfl⟩ := lowerPath_ok second
    cases converts.resolved.symm.trans resolved
    rfl

/-- An assignment is lowered under the mapping of its target. -/
theorem lowerAssignment_literal {node : NodeId} (filed : b.catalog.Filed)
    (modelFiled : c.model.catalog.Filed) (converts : Converts c.model c.source path.path r v stored)
    (p : Progress) : lowerAssignment c ⟨path, .literal node v (b.literalType v)⟩ p =
      .ok ⟨columnRefs r.qualifier r.columns r.mapping, writtenLiteral b c.model v stored⟩ p := by
  refine run_bind_ok.mpr ⟨r, p, by rw [converts.resolved]; rfl, run_bind_ok.mpr ⟨_, p, ?_, rfl⟩⟩
  rw [lowerExpr]
  exact lowerLiteral_of_hint filed modelFiled (fun _ => rfl) converts.decompose p

/-- Literals opposite a converted path. A comparison of such a path with a literal that is built from a value
the converter takes, either way round, and an assignment of the literal to the path are lowered wherever the
path is resolved. The literal comes out as the value itself in the column of its standard type, that of the
builder's catalog or else that of the model's, and only where neither has one as the converter stores the
value, in the column of the path. So it is for each comparison and each assignment of a lowered statement. -/
theorem literals_keep_standard_types {b : Builder} {model : Model} (filed : b.catalog.Filed)
    (modelFiled : model.catalog.Filed) :
    (∀ (c : Scope) {path : PathRef} {r : ResolvedPath} {v : Value} {stored : ColumnValue}
        (n node : NodeId) (operator : Comparison) (p : Progress), c.model = model →
        (c.source.find? (.root path.path.rootName)).isSome →
        Converts model c.source path.path r v stored →
      lowerPredicate c (.comparison (.path n path) operator (.literal node v (b.literalType v))) p =
        .ok (.comparison (.ofColumns (columnRefs r.qualifier r.columns r.mapping)) operator
          (writtenLiteral b model v stored)) p ∧
      lowerPredicate c (.comparison (.literal node v (b.literalType v)) operator (.path n path)) p =
        .ok (.comparison (writtenLiteral b model v stored) operator
          (.ofColumns (columnRefs r.qualifier r.columns r.mapping))) p ∧
      lowerAssignment c ⟨path, .literal node v (b.literalType v)⟩ p =
        .ok ⟨columnRefs r.qualifier r.columns r.mapping, writtenLiteral b model v stored⟩ p) ∧
    ∀ {strict : Bool} {expansions : OccurrenceId → List Occurrence} {s : Statement} {w w' : Workspace}
        {l : Lowered}, lowerStatement model strict expansions s w = .ok l w' →
      List.Forall₂ (FacesLiteral b model l.source) s.conditions l.statement.conditions ∧
      List.Forall₂ (fun a target => ∀ node v r stored, a.value = .literal node v (b.literalType v) →
        Converts model l.source a.target.path r v stored →
        target = ⟨columnRefs r.qualifier r.columns r.mapping, writtenLiteral b model v stored⟩)
        s.assignments l.statement.assignments := by
  constructor
  · rintro c path r v stored n node operator p rfl rooted converts
    obtain ⟨group, rooted⟩ := Option.isSome_iff_exists.mp rooted
    have columns := lowerPath_of_resolved rooted converts.resolved p
    have literal := lowerExpr_literal n node filed modelFiled converts p
    refine ⟨?_, ?_, lowerAssignment_literal filed modelFiled converts p⟩
    · rw [lowerPredicate]
      refine run_bind_ok.mpr ⟨_, p, ?_, run_bind_ok.mpr ⟨_, p, literal, rfl⟩⟩
      rw [lowerExpr]
      exact columns
    · rw [lowerPredicate]
      refine run_bind_ok.mpr ⟨_, p, literal, run_bind_ok.mpr ⟨_, p, ?_, rfl⟩⟩
      rw [lowerExpr]
      exact columns
  · intro strict expansions s w w' l lowered
    obtain ⟨c, last, rfl, rfl, source, -, stages⟩ := lowerStatement_stages lowered
    rw [← source]
    constructor
    · obtain ⟨p, ran⟩ := stages.conditions
      refine (mapM_keepsGroups (lowerPredicate_lowers c) ran).imp ?_
      rintro condition made ⟨q, q', ran, -⟩
      exact lowerPredicate_facesLiteral filed modelFiled ran
    · obtain ⟨p, p', ran, -⟩ := stages.assignments
      refine (mapM_keepsGroups (lowerAssignment_lowers c) ran).imp ?_
      rintro ⟨target, value⟩ made ⟨q, q', ran, -⟩ node v r stored rfl converts
      rw [lowerAssignment_literal filed modelFiled converts] at ran
      cases ran
      rfl

/-! People whose flag is stored as a letter and whose status as a number. -/
namespace Flagged
open Model.Sample (model type status people activePath)

def builder : Builder := .new .standard .empty

def literal (node : NodeId) (v : Value) : Expr := .literal node v (builder.literalType v)

def statusPath : PathRef := ⟨⟨["p", "status"], by simp, by decide⟩, .text⟩

def source : Sql.FromClause := ⟨[.entity people "Person" ⟨"person", "p"⟩]⟩

def active : ResolvedPath := ⟨"p", ["active"], .converted .yesNo (type .character)⟩

def standing : ResolvedPath := ⟨"p", ["status"], .converted status (type .integer)⟩

/-- The flag is forgotten where the status is one constant or the flag is set. -/
def statement : Statement := .update {
  target := ⟨"Person", people⟩
  assignments := [⟨activePath, literal 0 .null⟩]
  restriction := some (.or [.comparison (.path 1 statusPath) .equal (literal 2 (.text "CLOSED")),
    .comparison (literal 3 (.bool true)) .equal (.path 4 activePath)]) }

theorem only_null_is_stored :
    ∃ l w, lowerStatement model true (fun _ => []) statement .empty = .ok l w ∧
      l.statement.assignments = [⟨[⟨"p", "active", .char⟩], .literal .null .char⟩] ∧
      l.statement.conditions =
        [.comparison (.column ⟨"p", "status", .integer⟩) .equal (.literal (.text "CLOSED") .varchar),
          .comparison (.literal (.bool true) .boolean) .equal (.column ⟨"p", "active", .char⟩)] := by
  have lowered : lowerStatement model true (fun _ => []) statement .empty = .ok _ _ := rfl
  have forgotten : Converts model source activePath.path active .null ⟨.char, .null⟩ :=
    ⟨rfl, .yesNo, _, rfl, rfl, rfl⟩
  have closed : Converts model source statusPath.path standing (.text "CLOSED") ⟨.integer, .int 2⟩ :=
    ⟨rfl, status, _, rfl, rfl, rfl⟩
  have set : Converts model source activePath.path active (.bool true) ⟨.char, .char 'Y'⟩ :=
    ⟨rfl, .yesNo, _, rfl, rfl, rfl⟩
  obtain ⟨conditions, assignments⟩ :=
    (literals_keep_standard_types (b := builder) Catalog.filed_standard Catalog.filed_standard).2 lowered
  obtain ⟨first, conditions⟩ := List.forall₂_cons.mp conditions
  obtain ⟨second, -⟩ := List.forall₂_cons.mp conditions
  obtain ⟨assigned, -⟩ := List.forall₂_cons.mp assignments
  refine ⟨_, _, lowered, ?_, ?_⟩
  · exact congrArg (fun target => [target]) (assigned 0 _ _ _ rfl forgotten)
  · exact congrArg₂ (fun left right => [left, right]) (first.right rfl closed) (second.left rfl set)

/-- The flag of a person is compared with a truth value, where a letter is stored for it. -/
theorem flag_meets_truth_value :
    ∃ l w, lowerStatement model true (fun _ => [])
        (.select ⟨[⟨"Person", people⟩], [], [],
          some (.comparison (.path 0 activePath) .equal (literal 1 (.bool true)))⟩) .empty = .ok l w ∧
      Converts model l.source activePath.path active (.bool true) ⟨.char, .char 'Y'⟩ ∧
      l.statement.conditions =
        [.comparison (.column ⟨"p", "active", .char⟩) .equal (.literal (.bool true) .boolean)] ∧
      Sql.Expr.literal (.bool true) .boolean ≠ .literal (.char 'Y') .char :=
  ⟨_, _, rfl, ⟨rfl, .yesNo, _, rfl, rfl, rfl⟩, rfl, by simp⟩

end Flagged

end Lowering

end SemanticQuery
