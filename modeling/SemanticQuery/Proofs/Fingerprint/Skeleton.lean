import SemanticQuery.Fingerprint.Encoding

/-! The skeleton of a statement: what is left of it in a fingerprint, as data. A skeleton has an
encoding of its own, and the bytes hashed for a statement are exactly the encoding of its skeleton. -/
namespace SemanticQuery.Fingerprint
open Query Binding

/-- A type leaves its kind and its text. -/
@[ext]
structure TypeMark where
  kind : Kind
  text : String
  deriving DecidableEq

/-- An occurrence leaves its own types and, by position, the types of its expansions. -/
@[ext]
structure ParameterMark where
  key : ParameterKey
  id : OccurrenceId
  anticipated : Option TypeMark
  declared : Option TypeMark
  multiValued : Bool
  expansions : List (Option TypeMark)
  deriving DecidableEq

inductive ExprSkeleton where
  | literal (type : TypeMark) (kind : Kind) (text : String)
  | parameter (mark : ParameterMark)
  | path (path : Path) (kind : Kind)
  | call (name : String) (implied : Option TypeMark) (arguments : List ExprSkeleton)
  | tuple (elements : List ExprSkeleton)

inductive PredicateSkeleton where
  | comparison (lhs : ExprSkeleton) (operator : Comparison) (rhs : ExprSkeleton)
  | inList (test : ExprSkeleton) (items : List ExprSkeleton) (negated : Bool)
  | and (children : List PredicateSkeleton)
  | or (children : List PredicateSkeleton)
  | not (inner : PredicateSkeleton)
  | isNull (expr : ExprSkeleton) (negated : Bool)

@[ext]
structure ValuesSkeleton where
  path : Path
  columns : List String
  rows : List (List ExprSkeleton)

@[ext]
structure SelectionSkeleton where
  expr : ExprSkeleton
  label : Option String

@[ext]
structure AssignmentSkeleton where
  target : Path
  value : ExprSkeleton

inductive StatementSkeleton where
  | select (roots : List Root) (values : List ValuesSkeleton)
      (selections : List SelectionSkeleton) (restriction : Option PredicateSkeleton)
  | update (target : Root) (assignments : List AssignmentSkeleton)
      (restriction : Option PredicateSkeleton)
  | delete (target : Root) (restriction : Option PredicateSkeleton)

/-! Reading the skeleton off a statement. -/

def markOf (type : ExprType) : TypeMark := ⟨type.kind, type.text⟩

def parameterMark (t : OccurrenceTable) (o : Occurrence) : ParameterMark where
  key := o.key
  id := o.id
  anticipated := o.anticipated.map markOf
  declared := o.parameter.declared.map markOf
  multiValued := o.parameter.multiValued
  expansions := (t.expansions o.id).map fun e => e.anticipated.map markOf

mutual

def exprSkeleton (t : OccurrenceTable) : Expr → ExprSkeleton
  | .literal _ v type => .literal (markOf type) v.kind v.toText
  | .parameter _ o => .parameter (parameterMark t o)
  | .path _ source => .path source.path source.kind
  | .call _ function arguments implied _ =>
    .call function.name (implied.map markOf) (exprSkeletons t arguments)
  | .tuple _ elements _ => .tuple (exprSkeletons t elements)

def exprSkeletons (t : OccurrenceTable) : List Expr → List ExprSkeleton
  | [] => []
  | e :: rest => exprSkeleton t e :: exprSkeletons t rest

end

mutual

def predicateSkeleton (t : OccurrenceTable) : Predicate → PredicateSkeleton
  | .comparison lhs operator rhs => .comparison (exprSkeleton t lhs) operator (exprSkeleton t rhs)
  | .inList test items negated => .inList (exprSkeleton t test) (exprSkeletons t items) negated
  | .and children => .and (predicateSkeletons t children)
  | .or children => .or (predicateSkeletons t children)
  | .not inner => .not (predicateSkeleton t inner)
  | .isNull e negated => .isNull (exprSkeleton t e) negated

def predicateSkeletons (t : OccurrenceTable) : List Predicate → List PredicateSkeleton
  | [] => []
  | p :: rest => predicateSkeleton t p :: predicateSkeletons t rest

end

def valuesSkeleton (t : OccurrenceTable) (root : ValuesRoot) : ValuesSkeleton :=
  ⟨root.path, root.columns, root.rows.map (exprSkeletons t)⟩

def selectionSkeleton (t : OccurrenceTable) (item : Selection) : SelectionSkeleton :=
  ⟨exprSkeleton t item.expr, item.label⟩

def assignmentSkeleton (t : OccurrenceTable) (a : Assignment) : AssignmentSkeleton :=
  ⟨a.target.path, exprSkeleton t a.value⟩

def skeleton (t : OccurrenceTable) : Statement → StatementSkeleton
  | .select s =>
    .select s.roots (s.values.map (valuesSkeleton t)) (s.selections.map (selectionSkeleton t))
      (s.restriction.map (predicateSkeleton t))
  | .update u =>
    .update u.target (u.assignments.map (assignmentSkeleton t))
      (u.restriction.map (predicateSkeleton t))
  | .delete d => .delete d.target (d.restriction.map (predicateSkeleton t))

/-! The encoding of skeletons. -/

def TypeMark.bytes (m : TypeMark) : Bytes := ofKind m.kind ++ ofText m.text

def ParameterMark.bytes (m : ParameterMark) : Bytes :=
  ofText m.key.text ++ (word m.id.toNat ++ (ofOption TypeMark.bytes m.anticipated ++
    (ofOption TypeMark.bytes m.declared ++ (ofBool m.multiValued ++
      ofList (ofOption TypeMark.bytes) m.expansions))))

mutual

def ExprSkeleton.bytes : ExprSkeleton → Bytes
  | .literal type kind text => 0x40 :: 0x01 :: (type.bytes ++ (ofKind kind ++ ofText text))
  | .parameter mark => 0x41 :: mark.bytes
  | .path p kind => 0x42 :: (ofText p.text ++ ofKind kind)
  | .call name implied arguments =>
    0x43 :: (ofText name ++ (ofOption TypeMark.bytes implied ++
      (word arguments.length ++ ExprSkeleton.bytesOf arguments)))
  | .tuple elements => 0x44 :: (word elements.length ++ ExprSkeleton.bytesOf elements)

def ExprSkeleton.bytesOf : List ExprSkeleton → Bytes
  | [] => []
  | e :: rest => e.bytes ++ ExprSkeleton.bytesOf rest

end

mutual

def PredicateSkeleton.bytes : PredicateSkeleton → Bytes
  | .comparison lhs operator rhs => 0x22 :: (lhs.bytes ++ (ofComparison operator :: rhs.bytes))
  | .inList test items negated =>
    0x23 :: (ofBool negated ++ (test.bytes ++ (word items.length ++ ExprSkeleton.bytesOf items)))
  | .and children => 0x24 :: (word children.length ++ PredicateSkeleton.bytesOf children)
  | .or children => 0x25 :: (word children.length ++ PredicateSkeleton.bytesOf children)
  | .not inner => 0x26 :: inner.bytes
  | .isNull e negated => 0x27 :: (ofBool negated ++ e.bytes)

def PredicateSkeleton.bytesOf : List PredicateSkeleton → Bytes
  | [] => []
  | p :: rest => p.bytes ++ PredicateSkeleton.bytesOf rest

end

def rowBytes (row : List ExprSkeleton) : Bytes := word row.length ++ ExprSkeleton.bytesOf row

def restrictionBytes : Option PredicateSkeleton → Bytes
  | some p => 0x20 :: p.bytes
  | none => [0x21]

def ValuesSkeleton.bytes (v : ValuesSkeleton) : Bytes :=
  ofText v.path.text ++ (ofList ofText v.columns ++ ofList rowBytes v.rows)

def SelectionSkeleton.bytes (s : SelectionSkeleton) : Bytes :=
  s.expr.bytes ++ ofOption ofText s.label

def AssignmentSkeleton.bytes (a : AssignmentSkeleton) : Bytes :=
  ofText a.target.text ++ a.value.bytes

def StatementSkeleton.bytes : StatementSkeleton → Bytes
  | .select roots values selections restriction =>
    0x01 :: (ofList ofRoot roots ++ (ofList ValuesSkeleton.bytes values ++
      (ofList SelectionSkeleton.bytes selections ++ restrictionBytes restriction)))
  | .update target assignments restriction =>
    0x02 :: (ofRoot target ++ (ofList AssignmentSkeleton.bytes assignments ++
      restrictionBytes restriction))
  | .delete target restriction => 0x03 :: (ofRoot target ++ restrictionBytes restriction)

/-! The encoding of a statement goes through its skeleton. -/

theorem ofOption_mark (type : Option ExprType) :
    ofOption TypeMark.bytes (type.map markOf) = ofOption ofType type := by
  cases type <;> rfl

theorem ofList_map {α β : Type} (f : β → Bytes) (g : α → β) (items : List α) :
    ofList f (items.map g) = ofList (f ∘ g) items := by
  simp only [ofList, List.length_map, List.flatMap_map, Function.comp_def]

theorem parameterMark_bytes (t : OccurrenceTable) (o : Occurrence) :
    (parameterMark t o).bytes =
      ofParameter o ++ ofList (fun e => ofOption ofType e.anticipated) (t.expansions o.id) := by
  simp only [ParameterMark.bytes, parameterMark, ofParameter, ofOption_mark, ofList_map,
    Function.comp_def, List.append_assoc]

theorem length_exprSkeletons (t : OccurrenceTable) (es : List Expr) :
    (exprSkeletons t es).length = es.length := by
  induction es with
  | nil => rfl
  | cons e rest ih => simp only [exprSkeletons, List.length_cons, ih]

mutual

theorem exprSkeleton_bytes (t : OccurrenceTable) : (e : Expr) → (exprSkeleton t e).bytes = ofExpr t e
  | .literal _ v type => by
    simp only [exprSkeleton, ExprSkeleton.bytes, ofExpr, ofOption, List.cons_append,
      List.append_assoc]
    rfl
  | .parameter _ o => by
    simp only [exprSkeleton, ExprSkeleton.bytes, ofExpr, parameterMark_bytes]
  | .path _ source => rfl
  | .call _ function arguments implied _ => by
    simp only [exprSkeleton, ExprSkeleton.bytes, ofExpr, ofOption_mark,
      length_exprSkeletons, exprSkeletons_bytes t arguments, List.append_assoc]
  | .tuple _ elements _ => by
    simp only [exprSkeleton, ExprSkeleton.bytes, ofExpr, length_exprSkeletons,
      exprSkeletons_bytes t elements]

theorem exprSkeletons_bytes (t : OccurrenceTable) :
    (es : List Expr) → ExprSkeleton.bytesOf (exprSkeletons t es) = ofExprs t es
  | [] => rfl
  | e :: rest => by
    simp only [exprSkeletons, ExprSkeleton.bytesOf, ofExprs, exprSkeleton_bytes t e,
      exprSkeletons_bytes t rest]

end

theorem length_predicateSkeletons (t : OccurrenceTable) (ps : List Predicate) :
    (predicateSkeletons t ps).length = ps.length := by
  induction ps with
  | nil => rfl
  | cons p rest ih => simp only [predicateSkeletons, List.length_cons, ih]

mutual

theorem predicateSkeleton_bytes (t : OccurrenceTable) :
    (p : Predicate) → (predicateSkeleton t p).bytes = ofPredicate t p
  | .comparison lhs operator rhs => by
    simp only [predicateSkeleton, PredicateSkeleton.bytes, ofPredicate, exprSkeleton_bytes]
  | .inList test items negated => by
    simp only [predicateSkeleton, PredicateSkeleton.bytes, ofPredicate, exprSkeleton_bytes,
      exprSkeletons_bytes, length_exprSkeletons, List.append_assoc]
  | .and children | .or children => by
    simp only [predicateSkeleton, PredicateSkeleton.bytes, ofPredicate, length_predicateSkeletons,
      predicateSkeletons_bytes t children]
  | .not inner => by
    simp only [predicateSkeleton, PredicateSkeleton.bytes, ofPredicate,
      predicateSkeleton_bytes t inner]
  | .isNull e negated => by
    simp only [predicateSkeleton, PredicateSkeleton.bytes, ofPredicate, exprSkeleton_bytes]

theorem predicateSkeletons_bytes (t : OccurrenceTable) :
    (ps : List Predicate) →
      PredicateSkeleton.bytesOf (predicateSkeletons t ps) = ofPredicates t ps
  | [] => rfl
  | p :: rest => by
    simp only [predicateSkeletons, PredicateSkeleton.bytesOf, ofPredicates,
      predicateSkeleton_bytes t p, predicateSkeletons_bytes t rest]

end

theorem restrictionBytes_map (t : OccurrenceTable) (p : Option Predicate) :
    restrictionBytes (p.map (predicateSkeleton t)) = ofRestriction t p := by
  cases p with
  | none => rfl
  | some p => simp only [Option.map_some, restrictionBytes, ofRestriction, predicateSkeleton_bytes]

theorem rowBytes_comp (t : OccurrenceTable) : rowBytes ∘ exprSkeletons t = ofRow t := by
  funext row
  simp only [Function.comp_apply, rowBytes, ofRow, length_exprSkeletons, exprSkeletons_bytes]

theorem valuesSkeleton_bytes (t : OccurrenceTable) :
    ValuesSkeleton.bytes ∘ valuesSkeleton t = ofValues t := by
  funext root
  simp only [Function.comp_apply, ValuesSkeleton.bytes, valuesSkeleton, ofValues, ofList_map,
    rowBytes_comp, List.append_assoc]

theorem selectionSkeleton_bytes (t : OccurrenceTable) :
    SelectionSkeleton.bytes ∘ selectionSkeleton t = ofSelection t := by
  funext item
  simp only [Function.comp_apply, SelectionSkeleton.bytes, selectionSkeleton, ofSelection,
    exprSkeleton_bytes]

theorem assignmentSkeleton_bytes (t : OccurrenceTable) :
    AssignmentSkeleton.bytes ∘ assignmentSkeleton t = ofAssignment t := by
  funext a
  simp only [Function.comp_apply, AssignmentSkeleton.bytes, assignmentSkeleton, ofAssignment,
    exprSkeleton_bytes]

/-- A fingerprint sees a statement through its skeleton only. -/
theorem skeleton_bytes (t : OccurrenceTable) (s : Statement) :
    (skeleton t s).bytes = ofStatement t s := by
  cases s with
  | select s =>
    simp only [skeleton, StatementSkeleton.bytes, ofStatement, ofList_map, valuesSkeleton_bytes,
      selectionSkeleton_bytes, restrictionBytes_map, List.append_assoc]
  | update u =>
    simp only [skeleton, StatementSkeleton.bytes, ofStatement, ofList_map,
      assignmentSkeleton_bytes, restrictionBytes_map, List.append_assoc]
  | delete d =>
    simp only [skeleton, StatementSkeleton.bytes, ofStatement, restrictionBytes_map]

end SemanticQuery.Fingerprint
