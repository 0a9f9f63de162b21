import SemanticQuery.Binding.Occurrences
import SemanticQuery.Digest.Sha256
/-!
The bytes that stand for a statement in its fingerprint: a tag for each choice, a length before each
list and each text. Expansions count by position and type, so that expansion to the same width leaves
the bytes as they are.
-/
namespace SemanticQuery.Fingerprint
open Query Binding

abbrev Bytes := List UInt8

def word (n : Nat) : Bytes := Digest.bigEndian 4 n

def utf8 (s : String) : Bytes := s.toUTF8.toList

def ofText (s : String) : Bytes :=
  let bytes := utf8 s
  word bytes.length ++ bytes

def ofBool (b : Bool) : Bytes := [if b then 1 else 0]

def ofKind (k : Kind) : Bytes := [UInt8.ofNat k.rank]

def ofOption {α : Type} (f : α → Bytes) : Option α → Bytes
  | none => [0x00]
  | some a => 0x01 :: f a

def ofType (type : ExprType) : Bytes := ofKind type.kind ++ ofText type.text

/-- The number of the items and then the items. -/
def ofList {α : Type} (f : α → Bytes) (items : List α) : Bytes :=
  word items.length ++ items.flatMap f

def ofParameter (o : Occurrence) : Bytes :=
  ofText o.key.text ++ word o.id.toNat ++ ofOption ofType o.anticipated ++
    ofOption ofType o.parameter.declared ++ ofBool o.parameter.multiValued

def ofComparison : Comparison → UInt8
  | .equal => 0x01
  | .notEqual => 0x02
  | .less => 0x03
  | .lessOrEqual => 0x04
  | .greater => 0x05
  | .greaterOrEqual => 0x06

mutual

def ofExpr (t : OccurrenceTable) : Expr → Bytes
  | .literal _ v type =>
    0x40 :: (ofOption ofType (some type) ++ ofKind v.kind ++ ofText v.toText)
  | .parameter _ o =>
    0x41 :: (ofParameter o ++ ofList (fun e => ofOption ofType e.anticipated) (t.expansions o.id))
  | .path _ source => 0x42 :: (ofText source.path.text ++ ofKind source.kind)
  | .call _ function arguments implied _ =>
    0x43 :: (ofText function.name ++ ofOption ofType implied ++ word arguments.length ++
      ofExprs t arguments)
  | .tuple _ elements _ => 0x44 :: (word elements.length ++ ofExprs t elements)

def ofExprs (t : OccurrenceTable) : List Expr → Bytes
  | [] => []
  | e :: rest => ofExpr t e ++ ofExprs t rest

end

mutual

def ofPredicate (t : OccurrenceTable) : Predicate → Bytes
  | .comparison lhs operator rhs =>
    0x22 :: (ofExpr t lhs ++ ofComparison operator :: ofExpr t rhs)
  | .inList test items negated =>
    0x23 :: (ofBool negated ++ ofExpr t test ++ word items.length ++ ofExprs t items)
  | .and children => 0x24 :: (word children.length ++ ofPredicates t children)
  | .or children => 0x25 :: (word children.length ++ ofPredicates t children)
  | .not inner => 0x26 :: ofPredicate t inner
  | .isNull e negated => 0x27 :: (ofBool negated ++ ofExpr t e)

def ofPredicates (t : OccurrenceTable) : List Predicate → Bytes
  | [] => []
  | p :: rest => ofPredicate t p ++ ofPredicates t rest

end

def ofRestriction (t : OccurrenceTable) : Option Predicate → Bytes
  | some p => 0x20 :: ofPredicate t p
  | none => [0x21]

def ofRoot (root : Root) : Bytes := ofText root.entity ++ ofText root.path.text

def ofRow (t : OccurrenceTable) (row : List Expr) : Bytes := word row.length ++ ofExprs t row

def ofValues (t : OccurrenceTable) (root : ValuesRoot) : Bytes :=
  ofText root.path.text ++ ofList ofText root.columns ++ ofList (ofRow t) root.rows

def ofSelection (t : OccurrenceTable) (item : Selection) : Bytes :=
  ofExpr t item.expr ++ ofOption ofText item.label

def ofAssignment (t : OccurrenceTable) (a : Assignment) : Bytes :=
  ofText a.target.path.text ++ ofExpr t a.value

def ofStatement (t : OccurrenceTable) : Statement → Bytes
  | .select s =>
    0x01 :: (ofList ofRoot s.roots ++ ofList (ofValues t) s.values ++
      ofList (ofSelection t) s.selections ++ ofRestriction t s.restriction)
  | .update u =>
    0x02 :: (ofRoot u.target ++ ofList (ofAssignment t) u.assignments ++
      ofRestriction t u.restriction)
  | .delete d => 0x03 :: (ofRoot d.target ++ ofRestriction t d.restriction)

/-- The bytes that are hashed: a mark of the format and the statement. -/
def stream (s : Statement) (t : OccurrenceTable) : Bytes := utf8 "sqmfp:v1" ++ ofStatement t s

/-- The digest of the stream in hexadecimal. -/
def fingerprint (s : Statement) (t : OccurrenceTable) : String :=
  Digest.hex (Digest.Sha256.digest (stream s t))

end SemanticQuery.Fingerprint
