import SemanticQuery.Interpretation
import SemanticQuery.Proofs.Binding.History
import SemanticQuery.Proofs.Binding.SlotIndex
import SemanticQuery.Proofs.Lowering.Agreement
import SemanticQuery.Proofs.Query.Numbering

/-! Builds that agree. An interpretation depends on a statement through its bare parts and on a table
through the entries and the types of expansions, but on nothing that the workspace keeps. -/
namespace SemanticQuery
open Query Binding Lowering

/-- An occurrence of two tables that answers to itself, as its expansions do to each other by
position. -/
structure Answered (t t' : OccurrenceTable) (answers : OccurrenceId → OccurrenceId → Prop)
    (id : OccurrenceId) : Prop where
  own : answers id id
  expanded : List.Forall₂ (fun e e' => answers e.id e'.id ∧ e.type? = e'.type?)
    (t.expansions id) (t'.expansions id)

/-- Tables that list the same, with an answer for each occurrence of a statement and in the tables. -/
structure Answering (s : Statement) (t t' : OccurrenceTable)
    (answers : OccurrenceId → OccurrenceId → Prop) : Prop where
  entries : t.entries = t'.entries
  visited : ∀ o ∈ s.parameters, Answered t t' answers o.id
  listed : ∀ e ∈ t.entries, ∀ o ∈ e.occurrences, Answered t t' answers o.id
  unique : ∀ {a b c d}, answers a b → answers c d → (a = c ↔ b = d)

theorem Answered.refl (t : OccurrenceTable) (id : OccurrenceId) : Answered t t Eq id :=
  ⟨rfl, List.forall₂_same.mpr fun _ _ => ⟨rfl, rfl⟩⟩

theorem Answering.refl (s : Statement) (t : OccurrenceTable) : Answering s t t Eq where
  entries := rfl
  visited _ _ := .refl t _
  listed _ _ _ _ := .refl t _
  unique := by
    rintro a _ c _ rfl rfl
    exact Iff.rfl

variable {s s' : Statement} {t t' : OccurrenceTable} {answers : OccurrenceId → OccurrenceId → Prop}

/-- A statement with fewer occurrences needs no more answers. -/
theorem Answering.of_parameters (answering : Answering s t t' answers)
    (within : ∀ o ∈ s'.parameters, o ∈ s.parameters) : Answering s' t t' answers :=
  ⟨answering.entries, fun o mem => answering.visited o (within o mem), answering.listed,
    answering.unique⟩

/-- Lowerings that both fail, with errors that match, or make one tree with the same groups and from
clause. -/
inductive LowersAlike (answers : OccurrenceId → OccurrenceId → Prop)
    (errors : LoweringError → LoweringError → Prop) :
    EStateM.Result LoweringError Workspace Lowered → EStateM.Result LoweringError Workspace Lowered → Prop
  | ok {l l' : Lowered} {w w' : Workspace} (statement : l.statement = l'.statement)
      (source : l.source = l'.source) (groups : l.ledger.Matches answers l'.ledger) (left : w.Fresh)
      (right : w'.Fresh) (next : l.ledger.next = l'.ledger.next) :
      LowersAlike answers errors (.ok l w) (.ok l' w')
  | error {e e' : LoweringError} {w w' : Workspace} (left : w.Fresh) (right : w'.Fresh)
      (failed : errors e e') : LowersAlike answers errors (.error e w) (.error e' w')

/-- Bare equal statements are lowered alike, whatever is kept for their nodes. -/
theorem lowerStatement_pairs (π : Pairing) (model : Model) (strict : Bool) {s s' : Statement}
    {w w' : Workspace} (left : ∀ d ∈ s.nodes, d ∈ π.left) (right : ∀ d ∈ s'.nodes, d ∈ π.right)
    (bare : s.bare = s'.bare) (sound : w.Sound π.left) (sound' : w'.Sound π.right) :
    LowersAlike π.answers π.errors (lowerStatement model strict π.leftExpansions s w)
      (lowerStatement model strict π.rightExpansions s' w') := by
  have alike : π.Alike ⟨w, .empty⟩ ⟨w', .empty⟩ := ⟨sound, sound', .nil, rfl⟩
  have outcome := Pairing.lowerParts_same ⟨model, .empty, fun _ => [], strict⟩ left right bare alike
  simp only [lowerStatement]
  change π.Outcome _ (lowerParts ⟨model, .empty, π.leftExpansions, _⟩ _ _)
    (lowerParts ⟨model, .empty, π.rightExpansions, _⟩ _ _) at outcome
  generalize lowerParts ⟨model, .empty, π.leftExpansions, _⟩ s _ = ran at outcome ⊢
  generalize lowerParts ⟨model, .empty, π.rightExpansions, _⟩ s' _ = ran' at outcome ⊢
  cases outcome with
  | ok related alike =>
    cases related
    exact .ok rfl rfl alike.groups ((alike.left.report _).report _).fresh
      ((alike.right.report _).report _).fresh alike.next
  | error failed alike => exact .error alike.left.fresh alike.right.fresh failed

/-- The nodes of two statements, side by side. Whatever errors they fail with count as the same. -/
def Answering.pairing (answering : Answering s t t' answers) (right : List Expr) : Pairing where
  left := s.nodes
  right
  answers
  errors _ _ := True
  fails _ := trivial
  leftExpansions := t.expansions
  rightExpansions := t'.expansions
  own mem := (answering.visited _ (List.mem_filterMap.mpr ⟨_, mem, rfl⟩)).own
  expanded mem := (answering.visited _ (List.mem_filterMap.mpr ⟨_, mem, rfl⟩)).expanded.imp
    fun _ _ same => ⟨same.1, same.2, trivial⟩

variable {v : Interpretation.Services} {w w' : Workspace}

/-- Bare equal statements are lowered alike where their tables answer to each other. -/
theorem lowerStatement_agrees (model : Model) (strict : Bool) (answering : Answering s t t' answers)
    (bare : s.bare = s'.bare) (sound : w.Sound s.nodes) (sound' : w'.Sound s'.nodes) :
    LowersAlike answers (fun _ _ => True) (lowerStatement model strict t.expansions s w)
      (lowerStatement model strict t'.expansions s' w') :=
  lowerStatement_pairs (answering.pairing s'.nodes) model strict (fun _ mem => mem) (fun _ mem => mem)
    bare sound sound'

theorem lowerCopy_agrees (answering : Answering s t t' answers) (shares : s.Shares)
    (shares' : s'.Shares) (bare : s.bare = s'.bare) (fresh : w.Fresh) (fresh' : w'.Fresh) :
    LowersAlike answers (fun _ _ => True) (Interpretation.lowerCopy v s t w)
      (Interpretation.lowerCopy v s' t' w') := by
  have same : (copyInto s.copy .empty w).1.bare = (copyInto s'.copy .empty w').1.bare := by
    rw [copy_bare shares, copy_bare shares', bare]
  exact lowerStatement_agrees v.model v.settings.strictParameterTyping
    (answering.of_parameters (copy_parameters s w)) same (copyInto_sound fresh s)
    (copyInto_sound fresh' s')

/-! The index of slots. -/

theorem filter_of_answer {gs gs' : List (OccurrenceId × List Slot)} {id id' : OccurrenceId}
    (same : List.Forall₂ (fun g g' => answers g.1 g'.1 ∧ g.2 = g'.2) gs gs')
    (unique : ∀ {a b c d}, answers a b → answers c d → (a = c ↔ b = d)) (answer : answers id id') :
    (gs.filter fun g => g.1 == id).map Prod.snd = (gs'.filter fun g => g.1 == id').map Prod.snd := by
  induction same with
  | nil => rfl
  | @cons g g' rest rest' first _ ih =>
    have labels : (g.1 == id) = (g'.1 == id') := by
      rw [Bool.eq_iff_iff, beq_iff_eq, beq_iff_eq]
      exact unique first.1 answer
    rw [List.filter_cons, List.filter_cons, labels]
    cases g'.1 == id' with
    | true => rw [if_pos rfl, if_pos rfl, List.map_cons, List.map_cons, first.2, ih]
    | false => simpa using ih

theorem groups?_of_answer {l l' : Ledger} {id id' : OccurrenceId} (same : l.Matches answers l')
    (unique : ∀ {a b c d}, answers a b → answers c d → (a = c ↔ b = d)) (answer : answers id id') :
    l.groups? id = l'.groups? id' := by
  have found := filter_of_answer same unique answer
  unfold Ledger.groups?
  cases left : l.entries.filter fun g => g.1 == id with
  | nil =>
    rw [left, List.map_nil] at found
    rw [List.map_eq_nil_iff.mp found.symm]
  | cons g rest =>
    rw [left] at found
    cases right : l'.entries.filter fun g => g.1 == id' with
    | nil =>
      rw [right] at found
      contradiction
    | cons g' rest' =>
      rw [right] at found
      exact congrArg some found

theorem Answered.sameGroups {l l' : Ledger} {id : OccurrenceId} (answered : Answered t t' answers id)
    (same : l.Matches answers l')
    (unique : ∀ {a b c d}, answers a b → answers c d → (a = c ↔ b = d)) :
    SlotIndex.SameGroups t l.groups? t' l'.groups? id := by
  have each {es es' : List Occurrence}
      (expanded : List.Forall₂ (fun e e' => answers e.id e'.id ∧ e.type? = e'.type?) es es') :
      es.map (fun e => l.groups? e.id) = es'.map fun e => l'.groups? e.id := by
    induction expanded with
    | nil => rfl
    | cons first _ ih => rw [List.map_cons, List.map_cons, groups?_of_answer same unique first.1, ih]
  exact ⟨groups?_of_answer same unique answered.own, each answered.expanded⟩

theorem Answering.index_iff {l l' : Ledger} (answering : Answering s t t' answers)
    (same : l.Matches answers l') (x : SlotIndex) :
    SlotIndex.build t l.groups? = .ok x ↔ SlotIndex.build t' l'.groups? = .ok x :=
  SlotIndex.build_congr answering.entries fun e listed o member =>
    (answering.listed e listed o member).sameGroups same answering.unique

/-! Whole builds. -/

namespace Interpretation

/-- Outcomes that agree: failures, or interpretations with the same text, placeholders, index of slots
and tables. -/
inductive Agree : Except Failure Interpretation → Except Failure Interpretation → Prop
  | ok {i j : Interpretation} (rendered : i.rendered = j.rendered) (index : i.index = j.index)
      (tables : i.tables = j.tables) : Agree (.ok i) (.ok j)
  | error (e e' : Failure) : Agree (.error e) (.error e')

theorem Agree.symm {x y : Except Failure Interpretation} (agree : Agree x y) : Agree y x := by
  cases agree with
  | ok rendered index tables => exact .ok rendered.symm index.symm tables.symm
  | error e e' => exact .error e' e

theorem Agree.trans {x y z : Except Failure Interpretation} (first : Agree x y) (later : Agree y z) :
    Agree x z := by
  cases first with
  | ok rendered index tables =>
    cases later with
    | ok renderedLater indexLater tablesLater =>
      exact .ok (rendered.trans renderedLater) (index.trans indexLater) (tables.trans tablesLater)
  | error e e' =>
    cases later with
    | error _ e'' => exact .error e e''

theorem Agree.rendered_eq {i j : Interpretation} (agree : Agree (.ok i) (.ok j)) :
    i.rendered = j.rendered := by
  cases agree with
  | ok rendered => exact rendered

/-- A build with what it comes to, and the workspace it leaves. -/
def attempt (v : Services) (s : Statement) (t : OccurrenceTable) (w : Workspace) :
    Except Failure Interpretation × Workspace :=
  match build v s t w with
  | .ok i w => (.ok i, w)
  | .error e w => (.error e, w)

theorem attempt_of_lowered {l : Lowered} {x : SlotIndex} (lowered : lowerCopy v s t w = .ok l w')
    (indexed : SlotIndex.build t l.ledger.groups? = .ok x) :
    attempt v s t w = (.ok ⟨w'.nextNode, Fingerprint.fingerprint s t, l, l.statement.render, x,
      l.statement.affectedTables⟩, { w' with nextNode := w'.nextNode + 1 }) := by
  simp only [attempt, build, Bind.bind, EStateM.bind, classify, lowered, indexed]
  rfl

theorem attempt_of_unindexed {l : Lowered} {e : BindingError} (lowered : lowerCopy v s t w = .ok l w')
    (unindexed : SlotIndex.build t l.ledger.groups? = .error e) :
    attempt v s t w = (.error e.toFailure, w') := by
  simp only [attempt, build, Bind.bind, EStateM.bind, classify, lowered, unindexed]
  rfl

theorem attempt_of_failed {e : LoweringError} (failed : lowerCopy v s t w = .error e w') :
    attempt v s t w = (.error e.toFailure, w') := by
  simp only [attempt, build, Bind.bind, EStateM.bind, classify, failed]

/-- Builds agree where the statements are bare equal and the tables answer to each other. -/
theorem attempt_agrees (answering : Answering s t t' answers) (shares : s.Shares) (shares' : s'.Shares)
    (bare : s.bare = s'.bare) (fresh : w.Fresh) (fresh' : w'.Fresh) :
    Agree (attempt v s t w).1 (attempt v s' t' w').1 ∧ (attempt v s t w).2.Fresh := by
  have lowered := lowerCopy_agrees (v := v) answering shares shares' bare fresh fresh'
  generalize left : lowerCopy v s t w = outcome at lowered
  generalize right : lowerCopy v s' t' w' = outcome' at lowered
  cases lowered with
  | error kept kept' =>
    rw [attempt_of_failed left, attempt_of_failed right]
    exact ⟨.error _ _, kept⟩
  | @ok l l' _ _ statement _ groups kept kept' =>
    have index := answering.index_iff groups
    cases indexed : SlotIndex.build t l.ledger.groups? with
    | ok x =>
      rw [attempt_of_lowered left indexed, attempt_of_lowered right ((index x).mp indexed), statement]
      exact ⟨.ok rfl rfl rfl, fun _ _ found => Nat.lt_succ_of_lt (kept found)⟩
    | error e =>
      cases unindexed : SlotIndex.build t' l'.ledger.groups? with
      | ok x =>
        have built := (index x).mpr unindexed
        rw [indexed] at built
        contradiction
      | error e' =>
        rw [attempt_of_unindexed left indexed, attempt_of_unindexed right unindexed]
        exact ⟨.error _ _, kept⟩

end Interpretation

end SemanticQuery
