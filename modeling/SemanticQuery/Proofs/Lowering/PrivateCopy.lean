import SemanticQuery.Proofs.Fingerprint.Bare
import SemanticQuery.Proofs.Lowering.Reached

/-! Copies for their statements. A private copy has the fingerprint of its statement, and lowering the one
comes to the same as lowering the other, whatever types either of them has resolved by then. -/
namespace SemanticQuery.Lowering
open Query Binding Interpretation

/-- Two lists of nodes, lowered with one choice of expansions. -/
def Pairing.ofNodes (left right : List Expr) (expansions : OccurrenceId → List Occurrence) :
    Pairing where
  left
  right
  answers := Eq
  errors := Eq
  fails _ := rfl
  leftExpansions := expansions
  rightExpansions := expansions
  own _ := rfl
  expanded _ := List.forall₂_same.mpr fun _ _ => ⟨rfl, rfl, rfl⟩

theorem Ledger.eq_of_matches {l l' : Ledger} (groups : l.Matches Eq l') (next : l.next = l'.next) :
    l = l' := by
  have entries : l.entries = l'.entries := by
    rw [← List.forall₂_eq_eq_eq]
    exact groups.imp fun _ _ same => Prod.ext same.1 same.2
  cases l
  cases l'
  exact congrArg₂ Ledger.mk entries next

section
variable {s s' : Statement} {N M : List Expr} {w w' : Workspace}

/-- Bare equal statements are lowered to one result, or fail with one error. -/
theorem lowerStatement_eq_of_bare (model : Model) (strict : Bool)
    (expansions : OccurrenceId → List Occurrence) (bare : s.bare = s'.bare) (within : s.nodes ⊆ N)
    (within' : s'.nodes ⊆ M) (sound : w.Sound N) (sound' : w'.Sound M) :
    (ended (lowerStatement model strict expansions s w)).1 =
      (ended (lowerStatement model strict expansions s' w')).1 := by
  have alike : LowersAlike Eq Eq (lowerStatement model strict expansions s w)
      (lowerStatement model strict expansions s' w') :=
    lowerStatement_pairs (.ofNodes N M expansions) model strict within within' bare sound sound'
  generalize lowerStatement model strict expansions s w = ran at alike ⊢
  generalize lowerStatement model strict expansions s' w' = ran' at alike ⊢
  cases alike with
  | @ok l l' _ _ statement source groups _ _ next =>
    obtain ⟨_, _, _⟩ := l
    obtain ⟨_, _, _⟩ := l'
    obtain rfl := statement
    obtain rfl := source
    obtain rfl := Ledger.eq_of_matches groups next
    rfl
  | error _ _ failed => exact congrArg Except.error failed

/-- Of nodes that were made in whatever order and in whatever state of resolution, calling functions that make
of the implied type, the arguments and the catalog whatever they will, a statement and a private copy have
one fingerprint, and are lowered to one result or fail with one error: the relational statement, and so its
text, the groups of slots and the groups of tables. Interpretation, which lowers the copy, comes to what
lowering the statement itself would. -/
theorem copy_lowers_alike (reached : Reached N w) (within : s.nodes ⊆ N) (t : OccurrenceTable) :
    let copy := (copyInto s.copy .empty w).1
    Fingerprint.fingerprint copy t = Fingerprint.fingerprint s t ∧
      (∀ {L M : List Expr} {x y : Workspace}, Reached L x → s.nodes ⊆ L → Reached M y → copy.nodes ⊆ M →
        ∀ model strict, (ended (lowerStatement model strict t.expansions copy y)).1 =
          (ended (lowerStatement model strict t.expansions s x)).1) ∧
      ∀ v : Services, (ended (lowerCopy v s t w)).1 =
        (ended (lowerStatement v.model v.settings.strictParameterTyping t.expansions s w)).1 := by
  have bare := copy_bare (reached.consistent.shares within) w
  refine ⟨Fingerprint.fingerprint_eq_of_bare t bare, ?_, ?_⟩
  · intro L M x y reachedStatement withinL reachedCopy withinM model strict
    exact lowerStatement_eq_of_bare model strict t.expansions bare withinM withinL
      reachedCopy.consistent.sound reachedStatement.consistent.sound
  · intro v
    have copied := (reached.copied within).consistent.sound
    exact lowerStatement_eq_of_bare v.model v.settings.strictParameterTyping t.expansions bare
      (List.subset_append_left _ _) within copied reached.consistent.sound

end

/-! A date that two places take for their limit: its type is asked for before the statement is lowered, and
that of the last of two dates is not. -/
namespace Limited

/-- The type of the last argument; where there is none, the one that is standard for dates. -/
def ofLast : ReturnRule where
  resolve _ arguments catalog :=
    match arguments.length with
    | 0 => pure ((catalog.standardType? .date).map .basic)
    | before + 1 => askType [before]

def last : Callee := ⟨⟨"last", ofLast, none, none, .standard⟩, .standard⟩

def today : Callee := ⟨⟨"current_date", ofLast, none, none, .keyword⟩, .standard⟩

def limit : Expr := .parameter 0 ⟨0, ⟨.named "limit", none, false⟩, none, none⟩

def day : Expr := .call 1 today [] none .none

def latest : Expr := .call 2 last [limit, day] none .none

/-- The parameter takes its type from the call it is compared with. -/
def statement : Statement := .select ⟨[], [], [⟨latest, none⟩], some (.comparison limit .less latest)⟩

theorem reached : Reached [latest, day, limit] ⟨3, .empty, []⟩ := by
  have parameter : Reached [limit] ⟨1, .empty, []⟩ := .made .start limit rfl rfl (List.Subset.refl [])
  have first : Reached [day, limit] ⟨2, .empty, []⟩ := .unchecked parameter today rfl (List.nil_subset _)
  exact .unchecked first last rfl (by simp)

theorem resolved_type_does_not_show :
    let w := (ended (day.type ⟨3, .empty, []⟩)).2
    w.types.keys = [1] ∧
      ∃ l, (ended (lowerStatement ⟨.empty, .empty⟩ false (fun _ => []) statement w)).1 = .ok l ∧
        (ended (lowerCopy ⟨⟨.empty, .empty⟩, .default⟩ statement .empty w)).1 = .ok l := by
  have within : statement.nodes ⊆ [latest, day, limit] := by
    have places : statement.nodes = [latest, limit, day, limit, latest, limit, day] := rfl
    rw [places]
    simp
  have asked := reached.asked (List.mem_cons_of_mem latest (List.mem_cons_self (a := day)))
  obtain ⟨-, -, interpreted⟩ := copy_lowers_alike asked within .empty
  have lowered : (ended (lowerStatement ⟨.empty, .empty⟩ false (fun _ => []) statement
    (ended (day.type ⟨3, .empty, []⟩)).2)).1 = .ok _ := rfl
  exact ⟨rfl, _, lowered, (interpreted ⟨⟨.empty, .empty⟩, .default⟩).trans lowered⟩

end Limited

end SemanticQuery.Lowering
