import SemanticQuery.Proofs.Cache.Builds
import SemanticQuery.Proofs.Cache.Vocabulary
import SemanticQuery.Request

/-! Requests of callers. Expansions have identities of their own, so those of two requests answer to each
other by position. -/
namespace SemanticQuery
open Query Binding Fingerprint

/-- The table of a statement as expansion leaves it: own occurrences are known by their identities, and
those of expansions are others. -/
structure Request.WellFormed (r : Request) : Prop where
  shares : r.statement.Shares
  single : r.statement.Single
  expands : Expands r.statement r.table

/-- Whatever callers bind, take back and expand, they have well-formed requests as long as the numbers of
the builder last. -/
theorem wellFormed_of_steps {b : Builder} {os : List Occurrence} {s : Statement}
    (made : b.Made os) (shares : s.Shares) (own : ∀ o ∈ s.parameters, o ∈ os ∧ o.expands = none)
    (steps : List BindingStep) (range : ((BindingState.start s b).run steps).builder.InRange)
    (store : Store) :
    Request.WellFormed ⟨s, ((BindingState.start s b).run steps).table, store⟩ :=
  have consistent := (BindingState.consistent_start made own).run steps
  ⟨shares, consistent.single range, consistent.expands range⟩

/-- Own occurrences answer to themselves, and expansions of one occurrence to each other by position. -/
inductive Answers (os : List Occurrence) (t t' : OccurrenceTable) : OccurrenceId → OccurrenceId → Prop
  | own {o : Occurrence} (mem : o ∈ os) : Answers os t t' o.id o.id
  | expansion {o e e' : Occurrence} {i : Nat} (mem : o ∈ os) (left : (t.expansions o.id)[i]? = some e)
      (right : (t'.expansions o.id)[i]? = some e') : Answers os t t' e.id e'.id

section
variable {s s' : Statement} {t t' : OccurrenceTable}

/-- What stands at a position in one table settles what stands there in the other. -/
theorem expansion_determined (left : Expands s t) {id other : OccurrenceId} {i j : Nat}
    {e f e' f' : Occurrence} (at_i : (t.expansions id)[i]? = some e)
    (at_j : (t.expansions other)[j]? = some f) (right_i : (t'.expansions id)[i]? = some e')
    (right_j : (t'.expansions other)[j]? = some f') (same : e.id = f.id) : e'.id = f'.id := by
  obtain rfl := left.distinct (List.mem_of_getElem? at_i) (List.mem_of_getElem? at_j) same
  obtain rfl := position_unique (left.nodup id) at_i at_j same
  rw [Option.some.inj (right_i.symm.trans right_j)]

theorem answers_unique (left : Expands s t) (right : Expands s' t') (parameters : s.parameters = s'.parameters)
    {a b c d : OccurrenceId} (first : Answers s.parameters t t' a b)
    (second : Answers s.parameters t t' c d) : a = c ↔ b = d := by
  have apart {o e : Occurrence} {id : OccurrenceId} (mem : o ∈ s.parameters) {i : Nat}
      (listed : (t.expansions id)[i]? = some e) : o.id ≠ e.id :=
    left.apart (List.mem_of_getElem? listed) o mem
  have apart' {o e : Occurrence} {id : OccurrenceId} (mem : o ∈ s.parameters) {i : Nat}
      (listed : (t'.expansions id)[i]? = some e) : o.id ≠ e.id :=
    right.apart (List.mem_of_getElem? listed) o (parameters ▸ mem)
  cases first with
  | own mem =>
    cases second with
    | own => exact Iff.rfl
    | expansion _ listed listed' => exact iff_of_false (apart mem listed) (apart' mem listed')
  | expansion mem listed listed' =>
    cases second with
    | own memOther => exact iff_of_false (apart memOther listed).symm (apart' memOther listed').symm
    | expansion _ listedOther listedOther' =>
      constructor
      · exact expansion_determined left listed listedOther listed' listedOther'
      · exact expansion_determined right listed' listedOther' listed listedOther

/-- Tables as wide as each other answer to each other where the statements have the same
occurrences. -/
theorem answering_of_wide (parameters : s.parameters = s'.parameters) (single : s.Single)
    (left : Expands s t) (right : Expands s' t') (wide : AsWide t t' s.parameters) :
    Answering s t t' (Answers s.parameters t t') := by
  have tables : OccurrenceTable.ofStatement s = OccurrenceTable.ofStatement s' := by
    rw [OccurrenceTable.ofStatement, OccurrenceTable.ofStatement, parameters]
  have visited : ∀ o ∈ s.parameters, Answered t t' (Answers s.parameters t t') o.id := by
    intro o mem
    refine ⟨.own mem, List.forall₂_iff_get.mpr ⟨wide o mem, fun i within within' => ?_⟩⟩
    refine ⟨.expansion mem (List.getElem?_eq_getElem within) (List.getElem?_eq_getElem within'), ?_⟩
    obtain ⟨original, listed, same, typed⟩ := left.typed (List.getElem_mem within)
    obtain ⟨original', listed', same', typed'⟩ := right.typed (List.getElem_mem within')
    rw [← parameters] at listed'
    obtain rfl := single original listed original' listed' (same.trans same'.symm)
    exact typed.trans typed'.symm
  refine ⟨?_, visited, ?_, answers_unique left right parameters⟩
  · rw [left.entries, tables]
    exact right.entries.symm
  · intro e listed o member
    exact visited o (OccurrenceTable.mem_parameters_of_mem_entry (left.entries ▸ listed) member)

end

theorem answering_of_wellFormed {r r' : Request} (wellFormed : r.WellFormed)
    (wellFormed' : r'.WellFormed) (bare : r.statement.bare = r'.statement.bare)
    (wide : AsWide r.table r'.table r.statement.parameters) :
    Answering r.statement r.table r'.table (Answers r.statement.parameters r.table r'.table) := by
  have parameters : r.statement.parameters = r'.statement.parameters := by
    rw [← r.statement.parameters_bare, bare, r'.statement.parameters_bare]
  exact answering_of_wide parameters wellFormed.single wellFormed.expands wellFormed'.expands wide

end SemanticQuery
