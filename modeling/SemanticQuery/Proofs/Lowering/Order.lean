import SemanticQuery.Proofs.Lowering.Owners
import SemanticQuery.Proofs.Lowering.Slots
import SemanticQuery.Proofs.Query.Typing

/-! In which order slots are allocated and written. Allocation follows the places of the statement's
parameters, rendering the places that their slots have in the lowered tree. -/
namespace SemanticQuery.Lowering
open Query

section
variable {l : Ledger} {id : OccurrenceId}

theorem slotCount_eq (l : Ledger) : l.slotCount = (numbers l.entries).length := by
  simp only [Ledger.slotCount, numbers, List.length_flatMap, List.length_map]

theorem groups?_eq_none_iff : l.groups? id = none ↔ id ∉ l.entries.map Prod.fst := by
  have unlisted : (l.entries.filter fun e => e.1 == id) = [] ↔ id ∉ l.entries.map Prod.fst := by
    simp only [List.filter_eq_nil_iff, beq_iff_eq, List.mem_map, not_exists, not_and]
  rw [← unlisted, Ledger.groups?]
  split
  next none => simp only [none]
  next known allocated => exact iff_of_false (by simp) allocated

theorem groups?_getD (l : Ledger) (id : OccurrenceId) :
    (l.groups? id).getD [] = (l.entries.filter fun e => e.1 == id).map Prod.snd := by
  unfold Ledger.groups?
  split
  next none => rw [none]; rfl
  · rfl

/-- As many groups are looked up for an identity as were allocated for it. -/
theorem length_groups {groups : List (List Slot)} (found : l.groups? id = some groups) :
    groups.length = (l.entries.map Prod.fst).count id := by
  rw [groups_eq_filter found, List.length_map, List.count, List.countP_map, List.countP_eq_length_filter]
  rfl

end

/-- Groups taken together by owner are all groups, where each owner is listed once. -/
theorem perm_by_owner {es : Groups} {ids : List OccurrenceId} (distinct : ids.Nodup)
    (owned : ∀ e ∈ es, e.1 ∈ ids) : (ids.flatMap fun id => es.filter fun e => e.1 == id).Perm es := by
  induction ids generalizing es with
  | nil =>
    have none : es = [] :=
      List.eq_nil_iff_forall_not_mem.mpr fun e mem => List.not_mem_nil (owned e mem)
    rw [none, List.flatMap_nil]
  | cons id rest ih =>
    obtain ⟨unlisted, distinct⟩ := List.nodup_cons.mp distinct
    -- What the others own is among the groups that the first does not own.
    have apart : (rest.flatMap fun other => es.filter fun e => e.1 == other) =
        rest.flatMap fun other => (es.filter fun e => !(e.1 == id)).filter fun e => e.1 == other := by
      refine List.flatMap_congr fun other mem => ?_
      rw [List.filter_filter]
      refine List.filter_congr fun e _ => ?_
      have different : other ≠ id := fun same => unlisted (same ▸ mem)
      by_cases own : e.1 = other <;> simp [own, different]
    have left : ∀ e ∈ es.filter fun e => !(e.1 == id), e.1 ∈ rest := by
      intro e mem
      obtain ⟨mem, foreign⟩ := List.mem_filter.mp mem
      exact (List.mem_cons.mp (owned e mem)).resolve_left (by simpa using foreign)
    rw [List.flatMap_cons, apart]
    exact ((ih distinct left).append_left _).trans (List.filter_append_perm _ _)

/-- A ledger with a group for each visit, in the order of the visits and numbered through from zero, that
looks up the groups of an identity in that order. -/
structure Ledger.Follows (l : Ledger) (visits : List OccurrenceId) : Prop where
  owners : l.entries.map Prod.fst = visits
  numbered : numbers l.entries = List.range l.slotCount
  next : l.next = l.slotCount
  entered : ∀ id, l.groups? id = none ↔ id ∉ visits
  listed : ∀ id groups, l.groups? id = some groups →
    groups = (l.entries.filter fun e => e.1 == id).map Prod.snd ∧ groups.length = visits.count id
  /-- The slots of all entries, each identity with an entry counted once. -/
  counted : ∀ ids : List OccurrenceId, ids.Nodup → (∀ id, id ∈ ids ↔ l.groups? id ≠ none) →
    (ids.flatMap fun id => ((l.groups? id).getD []).flatten).length = l.slotCount

theorem Ledger.follows_of_numbered {l : Ledger} (numbered : numbers l.entries = List.range l.next) :
    l.Follows (l.entries.map Prod.fst) := by
  have count : l.slotCount = l.next := by rw [slotCount_eq, numbered, List.length_range]
  refine ⟨rfl, count ▸ numbered, count.symm, fun id => groups?_eq_none_iff, ?_, ?_⟩
  · intro id groups found
    exact ⟨groups_eq_filter found, length_groups found⟩
  · intro ids distinct covered
    have owned : ∀ e ∈ l.entries, e.1 ∈ ids := by
      intro e mem
      rw [covered, Ne, groups?_eq_none_iff, not_not]
      exact List.mem_map_of_mem mem
    have slots (id : OccurrenceId) : ((l.groups? id).getD []).flatten =
        (l.entries.filter fun e => e.1 == id).flatMap Prod.snd := by
      rw [groups?_getD, List.flatMap_def]
    simp only [slots, ← List.flatMap_assoc]
    exact ((perm_by_owner distinct owned).flatMap_right _).length_eq

section
variable {model : Model} {strict : Bool} {expansions : OccurrenceId → List Occurrence} {s : Statement}
  {w w' : Workspace} {l : Lowered}

theorem owners_eq_placements (lowered : lowerStatement model strict expansions s w = .ok l w') :
    l.ledger.entries.map Prod.fst =
      (s.placements.flatMap (Placement.visits expansions)).map Occurrence.id := by
  rw [Statement.placements_visits]
  exact (lowerStatement_places lowered).visited

/-- Groups are allocated for the parameters of a statement in source order, and behind each of them that
is an item of a list for its expansions, in theirs. -/
theorem allocation_follows_parameters
    (lowered : lowerStatement model strict expansions s w = .ok l w') :
    s.placements.map Placement.occurrence = s.parameters ∧
      l.ledger.Follows ((s.placements.flatMap (Placement.visits expansions)).map Occurrence.id) := by
  refine ⟨s.placements_occurrences, ?_⟩
  rw [← owners_eq_placements lowered]
  exact Ledger.follows_of_numbered (lowerStatement_allots lowered).2.1

end

namespace Reordered

def occurrence (id : OccurrenceId) : Occurrence :=
  ⟨id, ⟨.positional id.toNat, some (.basic ⟨"long", .long, .bigInt⟩), id = 2⟩, none, none⟩

def rows : List ValuesRoot := [⟨.root "v", ["c"], [[.parameter 0 (occurrence 0)]]⟩]

/-- An occurrence of a list is an item of it, and again a part of the tuple that is the next one. -/
def statement (values : List ValuesRoot) : Statement :=
  .select ⟨[], values, [⟨.parameter 1 (occurrence 1), none⟩],
    some (.inList (.parameter 0 (occurrence 0))
      [.parameter 2 (occurrence 2), .tuple 3 [.parameter 2 (occurrence 2)] .none] false)⟩

def expansions (id : OccurrenceId) : List Occurrence :=
  if id = 2 then [⟨3, (occurrence 2).parameter, none, some 2⟩] else []

/-- The expansion comes behind the item, and not behind the tuple. -/
theorem expansion_follows_its_item : ∃ (l : Lowered) (w : Workspace),
    lowerStatement ⟨.empty, .empty⟩ true expansions (statement rows) .empty = .ok l w ∧
      l.ledger.Follows [0, 1, 0, 2, 3, 2] := by
  have lowered : lowerStatement ⟨.empty, .empty⟩ true expansions (statement rows) .empty = .ok _ _ := rfl
  exact ⟨_, _, lowered, (allocation_follows_parameters lowered).2⟩

end Reordered

section
variable {model : Model} {strict : Bool} {expansions : OccurrenceId → List Occurrence} {s : Statement}
  {w w' : Workspace} {l : Lowered}

/-- Only slots that were allocated are written. Where no call writes an argument twice, as in the standard
style and as a bare keyword, no slot is written twice. Where each call writes each of its arguments once, as
in the standard style and as a bare keyword without arguments, all slots are written; and where it writes them
in order, in the order of allocation if there are no inline rows. -/
theorem placeholders_account_for_slots
    (lowered : lowerStatement model strict expansions s w = .ok l w') :
    l.statement.render.slots ⊆ numbers l.ledger.entries ∧
      ((∀ e ∈ l.statement.operands, e.Writes List.Subperm) → l.statement.render.slots.Nodup) ∧
      ((∀ e ∈ l.statement.operands, e.Writes List.Perm) →
        l.statement.render.slots.Perm (List.range l.ledger.slotCount)) ∧
      ((∀ e ∈ l.statement.operands, e.Writes Eq) → s.Rowless →
        l.statement.render.slots = List.range l.ledger.slotCount) := by
  obtain ⟨-, numbered, perm, inOrder⟩ := lowerStatement_allots lowered
  rw [(Ledger.follows_of_numbered numbered).next] at numbered
  refine ⟨fun n mem => perm.mem_iff.mpr (l.statement.placeholders_subset mem), ?_, ?_, ?_⟩
  · intro once
    obtain ⟨m, same, sublist⟩ := l.statement.placeholders_related .subperm once
    have slots : l.statement.slots.Nodup := perm.nodup_iff.mp (numbered ▸ List.nodup_range)
    exact same.nodup_iff.mp (slots.sublist sublist)
  · intro all
    rw [← numbered]
    exact (l.statement.placeholders_related .perm all).trans perm.symm
  · intro ordered rowless
    rw [l.statement.placeholders_related .eq ordered, ← numbered]
    exact (inOrder rowless).symm

end

namespace Reordered

/-- The later of a parameter and the current date, a bare keyword that is called with some arguments. -/
def called (arguments : List Expr) : Statement :=
  .select ⟨[], [], [⟨.call 2 Dates.later
    [.parameter 0 (occurrence 0), .call 1 Dates.today arguments none .none] none .none, none⟩], none⟩

/-- The selection is written before the rows that were lowered before it. Arguments of a bare keyword have
slots and are not written. -/
theorem rows_follow_selection :
    (∃ (l : Lowered) (w : Workspace),
      lowerStatement ⟨.empty, .empty⟩ true expansions (statement []) .empty = .ok l w ∧
        l.statement.render.slots = List.range l.ledger.slotCount) ∧
    (∃ (l : Lowered) (w : Workspace),
      lowerStatement ⟨.empty, .empty⟩ true expansions (statement rows) .empty = .ok l w ∧
        l.statement.render.slots.Perm (List.range l.ledger.slotCount) ∧
        l.statement.render.slots = [1, 0, 2, 3, 4, 5]) ∧
    (∃ (l : Lowered) (w : Workspace),
      lowerStatement ⟨.empty, .empty⟩ true expansions (called []) .empty = .ok l w ∧
        l.statement.render.slots = List.range l.ledger.slotCount) ∧
    ∃ (l : Lowered) (w : Workspace),
      lowerStatement ⟨.empty, .empty⟩ true expansions (called [.parameter 3 (occurrence 1)]) .empty =
          .ok l w ∧
        l.ledger.slotCount = 2 ∧ l.statement.render.slots = [0] ∧ l.statement.render.slots.Nodup := by
  refine ⟨?_, ?_, ?_, ?_⟩
  · have lowered : lowerStatement ⟨.empty, .empty⟩ true expansions (statement []) .empty = .ok _ _ := rfl
    refine ⟨_, _, lowered, (placeholders_account_for_slots lowered).2.2.2 ?_ rfl⟩
    exact Sql.Expr.allCall_iff.mp ⟨trivial, trivial, trivial, trivial, ⟨trivial, trivial⟩, trivial⟩
  · have lowered : lowerStatement ⟨.empty, .empty⟩ true expansions (statement rows) .empty = .ok _ _ := rfl
    refine ⟨_, _, lowered, (placeholders_account_for_slots lowered).2.2.1 ?_, rfl⟩
    exact Sql.Expr.allCall_iff.mp
      ⟨trivial, trivial, trivial, trivial, trivial, ⟨trivial, trivial⟩, trivial⟩
  · have lowered : lowerStatement ⟨.empty, .empty⟩ true expansions (called []) .empty = .ok _ _ := rfl
    refine ⟨_, _, lowered, (placeholders_account_for_slots lowered).2.2.2 ?_ rfl⟩
    refine List.forall_mem_singleton.mpr (Sql.Expr.writes_all Eq.refl ?_)
    exact ⟨.inl rfl, trivial, ⟨.inr ⟨rfl, rfl⟩, trivial⟩, trivial⟩
  · have lowered : lowerStatement ⟨.empty, .empty⟩ true expansions (called [.parameter 3 (occurrence 1)])
      .empty = .ok _ _ := rfl
    refine ⟨_, _, lowered, rfl, rfl, (placeholders_account_for_slots lowered).2.1 ?_⟩
    refine List.forall_mem_singleton.mpr (Sql.Expr.writes_subperm ?_)
    exact ⟨.inl rfl, trivial, ⟨.inr rfl, trivial, trivial⟩, trivial⟩

end Reordered

end SemanticQuery.Lowering
