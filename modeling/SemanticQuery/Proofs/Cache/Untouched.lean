import SemanticQuery.Proofs.Cache.Transparency
import SemanticQuery.Proofs.Lowering.Queries

/-! What interpreting leaves alone. Only the private copy is asked for types, and its calls have identities
that were not handed out before, so no type is kept or lost in the caller's tree. -/
namespace SemanticQuery
open Query Binding Lowering

namespace Interpretation
variable {v : Services} {s : Statement} {t : OccurrenceTable} {w : Workspace}

/-- Lowering a private copy asks for types of the copy's nodes only. -/
theorem lowerCopy_asks (v : Services) (s : Statement) (t : OccurrenceTable) (w : Workspace) :
    Asking (copyInto s.copy .empty w).1.nodes (copyInto s.copy .empty w).1.nodes id
      (copyInto s.copy .empty w).2.2 (lowerCopy v s t w) := by
  obtain ⟨apart, -, -⟩ := copyInto_numbers s w
  exact lowerStatement_asks apart v.model v.settings.strictParameterTyping t.expansions _
    (fun _ mem => mem) _

theorem ended_build (v : Services) (s : Statement) (t : OccurrenceTable) (w : Workspace) :
    ended (build v s t w) = attempt v s t w := by
  cases ran : build v s t w with
  | ok | error => simp only [attempt, ran, ended]

/-- A build leaves the workspace that lowering the copy led to, where a number may be taken still. -/
theorem attempt_workspace (v : Services) (s : Statement) (t : OccurrenceTable) (w : Workspace) :
    let lowered := (ended (lowerCopy v s t w)).2
    (attempt v s t w).2 = lowered ∨
      (attempt v s t w).2 = { lowered with nextNode := lowered.nextNode + 1 } := by
  cases lowered : lowerCopy v s t w with
  | error e w' =>
    rw [attempt_of_failed lowered]
    exact .inl rfl
  | ok l w' =>
    cases indexed : SlotIndex.build t l.ledger.groups? with
    | error e =>
      rw [attempt_of_unindexed lowered indexed]
      exact .inl rfl
    | ok x =>
      rw [attempt_of_lowered lowered indexed]
      exact .inr rfl

/-- What is kept for nodes that were handed out before is what was kept. -/
theorem attempt_elsewhere {node : NodeId} (early : node < w.nextNode) :
    (attempt v s t w).2.types.find? node = w.types.find? node := by
  obtain ⟨-, numbers, -⟩ := copyInto_numbers s w
  have kept : (ended (lowerCopy v s t w)).2.types.find? node = w.types.find? node := by
    refine (lowerCopy_asks v s t w).asked.elsewhere fun e mem rebuilt same => ?_
    exact absurd (numbers e mem rebuilt).1 (same ▸ Nat.not_le.mpr early)
  cases attempt_workspace v s t w with
  | inl left | inr left =>
    rw [left]
    exact kept

end Interpretation

namespace Cache
open Interpretation
variable {c : Cache} {model : Model} {s : Statement} {t : OccurrenceTable} {w : Workspace}

/-- A cache leaves the workspace as a build leaves it, but for the events that count hits and misses. -/
theorem interpret_workspace (c : Cache) (model : Model) (s : Statement) (t : OccurrenceTable)
    (w : Workspace) :
    let left := (c.interpret model s t w).2.2
    left = w.report .cacheHit ∨ left = (attempt ⟨model, c.settings⟩ s t w).2 ∨
      left = (attempt ⟨model, c.settings⟩ s t (w.report .cacheMiss)).2 := by
  cases enabled : c.settings.planCache.enabled with
  | false =>
    rw [interpret_of_disabled enabled]
    exact .inr (.inl rfl)
  | true =>
    cases known : c.entries.find? (Fingerprint.fingerprint s t) with
    | some i =>
      rw [interpret_of_known enabled known]
      exact .inl rfl
    | none =>
      rw [interpret_of_missing enabled known]
      cases attempt ⟨model, c.settings⟩ s t (w.report .cacheMiss) with
      | mk outcome w' =>
        cases outcome with
        | ok i | error e => exact .inr (.inr rfl)

theorem interpret_elsewhere {node : NodeId} (early : node < w.nextNode) :
    (c.interpret model s t w).2.2.types.find? node = w.types.find? node := by
  obtain left | left | left := interpret_workspace c model s t w
  · rw [left]
    rfl
  · rw [left]
    exact attempt_elsewhere early
  · rw [left]
    exact attempt_elsewhere (w := w.report .cacheMiss) early

/-- Whatever comes of an interpretation, through a cache or past it, what is kept for each node of the
caller's statement is what was kept before, if anything was. -/
theorem interpret_leaves_tree (handedOut : ∀ e ∈ s.nodes, e.node < w.nextNode) :
    ∀ e ∈ s.nodes,
      (∀ v t, (ended (build v s t w)).2.types.find? e.node = w.types.find? e.node) ∧
      ∀ (c : Cache) model t, (c.interpret model s t w).2.2.types.find? e.node = w.types.find? e.node := by
  intro e mem
  constructor
  · intro v t
    rw [ended_build]
    exact attempt_elsewhere (handedOut e mem)
  · intro c model t
    exact interpret_elsewhere (handedOut e mem)

/-! A selection of one call whose type was asked for before, of one whose type was not, and of a parameter
without a type, which is refused. -/
namespace Resolved
open Dates

def asked : Expr := .call 0 today [] none .none

def unasked : Expr := .call 1 today [] none .none

def untyped : Expr := .parameter 2 ⟨0, ⟨.named "p", none, false⟩, none, none⟩

def statement : Statement := .select ⟨[], [], [⟨asked, none⟩, ⟨unasked, none⟩, ⟨untyped, none⟩], none⟩

def work : Workspace := ⟨3, .ofList [(0, some (.domain .date))], []⟩

def cache : Cache := .new ⟨true, false, ⟨true, 1⟩⟩

/-- The failure comes after both calls of the copy are resolved, and the caller's calls stay as they were. -/
theorem refused_interpretation_leaves_calls :
    let (outcome, _, w) := cache.interpret ⟨.empty, .empty⟩ statement .empty work
    (∃ e, outcome = .error e) ∧ w.types.keys = [0, 3, 4] ∧
      w.types.find? 0 = some (some (.domain .date)) ∧ w.types.find? 1 = none := by
  have handedOut : ∀ e ∈ statement.nodes, e.node < work.nextNode := by
    have listed : ∀ e ∈ [asked, unasked, untyped], e.node < 3 := by decide
    exact listed
  have kept := interpret_leaves_tree handedOut
  refine ⟨⟨_, rfl⟩, rfl, ?_, ?_⟩
  · exact (kept asked List.mem_cons_self).2 cache ⟨.empty, .empty⟩ .empty
  · exact (kept unasked (List.mem_cons_of_mem _ List.mem_cons_self)).2 cache ⟨.empty, .empty⟩ .empty

end Resolved

end Cache

end SemanticQuery
