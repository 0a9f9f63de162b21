import SemanticQuery.Proofs.Lowering.Reached

/-! Types are coherent and resolved once. Whatever is asked in whatever order, each answer is what an
evaluation without memory comes to, and a call is resolved the first time only that its type is needed. -/
namespace SemanticQuery.Query
open Binding Interpretation Lowering

/-- Asks for the types of some nodes one after the other, and goes on where one has none. -/
def askAll : List Expr → Workspace → List (Except FunctionError (Option ExprType)) × Workspace
  | [], w => ([], w)
  | e :: rest, w =>
    let (answer, w) := ended (e.type w)
    let (answers, w) := askAll rest w
    (answer :: answers, w)

/-- What asking for the types of some nodes comes to, one after the other. -/
structure Coherent (N queries : List Expr) (w : Workspace) : Prop where
  /-- Each question is answered as if nothing were kept. -/
  answers : (askAll queries w).1 = queries.map Expr.ownType
  kept : ∀ {node type}, w.types.find? node = some type → (askAll queries w).2.types.find? node = some type
  /-- A call that has a type keeps it, and one that has none keeps nothing. -/
  cells : ∀ e ∈ queries, ∀ {name}, e.called? = some name → ∀ type,
    (askAll queries w).2.types.find? e.node = some type ↔ e.ownType = .ok type
  resolves : ∃ calls ⊆ N, w.Resolves (askAll queries w).2 calls

section
variable {N : List Expr} {w : Workspace}

theorem askAll_asked (apart : Apart N) {queries : List Expr} (members : ∀ e ∈ queries, ∀ d ∈ e.nodes, d ∈ N) :
    Asked N w (askAll queries w).2 := by
  induction queries generalizing w with
  | nil => exact .refl N w
  | cons e rest ih =>
    rw [List.forall_mem_cons] at members
    exact (e.type_asked apart members.1 w).trans (ih members.2)

theorem askAll_answers {queries : List Expr} (members : ∀ e ∈ queries, ∀ d ∈ e.nodes, d ∈ N)
    (sound : w.Sound N) : (askAll queries w).1 = queries.map Expr.ownType := by
  induction queries generalizing w with
  | nil => rfl
  | cons e rest ih =>
    rw [List.forall_mem_cons] at members
    have later := (e.type_asked sound.apart members.1 w).sound (List.Subset.refl N) sound
    rw [List.map_cons, ← ih members.2 later, ← (e.type_typed members.1).ended_eq sound]
    rfl

/-- A call that was asked for successfully has its type kept from then on. -/
theorem askAll_keeps {queries : List Expr} (members : ∀ e ∈ queries, ∀ d ∈ e.nodes, d ∈ N)
    (sound : w.Sound N) {e : Expr} (mem : e ∈ queries) {name : String} (called : e.called? = some name)
    {type : Option ExprType} (own : e.ownType = .ok type) :
    (askAll queries w).2.types.find? e.node = some type := by
  have known : ∃ type, (askAll queries w).2.types.find? e.node = some type := by
    induction queries generalizing w with
    | nil => contradiction
    | cons first rest ih =>
      rw [List.forall_mem_cons] at members
      have later := (first.type_asked sound.apart members.1 w).sound (List.Subset.refl N) sound
      cases List.mem_cons.mp mem with
      | inr mem => exact ih members.2 later mem
      | inl same =>
        subst same
        have answered := (e.type_typed members.1).ended_eq sound
        rw [own] at answered
        have known := (e.type_asks sound.apart members.1 w).known answered
        exact (askAll_asked sound.apart members.2).knows known e List.mem_cons_self called
  obtain ⟨kept, found⟩ := known
  have sound' := (askAll_asked sound.apart members).sound (List.Subset.refl N) sound
  have ownKept := sound'.kept e (members e mem e e.mem_nodes) (Expr.isRebuilt_of_called called) found
  rw [own] at ownKept
  rw [found, Except.ok.inj ownKept]

theorem coherent (sound : w.Sound N) {queries : List Expr}
    (members : ∀ e ∈ queries, ∀ d ∈ e.nodes, d ∈ N) : Coherent N queries w := by
  have asked := askAll_asked (w := w) sound.apart members
  have sound' := asked.sound (List.Subset.refl N) sound
  obtain ⟨calls, within, resolves⟩ := asked.resolves
  refine ⟨askAll_answers members sound, resolves.kept, ?_, calls, within, resolves⟩
  intro e mem name called type
  constructor
  · intro found
    exact sound'.kept e (members e mem e e.mem_nodes) (Expr.isRebuilt_of_called called) found
  · exact askAll_keeps members sound mem called

end

/-! Private copies. -/

theorem Expr.called?_renamed (name : NodeId → NodeId) (e : Expr) :
    (e.renamed name).called? = e.called? := by
  cases e with
  | literal | parameter | path | call | tuple => rfl

/-- A list of values of a function is its image of a list. -/
theorem exists_map_eq {α β : Type} {f : α → β} {as : List α} {bs : List β}
    (values : ∀ b ∈ bs, ∃ a ∈ as, f a = b) : ∃ sources ⊆ as, sources.map f = bs := by
  induction bs with
  | nil => exact ⟨[], List.nil_subset _, rfl⟩
  | cons b rest ih =>
    rw [List.forall_mem_cons] at values
    obtain ⟨⟨a, mem, rfl⟩, later⟩ := values
    obtain ⟨sources, within, rfl⟩ := ih later
    exact ⟨a :: sources, List.cons_subset.mpr ⟨mem, within⟩, rfl⟩

/-- Events since some point, with one resolution for each of some calls. -/
structure ResolvedEach (calls : List Expr) (w w' : Workspace) : Prop where
  distinct : (calls.map Expr.node).Nodup
  recorded : ∃ recorded, w'.events = w.events ++ recorded ∧
    (recorded.filterMap Event.resolved?).map some = calls.map Expr.called?

/-- Lowering a private copy resolves the copy of each call of the statement, once and for all its places. -/
theorem lowerCopy_resolves {s : Statement} {w w' : Workspace} {v : Services} {t : OccurrenceTable}
    {l : Lowered} (shares : s.Shares) (fresh : w.Fresh) (lowered : lowerCopy v s t w = .ok l w') :
    ∃ calls, ResolvedEach calls w w' ∧
      ∀ e, e ∈ calls ↔ e ∈ s.nodes ∧ ∃ name, e.called? = some name := by
  obtain ⟨c, next, ran, grown, numbered⟩ := copyInto_renamed shares w
  have asking := lowerCopy_asks v s t w
  rw [lowered, ran] at asking
  cases asking with
  | ok asked known =>
    obtain ⟨resolved, within, resolves⟩ := asked.resolves
    have copies : ∀ d ∈ resolved, ∃ e ∈ s.nodes, e.renamed c.name = d := by
      intro d mem
      have listed := within mem
      rwa [s.nodes_renamed, List.mem_map] at listed
    obtain ⟨calls, among, rfl⟩ := exists_map_eq copies
    have called : ∀ e ∈ calls, ∃ name, e.called? = some name := fun e mem =>
      e.called?_renamed c.name ▸ resolves.called (List.mem_map_of_mem mem)
    have rebuilt : ∀ e ∈ calls, e.isRebuilt = true := by
      intro e mem
      obtain ⟨name, called⟩ := called e mem
      exact Expr.isRebuilt_of_called called
    refine ⟨calls, ⟨?_, ?_⟩, fun e => ⟨fun mem => ⟨among mem, called e mem⟩, ?_⟩⟩
    · have ids : (calls.map (Expr.renamed c.name)).map Expr.node = (calls.map Expr.node).map c.name := by
        rw [List.map_map, List.map_map]
        exact List.map_congr_left fun e mem => Expr.node_renamed _ (rebuilt e mem)
      exact List.Nodup.of_map c.name (ids ▸ resolves.once)
    · obtain ⟨recorded, appended, names⟩ := resolves.recorded
      refine ⟨recorded, appended, names.trans ?_⟩
      rw [List.map_map]
      exact List.map_congr_left fun e _ => e.called?_renamed c.name
    · rintro ⟨mem, name, calledHere⟩
      have entry := grown.entry mem (Expr.isRebuilt_of_called calledHere)
      have place : e.renamed c.name ∈ (s.renamed c.name).nodes :=
        s.nodes_renamed c.name ▸ List.mem_map_of_mem mem
      obtain ⟨type, found⟩ := known _ place ((e.called?_renamed c.name).trans calledHere)
      -- The copy had no type at first, so it is among the calls resolved since.
      have same : ∃ d ∈ calls.map (Expr.renamed c.name), d.node = (e.renamed c.name).node := by
        by_contra others
        push Not at others
        have early : w.types.find? (e.renamed c.name).node = some type :=
          (resolves.elsewhere others).symm.trans found
        exact absurd (fresh early) (Nat.not_lt.mpr (numbered.within entry).1)
      obtain ⟨_, listed, same⟩ := same
      obtain ⟨d, memD, rfl⟩ := List.mem_map.mp listed
      have node := numbered.single (grown.entry (among memD) (rebuilt d memD)) entry same
      rwa [shares e mem d (among memD) node.symm]

/-- In whatever workspace work on some nodes has led to, questions about their types are answered as if
nothing were kept, each call is resolved at most once, and lowering a private copy of a statement of theirs
resolves each of its calls exactly once. -/
theorem types_resolved_once {N : List Expr} {w : Workspace} (reached : Reached N w) :
    (∀ queries ⊆ N, Coherent N queries w) ∧
      ∀ {s : Statement}, s.nodes ⊆ N → ∀ {v t l w'}, lowerCopy v s t w = .ok l w' →
        ∃ calls, ResolvedEach calls w w' ∧
          ∀ e, e ∈ calls ↔ e ∈ s.nodes ∧ ∃ name, e.called? = some name := by
  have consistent := reached.consistent
  constructor
  · intro queries within
    exact coherent consistent.sound fun e mem => consistent.members (within mem)
  · intro s within v t l w' lowered
    exact lowerCopy_resolves (consistent.shares within) consistent.fresh lowered

/-! A call that has no type, one of today's date, and one of the later of two dates that are both today's. -/
namespace Questions
open Dates

def untold : ReturnRule where
  resolve _ _ _ := throw (.returnType "mystery" "no type")

def mystery : Callee := ⟨⟨"mystery", untold, none, none, .standard⟩, .empty⟩

def day : Expr := .call 0 today [] none .none

def latest : Expr := .call 1 later [day, day] none .none

def untyped : Expr := .call 2 mystery [day] none .none

def statement : Statement :=
  .select ⟨[], [], [⟨latest, none⟩, ⟨day, some "day"⟩], some (.comparison latest .equal day)⟩

theorem reached : Reached [untyped, latest, day] ⟨3, .empty, []⟩ := by
  have first : Reached [day] ⟨1, .empty, []⟩ := .unchecked .start today rfl (List.Subset.refl [])
  have second : Reached [latest, day] ⟨2, .empty, []⟩ := .unchecked first later rfl (by simp)
  exact .unchecked second mystery rfl (by simp)

/-- The date is asked for five times, and resolved once. -/
theorem day_is_resolved_once :
    let (answers, w) := askAll [latest, untyped, day, latest] ⟨3, .empty, []⟩
    answers = [.ok (some (.basic date)), .error (.returnType "mystery" "no type"),
        .ok (some (.basic date)), .ok (some (.basic date))] ∧
      w.types.find? 2 = none ∧
      w.events = [.functionResolved "current_date", .functionResolved "greatest"] ∧
      ∃ l w', lowerCopy ⟨⟨.empty, .empty⟩, .default⟩ statement .empty ⟨3, .empty, []⟩ = .ok l w' ∧
        ∃ calls, ResolvedEach calls ⟨3, .empty, []⟩ w' ∧ day ∈ calls ∧ latest ∈ calls := by
  obtain ⟨questions, lowerings⟩ := types_resolved_once reached
  have asked := questions [latest, untyped, day, latest] (by simp)
  have lowered : lowerCopy ⟨⟨.empty, .empty⟩, .default⟩ statement .empty ⟨3, .empty, []⟩ = .ok _ _ := rfl
  have within : statement.nodes ⊆ [untyped, latest, day] := by
    have places : statement.nodes = [latest, day, day, day, latest, day, day, day] := rfl
    rw [places]
    simp
  obtain ⟨calls, each, listed⟩ := lowerings within lowered
  refine ⟨asked.answers, ?_, rfl, _, _, lowered, calls, each, ?_, ?_⟩
  · refine Option.eq_none_iff_forall_ne_some.mpr fun type found => ?_
    have own := (asked.cells untyped (by simp) rfl type).mp found
    contradiction
  · exact (listed day).mpr ⟨List.mem_cons_of_mem _ List.mem_cons_self, _, rfl⟩
  · exact (listed latest).mpr ⟨List.mem_cons_self, _, rfl⟩

end Questions

end SemanticQuery.Query
