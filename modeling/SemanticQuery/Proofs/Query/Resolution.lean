import SemanticQuery.Proofs.Query.Typing

/-! What asking for types does to a workspace. Calls are resolved one after the other, each at most once:
its type is kept, one event names its function, and nothing else changes. -/
namespace SemanticQuery

/-- The function that an event says was resolved. -/
def Event.resolved? : Event → Option String
  | functionResolved function => some function
  | statementLowered | slotsAllocated _ | mappingUnavailable _ | planBuilt _ | cacheHit | cacheMiss => none

namespace Query

/-- The name of the function that a node calls. -/
def Expr.called? : Expr → Option String
  | call _ function _ _ _ => some function.name
  | literal .. | parameter .. | path .. | tuple .. => none

theorem Expr.isRebuilt_of_called {e : Expr} {name : String} (called : e.called? = some name) :
    e.isRebuilt = true := by
  cases e with
  | call => rfl
  | literal | parameter | path | tuple => contradiction

namespace Workspace

/-- From one workspace to a later one, with some calls resolved in between, in this order. -/
structure Resolves (w w' : Workspace) (calls : List Expr) : Prop where
  next : w'.nextNode = w.nextNode
  before : ∀ e ∈ calls, w.types.find? e.node = none
  after : ∀ e ∈ calls, ∃ type, w'.types.find? e.node = some type
  elsewhere : ∀ {node}, (∀ e ∈ calls, e.node ≠ node) → w'.types.find? node = w.types.find? node
  once : (calls.map Expr.node).Nodup
  recorded : ∃ recorded, w'.events = w.events ++ recorded ∧
    (recorded.filterMap Event.resolved?).map some = calls.map Expr.called?

namespace Resolves
variable {w w' w'' : Workspace} {calls more : List Expr}

theorem report (w : Workspace) {event : Event} (other : event.resolved? = none) :
    w.Resolves (w.report event) [] where
  next := rfl
  before := by simp
  after := by simp
  elsewhere _ := rfl
  once := .nil
  recorded := ⟨[event], rfl, by rw [List.filterMap_cons_none other]; rfl⟩

theorem refl (w : Workspace) : w.Resolves w [] where
  next := rfl
  before := by simp
  after := by simp
  elsewhere _ := rfl
  once := .nil
  recorded := ⟨[], (List.append_nil _).symm, rfl⟩

theorem call {e : Expr} {function : String} (called : e.called? = some function)
    (unresolved : w.types.find? e.node = none) (type : Option ExprType) :
    w.Resolves ((w.report (.functionResolved function)).keepType e.node type) [e] where
  next := rfl
  before := List.forall_mem_singleton.mpr unresolved
  after := List.forall_mem_singleton.mpr ⟨type, KeyedList.find?_insert_self ..⟩
  elsewhere others := KeyedList.find?_insert_of_ne (others e List.mem_cons_self).symm
  once := List.nodup_singleton _
  recorded := ⟨[.functionResolved function], rfl, by rw [List.map_singleton, called]; rfl⟩

/-- A type that is kept stays. -/
theorem kept (resolves : w.Resolves w' calls) {node : NodeId} {type : Option ExprType}
    (found : w.types.find? node = some type) : w'.types.find? node = some type := by
  rw [resolves.elsewhere, found]
  rintro e mem rfl
  rw [resolves.before e mem] at found
  contradiction

theorem trans (first : w.Resolves w' calls) (later : w'.Resolves w'' more) :
    w.Resolves w'' (calls ++ more) where
  next := later.next.trans first.next
  before := by
    refine List.forall_mem_append.mpr ⟨first.before, fun e mem => ?_⟩
    refine Option.eq_none_iff_forall_ne_some.mpr fun type found => ?_
    have unresolved := later.before e mem
    rw [first.kept found] at unresolved
    contradiction
  after := by
    refine List.forall_mem_append.mpr ⟨fun e mem => ?_, later.after⟩
    obtain ⟨type, found⟩ := first.after e mem
    exact ⟨type, later.kept found⟩
  elsewhere others := by
    obtain ⟨early, late⟩ := List.forall_mem_append.mp others
    rw [later.elsewhere late, first.elsewhere early]
  once := by
    rw [List.map_append]
    refine first.once.append later.once fun node early late => ?_
    obtain ⟨e, mem, rfl⟩ := List.mem_map.mp early
    obtain ⟨other, memOther, same⟩ := List.mem_map.mp late
    obtain ⟨type, found⟩ := first.after e mem
    rw [← same, later.before other memOther] at found
    contradiction
  recorded := by
    obtain ⟨early, appended, names⟩ := first.recorded
    obtain ⟨late, appendedLater, namesLater⟩ := later.recorded
    refine ⟨early ++ late, ?_, ?_⟩
    · rw [appendedLater, appended, List.append_assoc]
    · rw [List.filterMap_append, List.map_append, List.map_append, names, namesLater]

/-- Only calls are resolved. -/
theorem called (resolves : w.Resolves w' calls) {e : Expr} (mem : e ∈ calls) :
    ∃ name, e.called? = some name := by
  obtain ⟨recorded, -, names⟩ := resolves.recorded
  have listed := List.mem_map_of_mem (f := Expr.called?) mem
  rw [← names, List.mem_map] at listed
  obtain ⟨name, -, same⟩ := listed
  exact ⟨name, same.symm⟩

end Resolves

/-- The calls among some nodes are resolved. -/
def Knows (w : Workspace) (nodes : List Expr) : Prop :=
  ∀ e ∈ nodes, ∀ {name}, e.called? = some name → ∃ type, w.types.find? e.node = some type

end Workspace

/-- From one workspace to a later one, with calls among some nodes resolved in between, and to the types
that are their own as far as what was kept before is. -/
structure Asked (N : List Expr) (w w' : Workspace) : Prop where
  resolves : ∃ calls ⊆ N, w.Resolves w' calls
  sound : ∀ {M}, N ⊆ M → w.Sound M → w'.Sound M

namespace Asked
variable {N M : List Expr} {w w' w'' : Workspace}

theorem refl (N : List Expr) (w : Workspace) : Asked N w w :=
  ⟨⟨[], List.nil_subset N, .refl w⟩, fun _ sound => sound⟩

theorem report (N : List Expr) (w : Workspace) {event : Event} (other : event.resolved? = none) :
    Asked N w (w.report event) :=
  ⟨⟨[], List.nil_subset N, .report w other⟩, fun _ sound => sound.report event⟩

theorem trans (first : Asked N w w') (later : Asked N w' w'') : Asked N w w'' := by
  obtain ⟨calls, within, resolves⟩ := first.resolves
  obtain ⟨more, withinLater, resolvesLater⟩ := later.resolves
  refine ⟨⟨calls ++ more, ?_, resolves.trans resolvesLater⟩, fun subset sound => ?_⟩
  · exact List.append_subset.mpr ⟨within, withinLater⟩
  · exact later.sound subset (first.sound subset sound)

theorem mono (asked : Asked N w w') (subset : N ⊆ M) : Asked M w w' := by
  obtain ⟨calls, within, resolves⟩ := asked.resolves
  refine ⟨⟨calls, List.Subset.trans within subset, resolves⟩, fun larger => ?_⟩
  exact asked.sound (List.Subset.trans subset larger)

theorem next (asked : Asked N w w') : w'.nextNode = w.nextNode := by
  obtain ⟨calls, -, resolves⟩ := asked.resolves
  exact resolves.next

/-- Nodes other than the calls are left as they are. -/
theorem elsewhere (asked : Asked N w w') {node : NodeId}
    (others : ∀ e ∈ N, e.isRebuilt = true → e.node ≠ node) :
    w'.types.find? node = w.types.find? node := by
  obtain ⟨calls, within, resolves⟩ := asked.resolves
  refine resolves.elsewhere fun e mem => ?_
  obtain ⟨name, called⟩ := resolves.called mem
  exact others e (within mem) (Expr.isRebuilt_of_called called)

theorem knows (asked : Asked N w w') {nodes : List Expr} (known : w.Knows nodes) : w'.Knows nodes := by
  obtain ⟨calls, -, resolves⟩ := asked.resolves
  intro e mem name called
  obtain ⟨type, found⟩ := known e mem called
  exact ⟨type, resolves.kept found⟩

end Asked

/-- The end of a step that only asks for types of some nodes. Where it succeeds, the calls among other
nodes are resolved. -/
inductive Asking (N nodes : List Expr) {ε σ α : Type} (work : σ → Workspace) (w : Workspace) :
    EStateM.Result ε σ α → Prop
  | ok {a : α} {s : σ} (asked : Asked N w (work s)) (known : (work s).Knows nodes) :
      Asking N nodes work w (.ok a s)
  | error {e : ε} {s : σ} (asked : Asked N w (work s)) : Asking N nodes work w (.error e s)

/-- A step that only asks for types, in whatever state. -/
def Asks (N nodes : List Expr) {ε σ α : Type} (work : σ → Workspace) (m : EStateM ε σ α) : Prop :=
  ∀ s, Asking N nodes work (work s) (m s)

section
variable {N M nodes more : List Expr} {ε σ α β : Type} {work : σ → Workspace}

theorem Asking.mono {w : Workspace} {r : EStateM.Result ε σ α} (asking : Asking N nodes work w r)
    (subset : N ⊆ M) (fewer : more ⊆ nodes) : Asking M more work w r := by
  cases asking with
  | ok asked known => exact .ok (asked.mono subset) fun e mem => known e (fewer mem)
  | error asked => exact .error (asked.mono subset)

theorem Asking.asked {w : Workspace} {r : EStateM.Result ε σ α} (asking : Asking N nodes work w r) :
    Asked N w (work (ended r).2) := by
  cases asking with
  | ok asked | error asked => exact asked

theorem Asking.known {w : Workspace} {r : EStateM.Result ε σ α} (asking : Asking N nodes work w r) {a : α}
    (succeeds : (ended r).1 = .ok a) : (work (ended r).2).Knows nodes := by
  cases asking with
  | ok _ known => exact known
  | error => contradiction

/-- Earlier steps are asked first, and what they resolved is known from then on. -/
theorem Asking.after {w w' : Workspace} {r : EStateM.Result ε σ α} (asking : Asking N more work w' r)
    (asked : Asked N w w') (known : w'.Knows nodes) : Asking N (nodes ++ more) work w r := by
  cases asking with
  | ok askedLater knownLater =>
    refine .ok (asked.trans askedLater) fun e mem => ?_
    cases List.mem_append.mp mem with
    | inl mem => exact askedLater.knows known e mem
    | inr mem => exact knownLater e mem
  | error askedLater => exact .error (asked.trans askedLater)

theorem Asking.bind {m : EStateM ε σ α} {f : α → EStateM ε σ β} {s : σ}
    (first : Asking N nodes work (work s) (m s))
    (later : ∀ a s', m s = .ok a s' → Asking N more work (work s') (f a s')) :
    Asking N (nodes ++ more) work (work s) ((m >>= f) s) := by
  simp only [Bind.bind, EStateM.bind]
  cases ran : m s with
  | error e s' =>
    rw [ran] at first
    cases first with
    | error asked => exact .error asked
  | ok a s' =>
    rw [ran] at first
    cases first with
    | ok asked known => exact (later a s' ran).after asked known

namespace Asks

theorem pure (a : α) : Asks N [] work (pure a : EStateM ε σ α) := fun s =>
  .ok (.refl N (work s)) (by simp [Workspace.Knows])

theorem throw (e : ε) : Asks N nodes work (throw e : EStateM ε σ α) := fun s => .error (.refl N (work s))

theorem mono {m : EStateM ε σ α} (asks : Asks N nodes work m) (subset : N ⊆ M) (fewer : more ⊆ nodes) :
    Asks M more work m := fun s => (asks s).mono subset fewer

theorem bind {m : EStateM ε σ α} {f : α → EStateM ε σ β} (first : Asks N nodes work m)
    (later : ∀ a, Asks N more work (f a)) : Asks N (nodes ++ more) work (m >>= f) := fun s =>
  (first s).bind fun a s' _ => later a s'

/-- A node that is no call has nothing to resolve itself. -/
theorem cons {m : EStateM ε σ α} {e : Expr} (bare : e.called? = none) (asks : Asks N nodes work m) :
    Asks N (e :: nodes) work m := by
  intro s
  have asking := asks s
  cases ran : m s with
  | error failure s' =>
    rw [ran] at asking
    cases asking with
    | error asked => exact .error asked
  | ok a s' =>
    rw [ran] at asking
    cases asking with
    | ok asked known =>
      refine .ok asked (List.forall_mem_cons.mpr ⟨fun {name} called => ?_, known⟩)
      rw [bare] at called
      contradiction

end Asks

end

/-- A step that cannot fail and only asks for types of some nodes. -/
def Inquires (N : List Expr) {α : Type} (m : StateM Workspace α) : Prop := ∀ w, Asked N w (m w).2

namespace Inquires
variable {N nodes : List Expr} {α β : Type}

theorem pure (a : α) : Inquires N (pure a) := fun w => .refl N w

theorem bind {m : StateM Workspace α} {f : α → StateM Workspace β} (first : Inquires N m)
    (later : ∀ a, Inquires N (f a)) : Inquires N (m >>= f) := fun w => (first w).trans (later _ _)

theorem answered {m : TypingM α} (asks : Asks N nodes id m) : Inquires N (answered m) := by
  intro w
  have asked := (asks w).asked
  unfold Query.answered
  cases ran : m w with
  | ok | error =>
    rw [ran] at asked
    exact asked

/-- An inquiry asks for what those ask for who answer it. -/
theorem run {Q A : Type} {answers : Q → StateM Workspace A}
    (each : ∀ question, Inquires N (answers question)) (x : Inquiry Q A α) : Inquires N (x.run answers) :=
  x.run_holds .pure fun question _ => (each question).bind

end Inquires

theorem Asks.resolveWith {N nodes : List Expr} {α : Type} {typeAt : Place → TypingM (Option ExprType)}
    (each : ∀ place, Asks N nodes id (typeAt place)) (x : Resolution α) :
    Asks N [] id (resolveWith typeAt x) := by
  intro w
  have asked := Inquires.run (fun place => .answered (each place)) x.run w
  unfold Query.resolveWith
  cases ran : x.run.run (fun place => Query.answered (typeAt place)) w with
  | mk outcome w' =>
    rw [ran] at asked
    cases outcome with
    | ok a => exact .ok asked (by simp [Workspace.Knows])
    | error failure => exact .error asked

/-- A type that is not known yet is kept once the parts of the call are asked. -/
theorem keepResolved_asks {N : List Expr} (apart : Apart N) {e : Expr} (members : ∀ d ∈ e.nodes, d ∈ N)
    {function : String} (called : e.called? = some function) {m : TypingM (Option ExprType)}
    (parts : Asks (Expr.nodesOf e.parts) [] id m)
    (typed : ∀ {M}, (∀ d ∈ Expr.nodesOf e.parts, d ∈ M) → Typed M m e.ownType)
    {w : Workspace} (unknown : w.types.find? e.node = none) :
    Asking e.nodes [e] id w ((m >>= keepResolved e.node function) w) := by
  have below : Expr.nodesOf e.parts ⊆ e.nodes := e.nodes_eq ▸ List.subset_cons_self _ _
  have rebuilt := Expr.isRebuilt_of_called called
  have asking := parts w
  simp only [Bind.bind, EStateM.bind]
  cases ran : m w with
  | error failure w' =>
    rw [ran] at asking
    cases asking with
    | error asked => exact .error (asked.mono below)
  | ok type w' =>
    rw [ran] at asking
    cases asking with
    | ok asked =>
      have unresolved : w'.types.find? e.node = none := by
        rw [← unknown]
        refine asked.elsewhere fun d memBelow rebuiltBelow same => ?_
        have mem := members e e.mem_nodes
        rw [apart d (members d (below memBelow)) e mem rebuiltBelow rebuilt same] at memBelow
        exact e.not_mem_nodesOf_parts memBelow
      obtain ⟨calls, within, resolves⟩ := asked.resolves
      have last := resolves.trans (.call called unresolved type)
      refine .ok ⟨⟨calls ++ [e], ?_, last⟩, fun {M} subset sound => ?_⟩ fun d mem name _ => ?_
      · exact List.append_subset.mpr ⟨List.Subset.trans within below, by simp [e.mem_nodes]⟩
      · have kept := asked.sound (List.Subset.trans below subset) sound
        have own := (typed fun d mem => subset (below mem)).ended_eq sound
        rw [ran] at own
        exact (kept.report _).keepType (subset e.mem_nodes) rebuilt own.symm
      · rw [List.mem_singleton.mp mem]
        exact ⟨type, KeyedList.find?_insert_self ..⟩

/-- A type that is known is not resolved again. -/
theorem resolveOnce_asks {e : Expr} {m : TypingM (Option ExprType)}
    (first : ∀ w : Workspace, w.types.find? e.node = none → Asking e.nodes [e] id w (m w)) :
    Asks e.nodes [e] id (do
      match (← get).types.find? e.node with
      | some resolved => return resolved
      | none => m) := by
  intro w
  cases found : w.types.find? e.node with
  | some resolved =>
    simp only [run_get_bind, found]
    refine .ok (.refl _ w) fun d mem name _ => ?_
    exact ⟨resolved, List.mem_singleton.mp mem ▸ found⟩
  | none =>
    simp only [run_get_bind, found]
    exact first w found

/-- A call is resolved once its arguments have been asked for what its function wants to know. -/
theorem Expr.call_asks {N : List Expr} (apart : Apart N) {node : NodeId} {function : Callee}
    {arguments : List Expr} {implied : Option ExprType} {notes : Notes}
    (parts : ∀ place, Asks (nodesOf arguments) [] id (typeAmong arguments place))
    (members : ∀ d ∈ (call node function arguments implied notes).nodes, d ∈ N) :
    Asks (call node function arguments implied notes).nodes [call node function arguments implied notes] id
      (call node function arguments implied notes).type := by
  rw [type, typeWithin]
  refine resolveOnce_asks (e := .call node function arguments implied notes) fun w unknown => ?_
  refine keepResolved_asks apart members rfl (.resolveWith parts _) (fun within => ?_) unknown
  exact .resolveWith (typeAmong_typed arguments within) _

mutual

/-- Asking for the type of what stands at a place resolves no calls but those there and below. -/
theorem Expr.typeWithin_asks {N : List Expr} (apart : Apart N) : (e : Expr) → (∀ d ∈ e.nodes, d ∈ N) →
    (place : Place) → Asks e.nodes [] id (e.typeWithin place)
  | .literal .., _, [] | .parameter .., _, [] | .path .., _, [] | .tuple .., _, [] => .pure _
  | .literal .., _, _ :: _ | .parameter .., _, _ :: _ | .path .., _, _ :: _ => .pure _
  | .call _ _ arguments _ _, members, [] =>
    (call_asks apart (typeAmong_asks apart arguments fun d mem => members d (List.mem_cons_of_mem _ mem))
      members).mono (List.Subset.refl _) (List.nil_subset _)
  | .call _ _ arguments _ _, members, index :: below => by
    rw [typeWithin]
    exact (typeAmong_asks apart arguments (fun d mem => members d (List.mem_cons_of_mem _ mem)) _).mono
      (List.subset_cons_self _ _) (List.Subset.refl _)
  | .tuple _ elements _, members, index :: below => by
    rw [typeWithin]
    exact (typeAmong_asks apart elements (fun d mem => members d (List.mem_cons_of_mem _ mem)) _).mono
      (List.subset_cons_self _ _) (List.Subset.refl _)

theorem Expr.typeAmong_asks {N : List Expr} (apart : Apart N) : (es : List Expr) →
    (∀ d ∈ Expr.nodesOf es, d ∈ N) → (place : Place) → Asks (Expr.nodesOf es) [] id (Expr.typeAmong es place)
  | [], _, _ | _ :: _, _, [] => .mono (.pure _) (List.nil_subset _) (List.Subset.refl _)
  | e :: _, members, 0 :: below => by
    rw [nodesOf, List.forall_mem_append] at members
    rw [typeAmong, nodesOf]
    exact (typeWithin_asks apart e members.1 below).mono (List.subset_append_left _ _) (List.Subset.refl _)
  | _ :: rest, members, (index + 1) :: below => by
    rw [nodesOf, List.forall_mem_append] at members
    rw [typeAmong, nodesOf]
    exact (typeAmong_asks apart rest members.2 (index :: below)).mono (List.subset_append_right _ _)
      (List.Subset.refl _)

end

/-- Asking for the type of a node resolves it. -/
theorem Expr.type_asks {N : List Expr} (apart : Apart N) : (e : Expr) → (∀ d ∈ e.nodes, d ∈ N) →
    Asks e.nodes [e] id e.type
  | .literal .., _ | .parameter .., _ | .path .., _ | .tuple .., _ => .cons rfl (.pure _)
  | .call _ _ arguments _ _, members =>
    call_asks apart (typeAmong_asks apart arguments fun d mem => members d (List.mem_cons_of_mem _ mem)) members

theorem Expr.type_asked {N : List Expr} (apart : Apart N) (e : Expr) (members : ∀ d ∈ e.nodes, d ∈ N)
    (w : Workspace) : Asked N w (ended (e.type w)).2 :=
  (e.type_asks apart members w).asked.mono members

/-- Validators ask for the types of arguments. -/
theorem checkArguments_asks {N : List Expr} (apart : Apart N) (v : Validator) (function : String)
    {arguments : List Expr} (members : ∀ d ∈ Expr.nodesOf arguments, d ∈ N) :
    Asks N [] id (checkArguments v function arguments) :=
  .resolveWith (fun place => (Expr.typeAmong_asks apart arguments members place).mono members
    (List.Subset.refl _)) _

end Query

end SemanticQuery
