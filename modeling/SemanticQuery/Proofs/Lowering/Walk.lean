import SemanticQuery.Binding.Build
import SemanticQuery.Proofs.Lowering.References
import SemanticQuery.Proofs.Lowering.Sources

/-! The scopes of a lowering. Sources are entered one after the other and never left, so the from clause of each
scope is a beginning of the one that is kept with the lowered statement. Where all sources have paths of one
segment, what a path or a type is resolved to in a scope it is resolved to at the end, and so when values are
bound. -/
namespace SemanticQuery

namespace Query

/-- The roots of a select, or what an update or delete changes. -/
def Statement.roots : Statement → List Root
  | .select s => s.roots
  | .update u => [u.target]
  | .delete d => [d.target]

/-- The inline rows, which only a select has. -/
def Statement.values : Statement → List ValuesRoot
  | .select s => s.values
  | .update _ | .delete _ => []

end Query

namespace Lowering
open Query

/-- The scopes a statement is lowered in. Roots and then inline rows are entered one after the other, each in
the scope of those before it; all else is lowered in the scope of all of them. -/
inductive WalksThrough (c : Scope) (p : Progress) (s : Statement) : Scope → Prop
  | roots {scope : Scope} {q : Progress} {entered left : List Root} (split : s.roots = entered ++ left)
      (ran : addRoots c entered p = .ok scope q) : WalksThrough c p s scope
  | values {rooted scope : Scope} {q q' : Progress} {entered left : List ValuesRoot}
      (before : addRoots c s.roots p = .ok rooted q) (split : s.values = entered ++ left)
      (ran : addValues rooted entered q = .ok scope q') : WalksThrough c p s scope

/-- A scope for the same model that has no source less. -/
structure Scope.Leads (c after : Scope) : Prop where
  model : after.model = c.model
  roots : c.source.roots <+: after.source.roots

section
variable {c scope after : Scope} {p p' : Progress}

theorem Scope.Leads.refl (c : Scope) : c.Leads c := ⟨rfl, List.prefix_rfl⟩

theorem Scope.Leads.trans (first : c.Leads scope) (later : scope.Leads after) : c.Leads after :=
  ⟨later.model.trans first.model, first.roots.trans later.roots⟩

theorem Scope.leads_add (c : Scope) (group : Sql.TableGroup) : c.Leads (c.add group) :=
  ⟨rfl, List.prefix_append ..⟩

theorem rootTable_leads {root : Root} {table : Sql.TableRef}
    (ran : rootTable c root p = .ok (table, scope) p') : c.Leads scope := by
  obtain ⟨entity, p₁, -, made⟩ := run_bind_ok.mp ran
  cases made
  exact c.leads_add _

theorem addRoots_leads {roots : List Root} (ran : addRoots c roots p = .ok scope p') : c.Leads scope := by
  induction roots generalizing c p with
  | nil =>
    cases ran
    exact .refl _
  | cons root rest ih =>
    obtain ⟨⟨table, next⟩, p₁, first, later⟩ := run_bind_ok.mp ran
    exact (rootTable_leads first).trans (ih later)

theorem addValues_leads {roots : List ValuesRoot} (ran : addValues c roots p = .ok scope p') :
    c.Leads scope := by
  obtain ⟨-, -, model, -, added, -, grown, -⟩ := addValues_lowers c roots ran
  exact ⟨model, added, grown.symm⟩

theorem addRoots_append (c : Scope) (entered left : List Root) :
    addRoots c (entered ++ left) = addRoots c entered >>= fun scope => addRoots scope left := by
  induction entered generalizing c with
  | nil => rfl
  | cons root rest ih =>
    simp only [List.cons_append, addRoots, bind_assoc, ih]

theorem addValues_append (c : Scope) (entered left : List ValuesRoot) :
    addValues c (entered ++ left) = addValues c entered >>= fun scope => addValues scope left := by
  induction entered generalizing c with
  | nil => rfl
  | cons root rest ih =>
    simp only [List.cons_append, addValues, bind_assoc, ih]

/-- The last scope of a statement, whose from clause is kept. -/
theorem lowerParts_enters {s : Statement} {statement : Sql.Statement} {source : Sql.FromClause}
    (ran : lowerParts c s p = .ok (statement, source) p') :
    ∃ rooted q full q', addRoots c s.roots p = .ok rooted q ∧ addValues rooted s.values q = .ok full q' ∧
      full.source = source := by
  cases s with
  | select s =>
    obtain ⟨rooted, q, roots, ran⟩ := run_bind_ok.mp ran
    obtain ⟨full, q', values, ran⟩ := run_bind_ok.mp ran
    obtain ⟨selected, _, -, ran⟩ := run_bind_ok.mp ran
    obtain ⟨restriction, _, -, made⟩ := run_bind_ok.mp ran
    cases made
    exact ⟨rooted, q, full, q', roots, values, rfl⟩
  | update u =>
    obtain ⟨⟨table, full⟩, q, target, ran⟩ := run_bind_ok.mp ran
    obtain ⟨assignments, _, -, ran⟩ := run_bind_ok.mp ran
    obtain ⟨restriction, _, -, made⟩ := run_bind_ok.mp ran
    cases made
    exact ⟨full, q, full, q, run_bind_ok.mpr ⟨_, q, target, rfl⟩, rfl, rfl⟩
  | delete d =>
    obtain ⟨⟨table, full⟩, q, target, ran⟩ := run_bind_ok.mp ran
    obtain ⟨restriction, _, -, made⟩ := run_bind_ok.mp ran
    cases made
    exact ⟨full, q, full, q, run_bind_ok.mpr ⟨_, q, target, rfl⟩, rfl, rfl⟩

/-- From each scope on, what is left of the sources is entered behind it. -/
theorem WalksThrough.leads {s : Statement} {statement : Sql.Statement} {source : Sql.FromClause}
    (walk : WalksThrough c p s scope) (ran : lowerParts c s p = .ok (statement, source) p') :
    scope.model = c.model ∧ scope.source.roots <+: source.roots := by
  obtain ⟨rooted, q, full, q', roots, values, rfl⟩ := lowerParts_enters ran
  cases walk with
  | roots split entered =>
    rw [split, addRoots_append] at roots
    obtain ⟨reached, _, again, left⟩ := run_bind_ok.mp roots
    cases entered.symm.trans again
    exact ⟨(addRoots_leads entered).model, ((addRoots_leads left).trans (addValues_leads values)).roots⟩
  | values before split entered =>
    cases before.symm.trans roots
    rw [split, addValues_append] at values
    obtain ⟨reached, _, again, left⟩ := run_bind_ok.mp values
    cases entered.symm.trans again
    exact ⟨((addRoots_leads before).trans (addValues_leads entered)).model, (addValues_leads left).roots⟩

end

/-- The from clause of a lowered statement has grown out of that of each scope. -/
theorem WalksThrough.grown {model : Model} {strict : Bool} {expansions : OccurrenceId → List Occurrence}
    {s : Statement} {w w' : Workspace} {l : Lowered} {scope : Scope}
    (walk : WalksThrough ⟨model, .empty, expansions, strict⟩ ⟨w, .empty⟩ s scope)
    (lowered : lowerStatement model strict expansions s w = .ok l w')
    (single : ∀ path ∈ s.paths, path.isRoot = true) :
    scope.model = model ∧ scope.source.Grown l.source := by
  obtain ⟨p, ran, -⟩ := lowerStatement_ok lowered
  obtain ⟨same, begins⟩ := walk.leads ran
  exact ⟨same, (lowerStatement_rooted lowered single).grown begins⟩

/-- Sources that are added behind those of a from clause change nothing that a path or a type is resolved to,
whatever their names, as long as they and their joins stand at paths of one segment. So what is resolved in
any scope that a statement of such sources is lowered in, is resolved to the same against the from clause that
is kept for binding. -/
theorem resolved_alike_when_grown :
    (∀ (m : Model) (f : Sql.FromClause) (more : List Sql.TableGroup),
      (∀ group ∈ Sql.TableGroup.membersOf more, group.path.isRoot = true) →
        (∀ (path : Path) (r : ResolvedPath), m.resolvePath f path = .ok r →
          m.resolvePath (more.foldl Sql.FromClause.add f) path = .ok r) ∧
        ∀ (type : ExprType) (mapping : Option Mapping), m.resolveMapping f type = .ok mapping →
          m.resolveMapping (more.foldl Sql.FromClause.add f) type = .ok mapping) ∧
    ∀ {model : Model} {strict : Bool} {expansions : OccurrenceId → List Occurrence} {s : Statement}
      {w w' : Workspace} {l : Lowered}, lowerStatement model strict expansions s w = .ok l w' →
      (∀ path ∈ s.paths, path.isRoot = true) →
        ∀ scope : Scope, WalksThrough ⟨model, .empty, expansions, strict⟩ ⟨w, .empty⟩ s scope →
          (∀ (path : Path) (r : ResolvedPath), scope.model.resolvePath scope.source path = .ok r →
            model.resolvePath l.source path = .ok r) ∧
          ∀ (type : ExprType) (mapping : Option Mapping), scope.mapping type = .ok mapping →
            ∀ (index : Binding.SlotIndex) (catalog : Catalog),
              Binding.Context.mapping ⟨model, l.source, index, catalog⟩ (some type) = .ok mapping := by
  constructor
  · intro m f more single
    have grown : f.Grown (more.foldl Sql.FromClause.add f) :=
      ⟨⟨more⟩, (f.roots_foldl_add more).symm, single⟩
    refine ⟨fun path r resolved => ?_, fun type mapping resolved => ?_⟩
    · exact Model.resolvePath_of_grown grown resolved
    · exact Model.resolveMapping_of_grown grown resolved
  · intro model strict expansions s w w' l lowered single scope walk
    obtain ⟨rfl, grown⟩ := walk.grown lowered single
    refine ⟨fun path r resolved => ?_, fun type mapping resolved index catalog => ?_⟩
    · exact Model.resolvePath_of_grown grown resolved
    · have again := Model.resolveMapping_of_grown grown resolved
      rw [Binding.Context.mapping, again]
      rfl

/-! People, inline rows that read their ages, and more inline rows under the name of the people. -/
namespace Renamed
open Model.Sample (people)
open SemanticQuery.Lowering.Joined (age limits)

def persons : Sql.TableGroup := .entity people "Person" ⟨"person", "p"⟩

/-- Inline rows with an age under the name of the people, with joins. -/
def ages (joins : List Sql.TableGroup) : Sql.TableGroup :=
  .values people ⟨[[.literal (.text "old") .varchar]], "p", ["age"]⟩ [some (Model.Sample.basic .text)] [] joins

/-- Inline rows at a path of one segment, and orders joined to them at the age itself. -/
def joined : Sql.TableGroup := ages [.entity age.path "Order" ⟨"orders", "o"⟩]

/-- A join is found like a source of its own: one that stands at the age takes it over. -/
theorem joined_orders_take_age :
    (Sql.FromClause.mk [persons]).Rooted ∧ joined.path.isRoot = true ∧
      ∃ r r', Model.Sample.model.resolvePath ⟨[persons]⟩ age.path = .ok r ∧
        (r.qualifier, r.columns) = ("p", ["age"]) ∧
        Model.Sample.model.resolvePath (Sql.FromClause.add ⟨[persons]⟩ joined) age.path = .ok r' ∧
        (r'.qualifier, r'.columns) = ("o", ["id"]) := by
  refine ⟨fun group mem => ?_, rfl, _, _, rfl, rfl, rfl, rfl⟩
  rw [List.mem_singleton.mp mem]
  rfl

def statement : Statement := .select {
  roots := [⟨"Person", people⟩]
  values := [⟨limits, ["limit"], [[.path 0 age]]⟩,
    ⟨people, ["age"], [[.literal 1 (.text "old") (.mapped (Model.Sample.basic .text))]]⟩]
  selections := [⟨.path 2 age, none⟩]
  restriction := none }

theorem ages_stay_those_of_people :
    (∃ r, Model.Sample.model.resolvePath ⟨[persons]⟩ age.path = .ok r ∧
      r.mapping = Model.Sample.basic .integer ∧
      Model.Sample.model.resolvePath ⟨[persons, ages []]⟩ age.path = .ok r) ∧
    ∃ (l : Lowered) (w : Workspace) (scope : Scope),
      lowerStatement Model.Sample.model true (fun _ => []) statement .empty = .ok l w ∧
        l.source.roots.map Sql.TableGroup.path = [people, limits, people] ∧
        WalksThrough ⟨Model.Sample.model, .empty, fun _ => [], true⟩ ⟨.empty, .empty⟩ statement scope ∧
        scope.source.roots = [persons] ∧
        scope.mapping (.path age) = .ok (some (Model.Sample.basic .integer)) ∧
        Binding.Context.mapping ⟨Model.Sample.model, l.source, .empty, .standard⟩ (some (.path age)) =
          .ok (some (Model.Sample.basic .integer)) := by
  obtain ⟨added, walked⟩ := resolved_alike_when_grown
  constructor
  · have found : Model.Sample.model.resolvePath ⟨[persons]⟩ age.path = .ok _ := rfl
    refine ⟨_, found, rfl, ?_⟩
    refine (added Model.Sample.model ⟨[persons]⟩ [ages []] ?_).1 age.path _ found
    intro group mem
    rw [List.mem_singleton.mp mem]
    rfl
  · have lowered : lowerStatement Model.Sample.model true (fun _ => []) statement .empty = .ok _ _ := rfl
    have entered : addRoots ⟨Model.Sample.model, .empty, fun _ => [], true⟩ [⟨"Person", people⟩]
      ⟨.empty, .empty⟩ = .ok _ _ := rfl
    have walk : WalksThrough ⟨Model.Sample.model, .empty, fun _ => [], true⟩ ⟨.empty, .empty⟩ statement _ :=
      .roots (List.append_nil _).symm entered
    have single : ∀ path ∈ statement.paths, path.isRoot = true := by decide
    refine ⟨_, _, _, lowered, rfl, walk, rfl, rfl, ?_⟩
    exact (walked lowered single _ walk).2 (.path age) _ rfl .empty .standard

end Renamed

end Lowering

end SemanticQuery
