import SemanticQuery.Proofs.Lowering.Slots
import SemanticQuery.Proofs.Model.Growth
import SemanticQuery.Proofs.Query.Copies

/-! The from clause a statement is lowered with: a group for each source of the statement, under its path,
in order and without joins. Occurrences are visited with this from clause or with a part it begins with. -/
namespace SemanticQuery.Query

/-- The paths of the sources of a statement: roots, then inline rows. -/
def Statement.paths : Statement → List Path
  | .select s => s.roots.map Root.path ++ s.values.map ValuesRoot.path
  | .update u => [u.target.path]
  | .delete d => [d.target.path]

theorem map_path_of_related {R : Expr → Expr → Prop} {roots copies : List ValuesRoot}
    (related : List.Forall₂ (ValuesRoot.Related R) roots copies) :
    copies.map ValuesRoot.path = roots.map ValuesRoot.path := by
  induction related with
  | nil => rfl
  | cons first _ ih => rw [List.map_cons, List.map_cons, ih, first.path]

theorem Statement.Related.paths {R : Expr → Expr → Prop} {s s' : Statement} (related : s.Related R s') :
    s'.paths = s.paths := by
  cases related with
  | select roots values selections restriction =>
    rw [Statement.paths, Statement.paths, roots, map_path_of_related values]
  | update target assignments restriction => rw [Statement.paths, Statement.paths, target]
  | delete target restriction => rw [Statement.paths, Statement.paths, target]

theorem copy_paths (s : Statement) (w : Workspace) :
    (copyInto s.copy .empty w).1.paths = s.paths :=
  (copyInto_related (parameters_relation s) (fun _ mem => mem) w).paths

end SemanticQuery.Query

namespace SemanticQuery.Lowering
open Query

def memberPaths (f : Sql.FromClause) : List Path := f.members.map Sql.TableGroup.path

theorem memberPaths_add (f : Sql.FromClause) (group : Sql.TableGroup) :
    memberPaths (f.add group) = memberPaths f ++ group.members.map Sql.TableGroup.path := by
  rw [memberPaths, Sql.FromClause.members_add, List.map_append, memberPaths]

section
variable {c scope : Scope} {p p' : Progress}

theorem rootTable_paths {root : Root} {table : Sql.TableRef}
    (ran : rootTable c root p = .ok (table, scope) p') :
    memberPaths scope.source = memberPaths c.source ++ [root.path] := by
  obtain ⟨entity, p₁, -, made⟩ := run_bind_ok.mp ran
  cases made
  exact memberPaths_add ..

theorem addRoots_paths {roots : List Root} (ran : addRoots c roots p = .ok scope p') :
    memberPaths scope.source = memberPaths c.source ++ roots.map Root.path := by
  induction roots generalizing c p with
  | nil =>
    cases ran
    exact (List.append_nil _).symm
  | cons root rest ih =>
    obtain ⟨⟨table, next⟩, p₁, first, later⟩ := run_bind_ok.mp ran
    rw [ih later, rootTable_paths first, List.append_assoc]
    rfl

theorem addValues_paths {roots : List ValuesRoot} (ran : addValues c roots p = .ok scope p') :
    memberPaths scope.source = memberPaths c.source ++ roots.map ValuesRoot.path := by
  induction roots generalizing c p with
  | nil =>
    cases ran
    exact (List.append_nil _).symm
  | cons root rest ih =>
    obtain ⟨mappings, p₁, -, ran⟩ := run_bind_ok.mp ran
    obtain ⟨rows, p₂, -, later⟩ := run_bind_ok.mp ran
    rw [ih later, Scope.add, memberPaths_add, List.append_assoc]
    rfl

theorem lowerParts_paths {s : Statement} {statement : Sql.Statement} {source : Sql.FromClause}
    (empty : c.source = .empty) (ran : lowerParts c s p = .ok (statement, source) p') :
    memberPaths source = s.paths := by
  have start : memberPaths c.source = [] := by rw [empty]; rfl
  cases s with
  | select s =>
    obtain ⟨rooted, p₁, roots, ran⟩ := run_bind_ok.mp ran
    obtain ⟨full, p₂, values, ran⟩ := run_bind_ok.mp ran
    obtain ⟨selected, p₃, -, ran⟩ := run_bind_ok.mp ran
    obtain ⟨restriction, p₄, -, made⟩ := run_bind_ok.mp ran
    cases made
    rw [addValues_paths values, addRoots_paths roots, start]
    rfl
  | update u =>
    obtain ⟨⟨table, scope⟩, p₁, target, ran⟩ := run_bind_ok.mp ran
    obtain ⟨assignments, p₂, -, ran⟩ := run_bind_ok.mp ran
    obtain ⟨restriction, p₃, -, made⟩ := run_bind_ok.mp ran
    cases made
    rw [rootTable_paths target, start]
    rfl
  | delete d =>
    obtain ⟨⟨table, scope⟩, p₁, target, ran⟩ := run_bind_ok.mp ran
    obtain ⟨restriction, p₂, -, made⟩ := run_bind_ok.mp ran
    cases made
    rw [rootTable_paths target, start]
    rfl

end

section
variable {model : Model} {strict : Bool} {expansions : OccurrenceId → List Occurrence} {s : Statement}
  {w w' : Workspace} {l : Lowered}

theorem lowerStatement_paths (lowered : lowerStatement model strict expansions s w = .ok l w') :
    memberPaths l.source = s.paths := by
  obtain ⟨p, run, -⟩ := lowerStatement_ok lowered
  exact lowerParts_paths rfl run

/-- Sources with paths of one segment are lowered to groups at such paths. -/
theorem lowerStatement_rooted (lowered : lowerStatement model strict expansions s w = .ok l w')
    (single : ∀ path ∈ s.paths, path.isRoot = true) : l.source.Rooted := by
  intro group mem
  apply single
  rw [← lowerStatement_paths lowered]
  exact List.mem_map_of_mem mem

end

theorem valuesScenes_grown {source : Sql.FromClause} {before : Nat} {roots : List ValuesRoot}
    {scene : Scene} (visit : scene ∈ valuesScenes source before roots) :
    scene.1.roots <+: source.roots := by
  induction roots generalizing before with
  | nil => contradiction
  | cons root rest ih =>
    rw [valuesScenes, List.mem_append, List.mem_map] at visit
    obtain ⟨o, -, rfl⟩ | later := visit
    · exact List.take_prefix ..
    · exact ih later

/-- An occurrence sees the from clause the statement ends up with, or the sources before its own. -/
theorem scenes_grown {expansions : OccurrenceId → List Occurrence} {source : Sql.FromClause}
    {s : Statement} {scene : Scene} (visit : scene ∈ scenes expansions source s) :
    scene.1.roots <+: source.roots := by
  have whole {os : List Occurrence} (mem : scene ∈ os.map (Prod.mk source)) :
      scene.1.roots <+: source.roots := by
    obtain ⟨o, -, rfl⟩ := List.mem_map.mp mem
    exact List.prefix_rfl
  cases s with
  | select s => exact (List.mem_append.mp visit).elim valuesScenes_grown whole
  | update u => exact whole visit
  | delete d => exact whole visit

end SemanticQuery.Lowering
