import SemanticQuery.Proofs.Cache.Requests
import SemanticQuery.Proofs.Fingerprint.Decoding

/-! When a cache does not show. A cached interpretation is as good as one built afresh exactly where
requests that are hashed from the same bytes build alike, and they do where texts tell their words
apart. -/
namespace SemanticQuery
open Query Binding Fingerprint Interpretation

def Request.stream (r : Request) : Bytes := Fingerprint.stream r.statement r.table

/-- Requests that come to the same in any two workspaces. -/
def BuildAlike (v : Services) (r r' : Request) : Prop :=
  ∀ w w' : Workspace, w.Fresh → w'.Fresh →
    Agree (attempt v r.statement r.table w).1 (attempt v r'.statement r'.table w').1

/-- No two of some requests are hashed to one digest from different bytes. -/
def CollisionFree (R : Request → Prop) : Prop :=
  ∀ r r', R r → R r' → Digest.Sha256.digest r.stream = Digest.Sha256.digest r'.stream →
    r.stream = r'.stream

theorem buildAlike_self (v : Services) {r : Request} (shares : r.statement.Shares) :
    BuildAlike v r r := fun _ _ fresh fresh' =>
  (attempt_agrees (.refl r.statement r.table) shares shares rfl fresh fresh').1

theorem BuildAlike.symm {v : Services} {r r' : Request} (alike : BuildAlike v r r') :
    BuildAlike v r' r := fun w w' fresh fresh' => (alike w' w fresh' fresh).symm

theorem attempt_fresh (v : Services) {r : Request} (shares : r.statement.Shares) {w : Workspace}
    (fresh : w.Fresh) : (attempt v r.statement r.table w).2.Fresh :=
  (attempt_agrees (.refl r.statement r.table) shares shares rfl fresh fresh).2

theorem attempt_fingerprint {v : Services} {s : Statement} {t : OccurrenceTable} {w w' : Workspace}
    {i : Interpretation} (built : attempt v s t w = (.ok i, w')) :
    i.fingerprint = Fingerprint.fingerprint s t := by
  cases lowered : lowerCopy v s t w with
  | error e x =>
    rw [attempt_of_failed lowered] at built
    cases built
  | ok l x =>
    cases indexed : SlotIndex.build t l.ledger.groups? with
    | error e =>
      rw [attempt_of_unindexed lowered indexed] at built
      cases built
    | ok index =>
      rw [attempt_of_lowered lowered indexed] at built
      cases built
      rfl

/-- A well-formed request with words of a vocabulary, short enough for its lengths to be written. -/
structure Request.WrittenIn (V : Vocabulary) (r : Request) : Prop where
  wellFormed : r.WellFormed
  legible : V.LegibleAll r.statement.nodes
  fits : (skeleton r.table r.statement).Fits

/-- The bytes that are hashed settle all that requests in one vocabulary come to. -/
theorem buildAlike_of_writtenIn {V : Vocabulary} (v : Services) {r r' : Request}
    (written : r.WrittenIn V) (written' : r'.WrittenIn V) (same : r.stream = r'.stream) :
    BuildAlike v r r' := by
  have read := statement_reads written.legible written'.legible
    (skeleton_of_stream written.fits written'.fits same)
  have answering := answering_of_wellFormed written.wellFormed written'.wellFormed read.bare read.wide
  intro w w' fresh fresh'
  exact (attempt_agrees answering written.wellFormed.shares written'.wellFormed.shares read.bare
    fresh fresh').1

namespace Cache

/-- Between their requests callers go on to other workspaces. -/
inductive Step where
  | interpret (r : Request)
  | clear
  | move (w : Workspace)

/-- Every interpretation along a history agrees with one that is built afresh, in whatever workspace. -/
def Transparent (model : Model) : Cache → Workspace → List Step → Prop
  | _, _, [] => True
  | c, w, .clear :: rest => Transparent model c.clear w rest
  | c, _, .move w :: rest => Transparent model c w rest
  | c, w, .interpret r :: rest =>
    (∀ x : Workspace, x.Fresh → Agree (c.interpret model r.statement r.table w).1
      (attempt ⟨model, c.settings⟩ r.statement r.table x).1) ∧
      Transparent model (c.interpret model r.statement r.table w).2.1
        (c.interpret model r.statement r.table w).2.2 rest

section
variable {c : Cache} {model : Model} {s : Statement} {t : OccurrenceTable} {w : Workspace}

theorem interpret_of_disabled (disabled : c.settings.planCache.enabled = false) :
    c.interpret model s t w = ((attempt ⟨model, c.settings⟩ s t w).1, c,
      (attempt ⟨model, c.settings⟩ s t w).2) := by
  simp only [interpret, disabled]
  rfl

theorem interpret_of_known {i : Interpretation} (enabled : c.settings.planCache.enabled = true)
    (known : c.entries.find? (Fingerprint.fingerprint s t) = some i) :
    c.interpret model s t w = (.ok i, { c with hits := c.hits + 1 }, w.report .cacheHit) := by
  simp only [interpret, enabled, known]
  rfl

/-- What is built for a statement that the cache does not know is kept. -/
theorem interpret_of_missing (enabled : c.settings.planCache.enabled = true)
    (missing : c.entries.find? (Fingerprint.fingerprint s t) = none) :
    c.interpret model s t w =
      match attempt ⟨model, c.settings⟩ s t (w.report .cacheMiss) with
      | (.ok i, w') => (.ok i, keep { c with misses := c.misses + 1 } i, w')
      | (.error e, w') => (.error e, { c with misses := c.misses + 1 }, w') := by
  simp only [interpret, enabled, missing]
  rfl

theorem interpret_of_built {i : Interpretation} {w' : Workspace}
    (enabled : c.settings.planCache.enabled = true)
    (missing : c.entries.find? (Fingerprint.fingerprint s t) = none)
    (built : attempt ⟨model, c.settings⟩ s t (w.report .cacheMiss) = (.ok i, w')) :
    c.interpret model s t w = (.ok i, keep { c with misses := c.misses + 1 } i, w') := by
  rw [interpret_of_missing enabled missing, built]

end

/-- A cache of interpretations that requests of some kind would be built to again. -/
structure Holds (v : Services) (R : Request → Prop) (c : Cache) : Prop where
  settings : c.settings = v.settings
  entries : ∀ {key i}, c.entries.find? key = some i → 0 < v.settings.planCache.capacity ∧
    ∃ r, R r ∧ key = r.fingerprint ∧
      ∀ x : Workspace, x.Fresh → Agree (.ok i) (attempt v r.statement r.table x).1

section
variable {v : Services} {R : Request → Prop} {c : Cache} {w : Workspace} {r : Request}

theorem holds_new (v : Services) (R : Request → Prop) : (Cache.new v.settings).Holds v R := by
  refine ⟨rfl, ?_⟩
  intro key i found
  contradiction

theorem Holds.clear (holds : c.Holds v R) : c.clear.Holds v R := by
  refine ⟨holds.settings, ?_⟩
  intro key i found
  contradiction

theorem Holds.keep (holds : c.Holds v R) (requested : R r) {i : Interpretation}
    (named : i.fingerprint = r.fingerprint)
    (agrees : ∀ x : Workspace, x.Fresh → Agree (.ok i) (attempt v r.statement r.table x).1) :
    (c.keep i).Holds v R := by
  unfold Cache.keep
  cases known : c.entries.find? i.fingerprint with
  | some j => exact holds
  | none =>
    by_cases room : c.size < c.settings.planCache.capacity
    · simp only [if_pos room]
      refine ⟨holds.settings, ?_⟩
      intro key j found
      obtain ⟨same, rfl⟩ | before := KeyedList.of_find?_insert found
      · refine ⟨?_, r, requested, same.trans named, agrees⟩
        exact Nat.lt_of_le_of_lt (Nat.zero_le _) (holds.settings ▸ room)
      · exact holds.entries before
    · simp only [if_neg room]
      exact holds

/-- Requests that are hashed from the same bytes, where the cache has room at all, build alike. -/
def Agreeable (v : Services) (R : Request → Prop) : Prop :=
  v.settings.planCache.enabled = true → 0 < v.settings.planCache.capacity →
    ∀ r r', R r → R r' → r.stream = r'.stream → BuildAlike v r r'

/-- One interpretation agrees with one built afresh, and leaves the cache as good and the workspace as
fresh as they were. -/
theorem Holds.interpret (holds : c.Holds v R) (collisionFree : CollisionFree R)
    (agreeable : Agreeable v R) (shares : r.statement.Shares) (requested : R r) (fresh : w.Fresh) :
    (∀ x : Workspace, x.Fresh → Agree (c.interpret v.model r.statement r.table w).1
      (attempt v r.statement r.table x).1) ∧
    (c.interpret v.model r.statement r.table w).2.1.Holds v R ∧
    (c.interpret v.model r.statement r.table w).2.2.Fresh := by
  have services : (⟨v.model, c.settings⟩ : Services) = v := by rw [holds.settings]
  have self := buildAlike_self v shares
  cases enabled : c.settings.planCache.enabled with
  | false =>
    rw [interpret_of_disabled enabled, services]
    exact ⟨fun x => self w x fresh, holds, attempt_fresh v shares fresh⟩
  | true =>
    cases known : c.entries.find? (Fingerprint.fingerprint r.statement r.table) with
    | some i =>
      rw [interpret_of_known enabled known]
      refine ⟨fun x freshOther => ?_, ⟨holds.settings, holds.entries⟩, fresh⟩
      obtain ⟨room, first, requestedFirst, same, agrees⟩ := holds.entries known
      have streams := collisionFree first r requestedFirst requested (hex_injective same.symm)
      have alike := agreeable (holds.settings ▸ enabled) room first r requestedFirst requested streams
      exact (agrees x freshOther).trans (alike x x freshOther freshOther)
    | none =>
      have freshReport : (w.report .cacheMiss).Fresh := fresh
      have built := fun x => self (w.report .cacheMiss) x freshReport
      have left := attempt_fresh v shares freshReport
      have missed : ({ c with misses := c.misses + 1 } : Cache).Holds v R :=
        ⟨holds.settings, holds.entries⟩
      rw [interpret_of_missing enabled known, services]
      cases ran : attempt v r.statement r.table (w.report .cacheMiss) with
      | mk outcome w' =>
        rw [ran] at built left
        cases outcome with
        | ok i => exact ⟨built, missed.keep requested (attempt_fingerprint ran) built, left⟩
        | error e => exact ⟨built, missed, left⟩

/-- The steps of a history that ask for requests of some kind only, in fresh workspaces. -/
structure Within (R : Request → Prop) (steps : List Step) : Prop where
  requested : ∀ r, .interpret r ∈ steps → R r
  fresh : ∀ w, .move w ∈ steps → w.Fresh

theorem Holds.transparent (holds : c.Holds v R) (collisionFree : CollisionFree R)
    (agreeable : Agreeable v R) (shares : ∀ r, R r → r.statement.Shares) {steps : List Step}
    (within : Within R steps) (fresh : w.Fresh) : Transparent v.model c w steps := by
  induction steps generalizing c w with
  | nil => trivial
  | cons step rest ih =>
    have later : Within R rest :=
      ⟨fun r mem => within.requested r (List.mem_cons_of_mem _ mem),
        fun w mem => within.fresh w (List.mem_cons_of_mem _ mem)⟩
    cases step with
    | clear => exact ih holds.clear later fresh
    | move x => exact ih holds later (within.fresh x List.mem_cons_self)
    | interpret r =>
      have requested := within.requested r List.mem_cons_self
      obtain ⟨agrees, kept, left⟩ :=
        holds.interpret collisionFree agreeable (shares r requested) requested fresh
      have services : (⟨v.model, c.settings⟩ : Services) = v := by rw [holds.settings]
      refine ⟨?_, ih kept later left⟩
      rw [services]
      exact agrees

end

theorem keep_settings (c : Cache) (i : Interpretation) : (c.keep i).settings = c.settings := by
  unfold keep
  split
  · rfl
  · split
    · rfl
    · rfl

theorem find?_keep_self {c : Cache} {i : Interpretation}
    (missing : c.entries.find? i.fingerprint = none)
    (room : c.size < c.settings.planCache.capacity) :
    (c.keep i).entries.find? i.fingerprint = some i := by
  simp only [keep, missing, if_pos room]
  exact KeyedList.find?_insert_self c.entries i.fingerprint i

/-- If one request is interpreted right behind another that was built and is hashed from the same bytes,
it is given what was built for the other. -/
theorem buildAlike_of_transparent {v : Services} {r r' : Request} {i : Interpretation} {w : Workspace}
    (enabled : v.settings.planCache.enabled = true) (room : 0 < v.settings.planCache.capacity)
    (same : r.stream = r'.stream)
    (built : attempt v r.statement r.table (Workspace.empty.report .cacheMiss) = (.ok i, w))
    (transparent : Transparent v.model (Cache.new v.settings) .empty [.interpret r, .interpret r']) :
    BuildAlike v r r' := by
  have named : i.fingerprint = r'.fingerprint :=
    (attempt_fingerprint built).trans
      (congrArg (fun bytes => Digest.hex (Digest.Sha256.digest bytes)) same)
  have first : (Cache.new v.settings).interpret v.model r.statement r.table .empty =
      (.ok i, keep { Cache.new v.settings with misses := 1 } i, w) :=
    interpret_of_built enabled rfl built
  obtain ⟨agrees, later, -⟩ := transparent
  rw [first] at agrees later
  have settings := keep_settings { Cache.new v.settings with misses := 1 } i
  have known := find?_keep_self (c := { Cache.new v.settings with misses := 1 }) (i := i) rfl room
  rw [named] at known
  rw [interpret_of_known (settings ▸ enabled) known, settings] at later
  intro x x' fresh fresh'
  exact (agrees x fresh).symm.trans (later x' fresh')

/-- Requests that both cannot be built in some workspaces cannot be built in any. -/
theorem buildAlike_of_failures {v : Services} {r r' : Request} {w w' : Workspace} {e e' : Failure}
    (shares : r.statement.Shares) (shares' : r'.statement.Shares) (fresh : w.Fresh) (fresh' : w'.Fresh)
    (fails : (attempt v r.statement r.table w).1 = .error e)
    (fails' : (attempt v r'.statement r'.table w').1 = .error e') : BuildAlike v r r' := by
  intro x x' freshLeft freshRight
  have left := buildAlike_self v shares x w freshLeft fresh
  have right := buildAlike_self v shares' w' x' fresh' freshRight
  rw [fails] at left
  rw [fails'] at right
  exact left.trans ((Agree.error e e').trans right)

theorem agreeable_of_transparent {v : Services} {R : Request → Prop}
    (shares : ∀ r, R r → r.statement.Shares)
    (transparent : ∀ steps, Within R steps → ∀ w : Workspace, w.Fresh →
      Transparent v.model (Cache.new v.settings) w steps) : Agreeable v R := by
  intro enabled room r r' requested requested' same
  have fresh : (Workspace.empty.report .cacheMiss).Fresh := Workspace.empty_fresh
  have both {a b : Request} (first : R a) (second : R b) :
      Transparent v.model (Cache.new v.settings) .empty [.interpret a, .interpret b] := by
    refine transparent _ ⟨fun x mem => ?_, fun x mem => ?_⟩ _ Workspace.empty_fresh
    · rcases List.mem_pair.mp mem with this | this
      · exact Step.interpret.inj this ▸ first
      · exact Step.interpret.inj this ▸ second
    · rcases List.mem_pair.mp mem with this | this
      · cases this
      · cases this
  -- Only what is built is kept, so the request that is built goes first.
  rcases left : attempt v r.statement r.table (Workspace.empty.report .cacheMiss) with ⟨e | i, w⟩
  · rcases right : attempt v r'.statement r'.table (Workspace.empty.report .cacheMiss) with ⟨e' | i, w'⟩
    · exact buildAlike_of_failures (shares r requested) (shares r' requested') fresh fresh
        (congrArg Prod.fst left) (congrArg Prod.fst right)
    · exact (buildAlike_of_transparent enabled room same.symm right (both requested' requested)).symm
  · exact buildAlike_of_transparent enabled room same left (both requested requested')

/-- Where digests tell streams apart, a cache does not show in any history exactly if requests that are
hashed from the same bytes build alike. They do if all are written in one vocabulary. -/
theorem transparent_iff_agreeable (v : Services) {R : Request → Prop}
    (shares : ∀ r, R r → r.statement.Shares) (collisionFree : CollisionFree R) :
    ((∀ steps, Within R steps → ∀ w : Workspace, w.Fresh →
        Transparent v.model (Cache.new v.settings) w steps) ↔ Agreeable v R) ∧
      ∀ V : Vocabulary, (∀ r, R r → r.WrittenIn V) → Agreeable v R := by
  refine ⟨⟨agreeable_of_transparent shares, ?_⟩, ?_⟩
  · intro agreeable steps within w fresh
    exact (holds_new v R).transparent collisionFree agreeable shares within fresh
  · intro V written _ _ r r' requested requested' same
    exact buildAlike_of_writtenIn v (written r requested) (written r' requested') same

namespace TwoFlags

def flag (stored : Mapping) : ExprType := .mapped (.embedded "Flag" [("value", stored)])

/-- A selection of one constant whose only part is stored in some way. -/
def request (stored : Mapping) : Request :=
  .ofStatement (.select ⟨[], [], [⟨.literal 0 (.composite [.bool true]) (flag stored), none⟩], none⟩)

def coded : Mapping := .converted .yesNo ⟨"character", .character, .char⟩

def plain : Mapping := .basic ⟨"boolean", .boolean, .boolean⟩

def services : Services := ⟨⟨.empty, .empty⟩, .default⟩

def Either (r : Request) : Prop := r = request coded ∨ r = request plain

theorem request_shares (stored : Mapping) : (request stored).statement.Shares := by
  intro e mem other memOther _
  exact (List.mem_singleton.mp mem).trans (List.mem_singleton.mp memOther).symm

def words : Vocabulary where
  types type := type = flag coded
  values v := v = .composite [.bool true]
  functions _ := False
  types_apart left right _ := left.trans right.symm
  values_apart left right _ _ := left.trans right.symm
  functions_apart left := left.elim

theorem request_writtenIn : (request coded).WrittenIn words where
  wellFormed := by
    have own : ∀ o ∈ (request coded).statement.parameters, o ∈ [] ∧ o.expands = none := by
      intro o mem
      contradiction
    exact wellFormed_of_steps (.new .empty .empty) (request_shares coded) own [] (by decide)
      (request coded).store
  legible := by
    intro e mem
    obtain rfl := List.mem_singleton.mp mem
    exact ⟨rfl, rfl⟩
  fits := by
    have label : FitsText (flag coded).text := by decide
    have value : FitsText (Value.composite [.bool true]).toText := by decide
    refine ⟨⟨by decide, by simp⟩, ⟨by decide, by simp⟩, ⟨by decide, ?_⟩, trivial⟩
    intro item mem
    obtain rfl := List.mem_singleton.mp mem
    exact ⟨⟨label, value⟩, trivial⟩

/-- Two types of one name that store their part in two ways are hashed from the same bytes, and the cache
takes one for the other. It does not show as long as only one of the two is asked for. -/
theorem one_flag_is_taken_for_another :
    (request coded).stream = (request plain).stream ∧
      (¬∀ steps, Within Either steps → ∀ w : Workspace, w.Fresh →
        Transparent services.model (Cache.new services.settings) w steps) ∧
      ∀ steps, Within (· = request coded) steps → ∀ w : Workspace, w.Fresh →
        Transparent services.model (Cache.new services.settings) w steps := by
  have same : (request coded).stream = (request plain).stream := rfl
  refine ⟨same, fun transparent => ?_, ?_⟩
  · have shares : ∀ r, Either r → r.statement.Shares := by
      rintro r (rfl | rfl)
      · exact request_shares coded
      · exact request_shares plain
    have collisionFree : CollisionFree Either := by
      rintro r r' (rfl | rfl) (rfl | rfl) -
      · rfl
      · exact same
      · exact same.symm
      · rfl
    have agreeable := (transparent_iff_agreeable services shares collisionFree).1.mp transparent
    have alike := agreeable rfl (by decide) _ _ (.inl rfl) (.inr rfl) same .empty .empty
      Workspace.empty_fresh Workspace.empty_fresh
    have left : (attempt services (request coded).statement (request coded).table .empty).1 = .ok _ := rfl
    have right : (attempt services (request plain).statement (request plain).table .empty).1 = .ok _ := rfl
    rw [left, right] at alike
    have rendered := congrArg Sql.Rendered.sql alike.rendered_eq
    revert rendered
    decide +kernel
  · have shares : ∀ r, r = request coded → r.statement.Shares := by
      rintro r rfl
      exact request_shares coded
    have collisionFree : CollisionFree (· = request coded) := by
      rintro r r' rfl rfl -
      rfl
    have settled := transparent_iff_agreeable services shares collisionFree
    have written : ∀ r, r = request coded → r.WrittenIn words := by
      rintro r rfl
      exact request_writtenIn
    exact settled.1.mpr (settled.2 words written)

end TwoFlags

end Cache

end SemanticQuery
