import Mathlib.Data.List.DropRight
import SemanticQuery.Proofs.Cache.Transparency
import SemanticQuery.Proofs.KeyedList

/-! What a cache holds and counts after any run of calls. A call that admits its interpretation is told by
what it finds and returns, and the cache answers with the admissions since the last clear. -/
namespace SemanticQuery.Cache
open Query Binding Interpretation

/-- A request with the model and the workspace it is interpreted in, or a clear. -/
inductive Call where
  | interpret (model : Model) (r : Request) (w : Workspace)
  | clear

def Call.isInterpret : Call → Bool
  | .interpret .. => true
  | .clear => false

def call (c : Cache) : Call → Cache
  | .interpret model r w => (c.interpret model r.statement r.table w).2.1
  | .clear => c.clear

def run (c : Cache) (calls : List Call) : Cache := calls.foldl call c

theorem run_append (c : Cache) (calls later : List Call) :
    c.run (calls ++ later) = (c.run calls).run later := List.foldl_append

theorem run_concat (c : Cache) (calls : List Call) (next : Call) :
    c.run (calls ++ [next]) = (c.run calls).call next := List.foldl_concat ..

section
variable {c : Cache} {model : Model} {r : Request} {w : Workspace} {i : Interpretation}

/-- What is returned is kept where the cache has nothing of its fingerprint and is not full. -/
structure Admits (c : Cache) (model : Model) (r : Request) (w : Workspace) (i : Interpretation) :
    Prop where
  missing : c.entries.find? r.fingerprint = none
  room : c.size < c.settings.planCache.capacity
  returned : (c.interpret model r.statement r.table w).1 = .ok i

theorem keep_of_room (missing : c.entries.find? i.fingerprint = none)
    (room : c.size < c.settings.planCache.capacity) :
    c.keep i = { c with entries := c.entries.insert i.fingerprint i } := by
  simp only [keep, missing, if_pos room]

theorem keep_of_full (full : ¬c.size < c.settings.planCache.capacity) : c.keep i = c := by
  unfold keep
  split
  · rfl
  · exact if_neg full

/-- Everything an interpretation can do to a cache: it is a hit, and only counted; or a miss, and only
counted, because it fails or the cache is full; or a miss that is admitted. -/
theorem interpret_cases (enabled : c.settings.planCache.enabled = true) (model : Model) (r : Request)
    (w : Workspace) :
    (∃ i, c.entries.find? r.fingerprint = some i ∧
      (c.interpret model r.statement r.table w).1 = .ok i ∧
      (c.interpret model r.statement r.table w).2.1 = { c with hits := c.hits + 1 }) ∨
    (c.entries.find? r.fingerprint = none ∧ (∀ i, ¬c.Admits model r w i) ∧
      (c.interpret model r.statement r.table w).2.1 = { c with misses := c.misses + 1 }) ∨
    ∃ i, c.Admits model r w i ∧ i.fingerprint = r.fingerprint ∧
      (c.interpret model r.statement r.table w).2.1 =
        { c with misses := c.misses + 1, entries := c.entries.insert r.fingerprint i } := by
  cases known : c.entries.find? r.fingerprint with
  | some i =>
    rw [interpret_of_known enabled known]
    exact .inl ⟨i, rfl, rfl, rfl⟩
  | none =>
    cases ran : attempt ⟨model, c.settings⟩ r.statement r.table (w.report .cacheMiss) with
    | mk outcome w' =>
      cases outcome with
      | error e =>
        have missed : c.interpret model r.statement r.table w =
            (.error e, { c with misses := c.misses + 1 }, w') := by
          rw [interpret_of_missing enabled known, ran]
        refine .inr (.inl ⟨rfl, ?_, by rw [missed]⟩)
        intro i admits
        have returned := admits.returned
        rw [missed] at returned
        contradiction
      | ok i =>
        have named : i.fingerprint = r.fingerprint := attempt_fingerprint ran
        have built := interpret_of_built enabled known ran
        by_cases room : c.size < c.settings.planCache.capacity
        · rw [keep_of_room (c := { c with misses := c.misses + 1 }) (named ▸ known) room, named] at built
          exact .inr (.inr ⟨i, ⟨known, room, by rw [built]⟩, named, by rw [built]⟩)
        · rw [keep_of_full (c := { c with misses := c.misses + 1 }) room] at built
          exact .inr (.inl ⟨rfl, fun _ admits => room admits.room, by rw [built]⟩)

/-- An interpretation that was admitted by a call no clear has followed. -/
def Admitted (settings : Settings) (calls : List Call) (i : Interpretation) : Prop :=
  ∃ earlier model r w later, calls = earlier ++ .interpret model r w :: later ∧ .clear ∉ later ∧
    i.fingerprint = r.fingerprint ∧ ((Cache.new settings).run earlier).Admits model r w i

variable {settings : Settings} {calls : List Call}

/-- A call among some and a last one is the last, or is among the others with the last behind it. -/
theorem split_concat {calls earlier later : List Call} {this next : Call}
    (split : calls ++ [next] = earlier ++ this :: later) :
    (later = [] ∧ earlier = calls ∧ this = next) ∨
      ∃ before, later = before ++ [next] ∧ calls = earlier ++ this :: before := by
  rcases List.eq_nil_or_concat later with rfl | ⟨before, last, rfl⟩
  · obtain ⟨rfl, same⟩ := List.append_inj' split rfl
    exact .inl ⟨rfl, rfl, (List.singleton_inj.mp same).symm⟩
  · have split : calls ++ [next] = (earlier ++ this :: before) ++ [last] := by simpa using split
    obtain ⟨rfl, same⟩ := List.append_inj' split rfl
    rw [List.singleton_inj.mp same]
    exact .inr ⟨before, List.concat_eq_append, rfl⟩

theorem not_admitted_of_clear : ¬Admitted settings (calls ++ [.clear]) i := by
  rintro ⟨earlier, model, r, w, later, split, uncleared, -⟩
  obtain ⟨-, -, last⟩ | ⟨before, rfl, -⟩ := split_concat split
  · contradiction
  · apply uncleared
    exact List.mem_append_right _ List.mem_cons_self

theorem admitted_interpret_iff :
    Admitted settings (calls ++ [.interpret model r w]) i ↔ Admitted settings calls i ∨
      i.fingerprint = r.fingerprint ∧ ((Cache.new settings).run calls).Admits model r w i := by
  constructor
  · rintro ⟨earlier, m, r₀, w₀, later, split, uncleared, found⟩
    obtain ⟨-, rfl, last⟩ | ⟨before, rfl, rfl⟩ := split_concat split
    · cases last
      exact .inr found
    · rw [List.mem_append, not_or] at uncleared
      exact .inl ⟨earlier, m, r₀, w₀, before, rfl, uncleared.1, found⟩
  · rintro (⟨earlier, m, r₀, w₀, later, rfl, uncleared, found⟩ | found)
    · refine ⟨earlier, m, r₀, w₀, later ++ [.interpret model r w], ?_, ?_, found⟩
      · rw [List.append_assoc, List.cons_append]
      · rw [List.mem_append, not_or, List.mem_singleton]
        exact ⟨uncleared, Call.noConfusion⟩
    · exact ⟨calls, model, r, w, [], rfl, List.not_mem_nil, found⟩

end

/-- A cache that stands for the calls made: its entries are what was admitted, each under its fingerprint,
and each interpretation since the last clear counts as a hit or a miss. -/
structure Accounted (settings : Settings) (calls : List Call) (c : Cache) : Prop where
  settings_eq : c.settings = settings
  room : c.size ≤ settings.planCache.capacity
  counted : c.hits + c.misses = (calls.rtakeWhile Call.isInterpret).length
  entries : ∀ {key i}, c.entries.find? key = some i ↔ i.fingerprint = key ∧ Admitted settings calls i

section
variable {settings : Settings} {calls : List Call} {c : Cache} {model : Model} {r : Request}
  {w : Workspace}

theorem accounted_new (settings : Settings) : (Cache.new settings).Accounted settings [] where
  settings_eq := rfl
  room := Nat.zero_le _
  counted := rfl
  entries {key i} := by
    constructor
    · intro found
      contradiction
    · rintro ⟨-, earlier, model, r, w, later, split, -⟩
      simp at split

theorem Accounted.clear (accounted : c.Accounted settings calls) :
    c.clear.Accounted settings (calls ++ [.clear]) where
  settings_eq := accounted.settings_eq
  room := Nat.zero_le _
  counted := by
    rw [List.rtakeWhile_concat_neg _ _ _ Bool.noConfusion]
    rfl
  entries {key i} := by
    constructor
    · intro found
      contradiction
    · rintro ⟨-, admitted⟩
      exact absurd admitted not_admitted_of_clear

theorem counted_concat (model : Model) (r : Request) (w : Workspace)
    (counted : c.hits + c.misses = (calls.rtakeWhile Call.isInterpret).length) :
    c.hits + c.misses + 1 =
      ((calls ++ [Call.interpret model r w]).rtakeWhile Call.isInterpret).length := by
  rw [List.rtakeWhile_concat_pos _ _ _ rfl, List.length_append, counted, List.length_singleton]

/-- What is admitted joins the entries and takes the place of none. -/
theorem Accounted.insert_iff {key : String} {i j : Interpretation}
    (accounted : c.Accounted settings calls) (admits : c.Admits model r w j)
    (named : j.fingerprint = r.fingerprint) :
    (c.entries.insert r.fingerprint j).find? key = some i ↔ i.fingerprint = key ∧
      (Admitted settings calls i ∨ i.fingerprint = r.fingerprint ∧ c.Admits model r w i) := by
  by_cases same : key = r.fingerprint
  · subst same
    rw [KeyedList.find?_insert_self]
    constructor
    · intro found
      obtain rfl := Option.some.inj found
      exact ⟨named, .inr ⟨named, admits⟩⟩
    · rintro ⟨own, before | ⟨-, other⟩⟩
      · have found := accounted.entries.mpr ⟨own, before⟩
        rw [admits.missing] at found
        contradiction
      · exact congrArg some (Except.ok.inj (admits.returned.symm.trans other.returned))
  · rw [KeyedList.find?_insert_of_ne same, accounted.entries]
    constructor
    · exact fun ⟨own, before⟩ => ⟨own, .inl before⟩
    · rintro ⟨own, before | ⟨other, -⟩⟩
      · exact ⟨own, before⟩
      · exact absurd (own.symm.trans other) same

/-- One interpretation keeps the account, whatever it does. -/
theorem Accounted.interpret (enabled : settings.planCache.enabled = true)
    (accounted : ((Cache.new settings).run calls).Accounted settings calls) :
    (((Cache.new settings).run calls).call (.interpret model r w)).Accounted settings
      (calls ++ [.interpret model r w]) := by
  generalize held : (Cache.new settings).run calls = c at accounted ⊢
  have counted := counted_concat model r w accounted.counted
  have admitted (i : Interpretation) : Admitted settings (calls ++ [.interpret model r w]) i ↔
      Admitted settings calls i ∨ i.fingerprint = r.fingerprint ∧ c.Admits model r w i :=
    held ▸ admitted_interpret_iff
  rw [call]
  obtain ⟨known, found, -, after⟩ | ⟨missing, refused, after⟩ | ⟨j, admits, named, after⟩ :=
    interpret_cases (accounted.settings_eq ▸ enabled) model r w
  · rw [after]
    refine ⟨accounted.settings_eq, accounted.room, by simp only; omega, ?_⟩
    intro key i
    rw [admitted, or_iff_left]
    · exact accounted.entries
    · rintro ⟨-, admits⟩
      rw [admits.missing] at found
      contradiction
  · rw [after]
    refine ⟨accounted.settings_eq, accounted.room, counted, ?_⟩
    intro key i
    rw [admitted, or_iff_left fun found => refused i found.2]
    exact accounted.entries
  · rw [after]
    refine ⟨accounted.settings_eq, ?_, counted, ?_⟩
    · have room := admits.room
      have grown : (c.entries.insert r.fingerprint j).size = c.size + 1 :=
        KeyedList.size_insert_of_missing admits.missing
      rw [accounted.settings_eq] at room
      rw [size, grown]
      omega
    · intro key i
      rw [admitted]
      exact accounted.insert_iff admits named

theorem accounted_run (enabled : settings.planCache.enabled = true) (calls : List Call) :
    ((Cache.new settings).run calls).Accounted settings calls := by
  induction calls using List.reverseRecOn with
  | nil => exact accounted_new settings
  | append_singleton calls next ih =>
    rw [run_concat]
    cases next with
    | clear => exact ih.clear
    | interpret model r w => exact ih.interpret enabled

/-- Nothing that was admitted goes or is replaced before a clear. -/
theorem Admitted.append {i : Interpretation} (admitted : Admitted settings calls i) {later : List Call}
    (uncleared : .clear ∉ later) : Admitted settings (calls ++ later) i := by
  obtain ⟨earlier, model, r, w, behind, rfl, unclearedBehind, found⟩ := admitted
  refine ⟨earlier, model, r, w, behind ++ later, ?_, ?_, found⟩
  · rw [List.append_assoc, List.cons_append]
  · rw [List.mem_append, not_or]
    exact ⟨unclearedBehind, uncleared⟩

/-- An interpretation that is known is returned as it is and counts as a hit; any other counts as a miss,
and one that fails does nothing else. -/
theorem interpret_accounts (enabled : c.settings.planCache.enabled = true) (model : Model) (r : Request)
    (w : Workspace) :
    (∀ i, c.entries.find? r.fingerprint = some i →
      (c.interpret model r.statement r.table w).1 = .ok i ∧
        (c.interpret model r.statement r.table w).2.1 = { c with hits := c.hits + 1 }) ∧
    (c.entries.find? r.fingerprint = none →
      (c.interpret model r.statement r.table w).2.1.hits = c.hits ∧
        (c.interpret model r.statement r.table w).2.1.misses = c.misses + 1) ∧
    ∀ e, (c.interpret model r.statement r.table w).1 = .error e →
      (c.interpret model r.statement r.table w).2.1 = { c with misses := c.misses + 1 } := by
  obtain ⟨i, found, returned, after⟩ | ⟨missing, -, after⟩ | ⟨i, admits, -, after⟩ :=
    interpret_cases enabled model r w
  · refine ⟨fun j known => ?_, fun missing => ?_, fun e failed => ?_⟩
    · obtain rfl := Option.some.inj (found.symm.trans known)
      exact ⟨returned, after⟩
    · rw [missing] at found
      contradiction
    · rw [returned] at failed
      contradiction
  · refine ⟨fun j known => ?_, fun _ => ?_, fun e _ => after⟩
    · rw [missing] at known
      contradiction
    · rw [after]
      exact ⟨rfl, rfl⟩
  · refine ⟨fun j known => ?_, fun _ => ?_, fun e failed => ?_⟩
    · rw [admits.missing] at known
      contradiction
    · rw [after]
      exact ⟨rfl, rfl⟩
    · rw [admits.returned] at failed
      contradiction

/-- After any calls a cache holds exactly what was admitted since the last clear, each interpretation under
its fingerprint and no more than there is room for, and has counted every interpretation since then. It
keeps what it holds until a clear. The next interpretation is a hit exactly where its fingerprint was
admitted, and then returns what was admitted; and where it fails it is only counted as a miss. -/
theorem runs_account (enabled : settings.planCache.enabled = true) (calls : List Call)
    (ran : (Cache.new settings).run calls = c) :
    c.Accounted settings calls ∧
    (∀ later, .clear ∉ later → ∀ key i, c.entries.find? key = some i →
      (c.run later).entries.find? key = some i) ∧
    ∀ model (r : Request) w,
      ((c.interpret model r.statement r.table w).2.1.hits = c.hits + 1 ↔
        ∃ i, i.fingerprint = r.fingerprint ∧ Admitted settings calls i) ∧
      (∀ i, i.fingerprint = r.fingerprint → Admitted settings calls i →
        (c.interpret model r.statement r.table w).1 = .ok i ∧
          (c.interpret model r.statement r.table w).2.1 = { c with hits := c.hits + 1 }) ∧
      ∀ e, (c.interpret model r.statement r.table w).1 = .error e →
        (c.interpret model r.statement r.table w).2.1 = { c with misses := c.misses + 1 } := by
  have accounted : c.Accounted settings calls := ran ▸ accounted_run enabled calls
  refine ⟨accounted, ?_, ?_⟩
  · intro later uncleared key i found
    obtain ⟨named, admitted⟩ := accounted.entries.mp found
    rw [← ran, ← run_append]
    apply (accounted_run enabled (calls ++ later)).entries.mpr
    exact ⟨named, admitted.append uncleared⟩
  · intro model r w
    obtain ⟨hit, miss, failed⟩ := interpret_accounts (accounted.settings_eq ▸ enabled) model r w
    refine ⟨?_, fun i named admitted => hit i (accounted.entries.mpr ⟨named, admitted⟩), failed⟩
    constructor
    · intro counted
      cases known : c.entries.find? r.fingerprint with
      | none =>
        have := (miss known).1
        omega
      | some i => exact ⟨i, accounted.entries.mp known⟩
    · rintro ⟨i, named, admitted⟩
      rw [(hit i (accounted.entries.mpr ⟨named, admitted⟩)).2]

end

/-! A cache for one interpretation that is cleared between two requests for it. -/
namespace Cleared

def settings : Settings := ⟨true, false, ⟨true, 1⟩⟩

def model : Model := ⟨.empty, .empty⟩

/-- A selection of a parameter that has no type, which is refused. -/
def untyped : Request :=
  .ofStatement (.select ⟨[], [], [⟨.parameter 0 ⟨0, ⟨.named "p", none, false⟩, none, none⟩, none⟩], none⟩)

def calls : List Call :=
  [.interpret model .empty .empty, .clear, .interpret model untyped .empty,
    .interpret model .empty .empty]

/-- The failure counts, and what is admitted after the clear is returned from then on. -/
theorem admitted_again : ∃ c i, (Cache.new settings).run calls = c ∧
    Admitted settings calls i ∧ c.size ≤ 1 ∧ c.hits + c.misses = 2 ∧
    (c.interpret model Request.empty.statement Request.empty.table .empty).1 = .ok i ∧
    (c.interpret model Request.empty.statement Request.empty.table .empty).2.1.hits = c.hits + 1 := by
  obtain ⟨accounted, -, next⟩ := @runs_account settings _ rfl calls rfl
  have admitted : Admitted settings calls _ :=
    ⟨calls.take 3, model, .empty, .empty, [], rfl, List.not_mem_nil, rfl, rfl, by decide, rfl⟩
  obtain ⟨hit, known, -⟩ := next model .empty .empty
  exact ⟨_, _, rfl, admitted, accounted.room, accounted.counted, (known _ rfl admitted).1,
    hit.mpr ⟨_, rfl, admitted⟩⟩

end Cleared

end SemanticQuery.Cache
