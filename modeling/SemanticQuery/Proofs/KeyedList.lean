import Mathlib.Data.List.Flatten
import Mathlib.Data.List.Induction
import Mathlib.Data.List.Nodup
import Mathlib.Data.List.Pairwise
import SemanticQuery.KeyedList

/-! Entries and lookups of keyed lists: an entry is listed exactly where its key answers with it. -/
namespace SemanticQuery.KeyedList
variable {κ ν μ : Type} [Ord κ]

theorem mem_of_lookup [Std.LawfulEqOrd κ] {k : κ} {v : ν} {es : List (κ × ν)}
    (found : lookup k es = some v) : (k, v) ∈ es := by
  induction es with
  | nil => contradiction
  | cons e rest ih =>
    rw [lookup] at found
    split at found
    next same =>
      obtain rfl := Std.LawfulEqCmp.eq_of_compare same
      obtain rfl := Option.some.inj found
      exact List.mem_cons_self
    · exact List.mem_cons_of_mem _ (ih found)

theorem keys_nodup [Std.LawfulEqOrd κ] (m : KeyedList κ ν) : m.keys.Nodup := by
  refine List.pairwise_map.mpr (m.ascending.imp ?_)
  intro a b below same
  have equal : compare a.1 b.1 = .eq := same ▸ Std.ReflCmp.compare_self
  rw [equal] at below
  contradiction

theorem length_insertEntry {k : κ} {v : ν} {es : List (κ × ν)} (missing : lookup k es = none) :
    (insertEntry k v es).length = es.length + 1 := by
  induction es with
  | nil => rfl
  | cons e rest ih =>
    rw [lookup] at missing
    split at missing
    · contradiction
    next other =>
      rw [insertEntry]
      split
      · rfl
      · contradiction
      · rw [List.length_cons, ih missing, List.length_cons]

variable [Std.TransOrd κ] [Std.LawfulEqOrd κ]

theorem lookup_of_mem {k : κ} {v : ν} {es : List (κ × ν)}
    (ascending : es.Pairwise fun a b => compare a.1 b.1 = .lt) (mem : (k, v) ∈ es) :
    lookup k es = some v := by
  induction es with
  | nil => contradiction
  | cons e rest ih =>
    obtain ⟨below, tail⟩ := List.pairwise_cons.mp ascending
    rw [lookup]
    cases List.mem_cons.mp mem with
    | inl first =>
      subst first
      rw [if_pos Std.ReflCmp.compare_self]
    | inr later =>
      have greater : compare k e.1 ≠ .eq := by
        rw [Std.OrientedCmp.gt_of_lt (below _ later)]
        simp
      rw [if_neg greater]
      exact ih tail later

theorem mem_entries_iff {m : KeyedList κ ν} {k : κ} {v : ν} :
    (k, v) ∈ m.entries ↔ m.find? k = some v :=
  ⟨lookup_of_mem m.ascending, mem_of_lookup⟩

theorem mem_values_iff {m : KeyedList κ ν} {v : ν} : v ∈ m.values ↔ ∃ k, m.find? k = some v := by
  constructor
  · intro mem
    obtain ⟨⟨k, _⟩, listed, rfl⟩ := List.mem_map.mp mem
    exact ⟨k, mem_entries_iff.mp listed⟩
  · rintro ⟨k, found⟩
    exact List.mem_map.mpr ⟨(k, v), mem_entries_iff.mpr found, rfl⟩

theorem mem_keys_iff {m : KeyedList κ ν} {k : κ} : k ∈ m.keys ↔ ∃ v, m.find? k = some v := by
  constructor
  · intro mem
    obtain ⟨⟨_, v⟩, listed, rfl⟩ := List.mem_map.mp mem
    exact ⟨v, mem_entries_iff.mp listed⟩
  · rintro ⟨v, found⟩
    exact List.mem_map.mpr ⟨(k, v), mem_entries_iff.mpr found, rfl⟩

/-- Values that each tell their key are listed once. -/
theorem values_nodup {m : KeyedList κ ν} (keyOf : ν → κ)
    (keyed : ∀ {k v}, m.find? k = some v → keyOf v = k) : m.values.Nodup := by
  have keys : m.values.map keyOf = m.keys := by
    rw [values, keys, List.map_map]
    refine List.map_congr_left fun entry listed => ?_
    exact keyed (mem_entries_iff.mp listed)
  exact List.Nodup.of_map keyOf (keys ▸ m.keys_nodup)

/-- Lists that answer every lookup alike are equal. -/
theorem eq_of_find? {m m' : KeyedList κ ν} (same : ∀ k, m.find? k = m'.find? k) : m = m' := by
  have listed : m.entries.Perm m'.entries := by
    refine (List.perm_ext_iff_of_nodup m.keys_nodup.of_map m'.keys_nodup.of_map).mpr ?_
    rintro ⟨k, v⟩
    rw [mem_entries_iff, mem_entries_iff, same]
  have entries : m.entries = m'.entries := by
    refine listed.eq_of_pairwise ?_ m.ascending m'.ascending
    intro a b _ _ below above
    rw [Std.OrientedCmp.gt_of_lt below] at above
    contradiction
  cases m
  cases m'
  congr

theorem size_insert_of_missing {m : KeyedList κ ν} {k : κ} {v : ν} (missing : m.find? k = none) :
    (m.insert k v).size = m.size + 1 := length_insertEntry missing

/-- What is found behind an insertion was inserted, or was there before. -/
theorem of_find?_insert {m : KeyedList κ ν} {k j : κ} {v u : ν} (found : (m.insert k v).find? j = some u) :
    j = k ∧ u = v ∨ m.find? j = some u := by
  by_cases same : j = k
  · subst same
    exact .inl ⟨rfl, Option.some.inj (found.symm.trans (find?_insert_self ..))⟩
  · exact .inr ((find?_insert_of_ne same).symm.trans found)

theorem find?_insert_of_missing {m : KeyedList κ ν} {k j : κ} {v u : ν} (missing : m.find? k = none)
    (found : m.find? j = some u) : (m.insert k v).find? j = some u := by
  rw [find?_insert_of_ne, found]
  rintro rfl
  rw [missing] at found
  contradiction

@[simp] theorem find?_alter_self (m : KeyedList κ ν) (k : κ) (f : Option ν → ν) :
    (m.alter k f).find? k = some (f (m.find? k)) :=
  find?_insert_self ..

theorem find?_alter_of_ne {m : KeyedList κ ν} {k j : κ} {f : Option ν → ν} (other : j ≠ k) :
    (m.alter k f).find? j = m.find? j :=
  find?_insert_of_ne other

theorem mem_keys_ofList {k : κ} {es : List (κ × ν)} : k ∈ (ofList es).keys ↔ k ∈ es.map Prod.fst := by
  induction es using List.reverseRecOn with
  | nil => exact Iff.rfl
  | append_singleton es e ih =>
    have grown : ofList (es ++ [e]) = (ofList es).insert e.1 e.2 := List.foldl_concat ..
    rw [grown, List.map_append, List.mem_append, ← ih, mem_keys_iff, mem_keys_iff]
    by_cases same : k = e.1
    · subst same
      simp
    · simp [find?_insert_of_ne same, same]

theorem flatMap_insertEntry {α : Type} {g : ν → List α} {k : κ} {v : ν} {more : List α}
    {es : List (κ × ν)} (ascending : es.Pairwise fun a b => compare a.1 b.1 = .lt)
    (grown : (g v).Perm ((lookup k es).elim [] g ++ more)) :
    ((insertEntry k v es).flatMap fun e => g e.2).Perm ((es.flatMap fun e => g e.2) ++ more) := by
  induction es with
  | nil => simpa [insertEntry, lookup] using grown
  | cons e rest ih =>
    obtain ⟨below, tail⟩ := List.pairwise_cons.mp ascending
    rw [insertEntry]
    split
    next lt =>
      have missing : lookup k (e :: rest) = none := by
        refine Option.eq_none_iff_forall_ne_some.mpr fun u found => ?_
        obtain same | later := List.mem_cons.mp (mem_of_lookup found)
        · have equal : compare k e.1 = .eq := by rw [← same]; exact Std.ReflCmp.compare_self
          rw [equal] at lt
          contradiction
        · rw [Std.OrientedCmp.gt_of_lt (below _ later)] at lt
          contradiction
      rw [missing, Option.elim_none, List.nil_append] at grown
      rw [List.flatMap_cons]
      exact (grown.append_right _).trans List.perm_append_comm
    next eq =>
      rw [lookup, if_pos eq, Option.elim_some] at grown
      rw [List.flatMap_cons, List.flatMap_cons, List.append_assoc]
      refine (grown.append_right _).trans ?_
      rw [List.append_assoc]
      exact List.perm_append_comm.append_left _
    next gt =>
      rw [lookup, if_neg (by rw [gt]; simp)] at grown
      rw [List.flatMap_cons, List.flatMap_cons, List.append_assoc]
      exact (ih tail grown).append_left _

/-- What the values hold together grows by as much as the value of one key does. -/
theorem flatMap_values_alter {α : Type} {g : ν → List α} {m : KeyedList κ ν} {k : κ}
    {f : Option ν → ν} {more : List α}
    (grown : (g (f (m.find? k))).Perm ((m.find? k).elim [] g ++ more)) :
    ((m.alter k f).values.flatMap g).Perm (m.values.flatMap g ++ more) := by
  rw [values, values, List.flatMap_map, List.flatMap_map]
  exact flatMap_insertEntry m.ascending grown

/-- What the values hold is held once where no value holds anything twice and no two keys share it. -/
theorem nodup_flatMap_values {α : Type} {g : ν → List α} {m : KeyedList κ ν} :
    (m.values.flatMap g).Nodup ↔ (∀ k v, m.find? k = some v → (g v).Nodup) ∧
      ∀ k j v u a, m.find? k = some v → m.find? j = some u → a ∈ g v → a ∈ g u → k = j := by
  rw [values, List.flatMap_map, List.nodup_flatMap]
  constructor
  · rintro ⟨each, apart⟩
    refine ⟨fun k v found => each (k, v) (mem_entries_iff.mpr found), ?_⟩
    intro k j v u a found foundOther mem again
    have symmetric : Std.Symm (Function.onFun List.Disjoint fun e : κ × ν => g e.2) :=
      ⟨fun _ _ => List.disjoint_symm⟩
    by_contra different
    exact apart.forall (mem_entries_iff.mpr found) (mem_entries_iff.mpr foundOther)
      (fun same => different (congrArg Prod.fst same)) mem again
  · rintro ⟨each, apart⟩
    refine ⟨fun e listed => each e.1 e.2 (mem_entries_iff.mp listed), ?_⟩
    -- Entries ascend by key, so two of them have different keys.
    refine m.ascending.imp_of_mem fun {e other} listed listedOther before a mem again => ?_
    have same := apart _ _ _ _ a (mem_entries_iff.mp listed) (mem_entries_iff.mp listedOther) mem again
    have tied : compare e.1 other.1 = .eq := same ▸ Std.ReflCmp.compare_self
    rw [tied] at before
    contradiction

end SemanticQuery.KeyedList
