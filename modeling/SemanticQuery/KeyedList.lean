/-!
Finite maps as entry lists in ascending key order. Each operation keeps the order, so a key has one
entry, entries are listed by key, and two maps that answer every lookup alike are equal.
-/
namespace SemanticQuery

structure KeyedList (κ : Type) (ν : Type) [Ord κ] where
  entries : List (κ × ν)
  ascending : entries.Pairwise fun a b => compare a.1 b.1 = .lt

namespace KeyedList
variable {κ ν : Type} [Ord κ]

def lookup (k : κ) : List (κ × ν) → Option ν
  | [] => none
  | e :: rest => if compare k e.1 = .eq then some e.2 else lookup k rest

/-- Puts the entry before the first greater key, in place of an entry of the same key. -/
def insertEntry (k : κ) (v : ν) : List (κ × ν) → List (κ × ν)
  | [] => [(k, v)]
  | e :: rest =>
    match compare k e.1 with
    | .lt => (k, v) :: e :: rest
    | .eq => (k, v) :: rest
    | .gt => e :: insertEntry k v rest

theorem mem_insertEntry {k : κ} {v : ν} {a : κ × ν} :
    {es : List (κ × ν)} → a ∈ insertEntry k v es → a = (k, v) ∨ a ∈ es
  | [], h => by simpa [insertEntry] using h
  | e :: rest, h => by
    rw [insertEntry] at h
    split at h
    · simpa using h
    · rcases List.mem_cons.1 h with h | h
      · exact .inl h
      · exact .inr (List.mem_cons_of_mem _ h)
    · rcases List.mem_cons.1 h with h | h
      · exact .inr (h ▸ List.mem_cons_self ..)
      · exact (mem_insertEntry h).imp id (List.mem_cons_of_mem _)

theorem insertEntry_ascending [Std.TransOrd κ] [Std.LawfulEqOrd κ] (k : κ) (v : ν) :
    {es : List (κ × ν)} → es.Pairwise (fun a b => compare a.1 b.1 = .lt) →
      (insertEntry k v es).Pairwise fun a b => compare a.1 b.1 = .lt
  | [], _ => by simp [insertEntry]
  | e :: rest, h => by
    have ⟨below, tail⟩ := List.pairwise_cons.1 h
    rw [insertEntry]
    split
    next lt =>
      refine List.pairwise_cons.2 ⟨fun a mem => ?_, h⟩
      rcases List.mem_cons.1 mem with rfl | mem
      · exact lt
      · exact Std.TransCmp.lt_trans lt (below a mem)
    next eq =>
      have same := Std.LawfulEqCmp.eq_of_compare eq
      exact List.pairwise_cons.2 ⟨fun a mem => same ▸ below a mem, tail⟩
    next gt =>
      refine List.pairwise_cons.2 ⟨fun a mem => ?_, insertEntry_ascending k v tail⟩
      rcases mem_insertEntry mem with rfl | mem
      · exact Std.OrientedCmp.gt_iff_lt.1 gt
      · exact below a mem

def empty : KeyedList κ ν := ⟨[], .nil⟩

instance : Inhabited (KeyedList κ ν) := ⟨empty⟩

def find? (m : KeyedList κ ν) (k : κ) : Option ν := lookup k m.entries

def insert [Std.TransOrd κ] [Std.LawfulEqOrd κ] (m : KeyedList κ ν) (k : κ) (v : ν) :
    KeyedList κ ν :=
  ⟨insertEntry k v m.entries, insertEntry_ascending k v m.ascending⟩

/-- Replaces what a key has, or gives it its first value. -/
def alter [Std.TransOrd κ] [Std.LawfulEqOrd κ] (m : KeyedList κ ν) (k : κ) (f : Option ν → ν) :
    KeyedList κ ν :=
  m.insert k (f (m.find? k))

/-- Later entries replace earlier ones of the same key. -/
def ofList [Std.TransOrd κ] [Std.LawfulEqOrd κ] (es : List (κ × ν)) : KeyedList κ ν :=
  es.foldl (fun m e => m.insert e.1 e.2) empty

def keys (m : KeyedList κ ν) : List κ := m.entries.map (·.1)

def values (m : KeyedList κ ν) : List ν := m.entries.map (·.2)

def size (m : KeyedList κ ν) : Nat := m.entries.length

def isEmpty (m : KeyedList κ ν) : Bool := m.entries.isEmpty

def mapValues {μ : Type} (f : ν → μ) (m : KeyedList κ ν) : KeyedList κ μ :=
  ⟨m.entries.map fun e => (e.1, f e.2), m.ascending.map _ fun _ _ h => h⟩

@[simp] theorem find?_empty (k : κ) : (empty : KeyedList κ ν).find? k = none := rfl

theorem lookup_insertEntry [Std.TransOrd κ] [Std.LawfulEqOrd κ] (k j : κ) (v : ν) :
    (es : List (κ × ν)) →
      lookup j (insertEntry k v es) = if compare j k = .eq then some v else lookup j es
  | [] => by simp [insertEntry, lookup]
  | e :: rest => by
    rw [insertEntry]
    split
    · rfl
    next eq =>
      have same := Std.LawfulEqCmp.eq_of_compare eq
      simp only [lookup, same]
      split <;> rfl
    next gt =>
      simp only [lookup, lookup_insertEntry k j v rest]
      by_cases first : compare j e.1 = .eq
      · have same := Std.LawfulEqCmp.eq_of_compare first
        subst same
        have distinct : compare e.1 k ≠ .eq := by
          rw [Std.OrientedCmp.gt_iff_lt.1 gt]
          simp
        simp [distinct]
      · simp [first]

theorem find?_insert [Std.TransOrd κ] [Std.LawfulEqOrd κ] (m : KeyedList κ ν) (k j : κ) (v : ν) :
    (m.insert k v).find? j = if compare j k = .eq then some v else m.find? j :=
  lookup_insertEntry k j v m.entries

@[simp] theorem find?_insert_self [Std.TransOrd κ] [Std.LawfulEqOrd κ] (m : KeyedList κ ν) (k : κ)
    (v : ν) : (m.insert k v).find? k = some v := by
  rw [find?_insert, if_pos Std.ReflCmp.compare_self]

theorem find?_insert_of_ne [Std.TransOrd κ] [Std.LawfulEqOrd κ] {m : KeyedList κ ν} {k j : κ}
    {v : ν} (h : j ≠ k) : (m.insert k v).find? j = m.find? j := by
  rw [find?_insert, if_neg fun same => h (Std.LawfulEqCmp.eq_of_compare same)]

end KeyedList

end SemanticQuery
