import Mathlib.Data.List.ReduceOption
import SemanticQuery.Precedence

/-! What takes precedence among operands. To come before another operand is a strict order, if a partial one:
a path comes before what is none, and among the others a wider kind before a narrower. Operands are gone
through once, and the one kept so far gives way only to one that comes before it. -/
namespace SemanticQuery

namespace Kind

theorem isWider_irrefl (a : Kind) : ¬ a.isWider a = true := by
  cases a <;> decide

/-- What is narrower than a narrower kind is narrower. -/
theorem narrower_closed (a : Kind) : ∀ b ∈ a.narrower, ∀ c ∈ b.narrower, c ∈ a.narrower := by
  cases a <;> decide

theorem isWider_trans {a b c : Kind} (first : a.isWider b = true) (later : b.isWider c = true) :
    a.isWider c = true := by
  rw [isWider, List.contains_iff_mem] at first later ⊢
  exact a.narrower_closed b first c later

end Kind

namespace ExprType

/-- The right operand of two is kept. -/
def Precedes (right left : ExprType) : Prop :=
  left.isPath = false ∧ (right.isPath = true ∨ right.kind.isWider left.kind = true)

instance (right left : ExprType) : Decidable (right.Precedes left) := inferInstanceAs (Decidable (_ ∧ _))

theorem Precedes.irrefl (t : ExprType) : ¬ t.Precedes t := by
  rintro ⟨noPath, path | wider⟩
  · rw [noPath] at path
    contradiction
  · exact t.kind.isWider_irrefl wider

theorem Precedes.trans {a b c : ExprType} (first : a.Precedes b) (later : b.Precedes c) : a.Precedes c := by
  obtain ⟨noPath, path | wider⟩ := first
  · exact ⟨later.1, .inl path⟩
  · obtain ⟨noPathLater, path | widerLater⟩ := later
    · rw [noPath] at path
      contradiction
    · exact ⟨noPathLater, .inr (Kind.isWider_trans wider widerLater)⟩

end ExprType

section
variable {α : Type} {typeOf : α → ExprType} {entries : List (Option α)}

theorem widen_none (right : Option α) : widen typeOf none right = right := by
  cases right <;> rfl

theorem widen_absent (left : Option α) : widen typeOf left none = left := by
  cases left <;> rfl

theorem widen_some (l r : α) :
    widen typeOf (some l) (some r) = if (typeOf r).Precedes (typeOf l) then some r else some l := by
  rw [widen]
  by_cases path : (typeOf l).isPath = true
  · simp [ExprType.Precedes, path]
  · simp [ExprType.Precedes, path]

/-- The first operand is kept when there was none before it. -/
theorem highestPrecedence_eq_foldl (typeOf : α → ExprType) (entries : List (Option α)) :
    highestPrecedence typeOf entries = entries.foldl (widen typeOf) none := by
  cases entries with
  | nil => rfl
  | cons first rest => rw [highestPrecedence, List.foldl_cons, widen_none]

/-- An entry that is absent is passed over, wherever it stands. -/
theorem highestPrecedence_eraseIdx {index : Nat} (absent : entries[index]? = some none) :
    highestPrecedence typeOf (entries.eraseIdx index) = highestPrecedence typeOf entries := by
  obtain ⟨within, entry⟩ := List.getElem?_eq_some_iff.mp absent
  have around : entries = entries.take index ++ none :: entries.drop (index + 1) := by
    rw [← entry, ← List.drop_eq_getElem_cons, List.take_append_drop]
  rw [highestPrecedence_eq_foldl, highestPrecedence_eq_foldl, List.eraseIdx_eq_take_drop_succ]
  conv_rhs => rw [around]
  rw [List.foldl_append, List.foldl_append, List.foldl_cons, widen_absent]

/-- An operand that leads the entries gone through: none of them comes before it, the first operand is it
or gives way to it, and it stands at a place where it beats something that no operand before it beats. -/
structure Leads (typeOf : α → ExprType) (entries : List (Option α)) (w : α) : Prop where
  place : ∃ before after, entries = before ++ some w :: after ∧ ∀ e, some e ∈ before →
    ∃ beaten, (typeOf w).Precedes (typeOf beaten) ∧ ¬ (typeOf e).Precedes (typeOf beaten)
  unbeaten : ∀ e, some e ∈ entries → ¬ (typeOf e).Precedes (typeOf w)
  opening : ∀ x, entries.reduceOption.head? = some x → w = x ∨ (typeOf w).Precedes (typeOf x)

theorem Leads.mem {w : α} (leads : Leads typeOf entries w) : some w ∈ entries := by
  obtain ⟨before, after, rfl, -⟩ := leads.place
  exact List.mem_append_right _ List.mem_cons_self

/-- What is kept of the entries gone through: nothing as long as all of them are absent. -/
def Kept (typeOf : α → ExprType) (entries : List (Option α)) : Option α → Prop
  | none => ∀ e ∈ entries, e = none
  | some w => Leads typeOf entries w

theorem reduceOption_of_absent (absent : ∀ e ∈ entries, e = none) : entries.reduceOption = [] := by
  rw [List.reduceOption, List.filterMap_eq_nil_iff]
  exact absent

theorem Leads.first (absent : ∀ e ∈ entries, e = none) (x : α) : Leads typeOf (entries ++ [some x]) x where
  place := ⟨entries, [], rfl, fun e mem => absurd (absent _ mem) (Option.some_ne_none e)⟩
  unbeaten e mem := by
    obtain mem | same := List.mem_append.mp mem
    · exact absurd (absent _ mem) (Option.some_ne_none e)
    · obtain rfl := Option.some.inj (List.mem_singleton.mp same)
      exact ExprType.Precedes.irrefl _
  opening y head := by
    rw [List.reduceOption_append, reduceOption_of_absent absent] at head
    exact .inl (Option.some.inj head)

theorem head?_reduceOption_of_leads {w : α} (leads : Leads typeOf entries w) (more : List (Option α)) :
    (entries ++ more).reduceOption.head? = entries.reduceOption.head? := by
  obtain ⟨before, after, rfl, -⟩ := leads.place
  rw [List.reduceOption_append, List.reduceOption_append, List.reduceOption_cons_of_some, List.append_assoc]
  cases before.reduceOption <;> rfl

/-- An absent entry, or an operand that does not come before the one kept. -/
theorem Leads.stays {w : α} (leads : Leads typeOf entries w) {entry : Option α}
    (weak : ∀ e, entry = some e → ¬ (typeOf e).Precedes (typeOf w)) :
    Leads typeOf (entries ++ [entry]) w where
  place := by
    obtain ⟨before, after, rfl, beats⟩ := leads.place
    exact ⟨before, after ++ [entry], by simp, beats⟩
  unbeaten e mem := by
    obtain mem | same := List.mem_append.mp mem
    · exact leads.unbeaten e mem
    · exact weak e (List.mem_singleton.mp same).symm
  opening x head := by
    rw [head?_reduceOption_of_leads leads] at head
    exact leads.opening x head

theorem Leads.givesWay {w x : α} (leads : Leads typeOf entries w)
    (precedes : (typeOf x).Precedes (typeOf w)) : Leads typeOf (entries ++ [some x]) x where
  place := ⟨entries, [], rfl, fun e mem => ⟨w, precedes, leads.unbeaten e mem⟩⟩
  unbeaten e mem beats := by
    obtain mem | same := List.mem_append.mp mem
    · exact leads.unbeaten e mem (beats.trans precedes)
    · obtain rfl := Option.some.inj (List.mem_singleton.mp same)
      exact ExprType.Precedes.irrefl _ beats
  opening y head := by
    rw [head?_reduceOption_of_leads leads] at head
    obtain rfl | earlier := leads.opening y head
    · exact .inr precedes
    · exact .inr (precedes.trans earlier)

/-- One more entry. -/
theorem Kept.widen {best : Option α} (kept : Kept typeOf entries best) (entry : Option α) :
    Kept typeOf (entries ++ [entry]) (widen typeOf best entry) := by
  cases best with
  | none =>
    rw [widen_none]
    cases entry with
    | none => exact List.forall_mem_append.mpr ⟨kept, by simp⟩
    | some x => exact Leads.first kept x
  | some w =>
    cases entry with
    | none => exact Leads.stays kept nofun
    | some x =>
      rw [widen_some]
      by_cases precedes : (typeOf x).Precedes (typeOf w)
      · rw [if_pos precedes]
        exact Leads.givesWay kept precedes
      · rw [if_neg precedes]
        exact Leads.stays kept fun e same => Option.some.inj same ▸ precedes

theorem Kept.foldl {best : Option α} (kept : Kept typeOf entries best) (later : List (Option α)) :
    Kept typeOf (entries ++ later) (later.foldl (SemanticQuery.widen typeOf) best) := by
  induction later generalizing entries best with
  | nil => rwa [List.append_nil]
  | cons entry later ih =>
    have next := ih (kept.widen entry)
    rwa [List.append_assoc] at next

theorem highestPrecedence_kept (typeOf : α → ExprType) (entries : List (Option α)) :
    Kept typeOf entries (highestPrecedence typeOf entries) := by
  have start : Kept typeOf [] none := nofun
  rw [highestPrecedence_eq_foldl]
  exact start.foldl entries

theorem highestPrecedence_eq_none_iff :
    highestPrecedence typeOf entries = none ↔ ∀ e ∈ entries, e = none := by
  have kept := highestPrecedence_kept typeOf entries
  constructor
  · intro none
    rwa [none] at kept
  · intro absent
    cases highest : highestPrecedence typeOf entries with
    | none => rfl
    | some w =>
      rw [highest] at kept
      exact absurd (absent _ (Leads.mem kept)) (Option.some_ne_none w)

/-- A path among the operands gives way to nothing but a path. -/
theorem Leads.isPath_of_mem {w e : α} (leads : Leads typeOf entries w) (mem : some e ∈ entries)
    (path : (typeOf e).isPath = true) : (typeOf w).isPath = true := by
  by_contra none
  exact leads.unbeaten e mem ⟨Bool.eq_false_iff.mpr none, .inl path⟩

end

/-- What represents a list of operands, of whatever type they are and whatever else tells them apart. There
is none exactly where every entry is absent. Otherwise it is an operand at a place in the list. Where a path
is among the operands it is the first of the paths; where there is none, no operand has a wider kind, its
own kind is that of the first operand or wider, and it is the first operand of its kind. -/
theorem representative_of_operands {α : Type} (typeOf : α → ExprType) (entries : List (Option α)) :
    (highestPrecedence typeOf entries = none ↔ ∀ e ∈ entries, e = none) ∧
      ∀ w, highestPrecedence typeOf entries = some w →
        ∃ before after, entries = before ++ some w :: after ∧
          ((∃ e, some e ∈ entries ∧ (typeOf e).isPath = true) →
            (typeOf w).isPath = true ∧ ∀ e, some e ∈ before → (typeOf e).isPath = false) ∧
          ((∀ e, some e ∈ entries → (typeOf e).isPath = false) →
            (∀ e, some e ∈ entries → (typeOf e).kind.isWider (typeOf w).kind = false) ∧
            (∀ x, entries.reduceOption.head? = some x →
              (typeOf w).kind = (typeOf x).kind ∨ (typeOf w).kind.isWider (typeOf x).kind = true) ∧
            ∀ e, some e ∈ before → (typeOf e).kind ≠ (typeOf w).kind) := by
  refine ⟨highestPrecedence_eq_none_iff, fun w highest => ?_⟩
  have leads : Leads typeOf entries w := by
    have kept := highestPrecedence_kept typeOf entries
    rwa [highest] at kept
  obtain ⟨before, after, split, beats⟩ := leads.place
  refine ⟨before, after, split, ?_, ?_⟩
  · rintro ⟨e, mem, path⟩
    refine ⟨leads.isPath_of_mem mem path, fun earlier mem => ?_⟩
    obtain ⟨beaten, wins, loses⟩ := beats earlier mem
    -- what the winner beats is no path, so that an earlier path would have beaten it too
    exact Bool.eq_false_iff.mpr fun path => loses ⟨wins.1, .inl path⟩
  · intro noPaths
    have noPath := noPaths w leads.mem
    refine ⟨fun e mem => ?_, fun x head => ?_, fun e mem same => ?_⟩
    · exact Bool.eq_false_iff.mpr fun wider => leads.unbeaten e mem ⟨noPath, .inr wider⟩
    · obtain rfl | ⟨-, path | wider⟩ := leads.opening x head
      · exact .inl rfl
      · rw [noPath] at path
        contradiction
      · exact .inr wider
    · obtain ⟨beaten, ⟨noPathBeaten, path | wider⟩, loses⟩ := beats e mem
      · rw [noPath] at path
        contradiction
      · exact loses ⟨noPathBeaten, .inr (same ▸ wider)⟩

/-- Of two kinds that neither holds the other the earlier one stays, and of one kind the first operand. -/
example : highestPrecedence (fun operand : Nat × Kind => ExprType.domain operand.2)
  [none, some (0, .integer), some (1, .float), some (2, .long), none, some (3, .float)] =
    some (1, .float) := rfl

end SemanticQuery
