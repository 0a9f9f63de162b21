import SemanticQuery.Proofs.Binding.OwnTypes
import SemanticQuery.Proofs.Binding.Partition

/-! Plans for two stores, side by side. What an occurrence is filled with is settled by the binding of its
parameter, so a slot is bound alike where the stores agree on the parameters that the index lists it
under. -/
namespace SemanticQuery.Binding
open Query Lowering

namespace Filling
variable {c : Context} {b : ParameterBinding} {o : Occurrence} {v : Value} {f g : Filling}

theorem eq_of_parts (groups : f.group = g.group) (bindings : f.bindings = g.bindings) : f = g := by
  cases f
  cases g
  cases groups
  cases bindings
  rfl

/-- A value fills a group in one way. -/
theorem Holds.unique (holds : f.Holds c b o v) (again : g.Holds c b o v) (groups : f.group = g.group) :
    f = g := by
  apply eq_of_parts groups
  cases holds with
  | null isNull bindings =>
    cases again with
    | null _ bindingsAgain => rw [bindings, bindingsAgain, groups]
    | value notNull =>
      rw [isNull] at notNull
      contradiction
  | @value m values notNull typed parts bindings =>
    cases again with
    | null isNull =>
      rw [isNull] at notNull
      contradiction
    | value _ typedAgain partsAgain bindingsAgain =>
      rw [typed] at typedAgain
      cases typedAgain
      rw [parts] at partsAgain
      cases partsAgain
      rw [bindings, bindingsAgain]

/-- Groups that are filled for one value are filled for as many copies of it. -/
theorem forall₂_of_forall {fs : List Filling} (holds : ∀ f ∈ fs, f.Holds c b o v) :
    List.Forall₂ (Holds c b o) ((fs.map group).map fun _ => v) fs := by
  rw [List.map_map, List.forall₂_map_left_iff, List.forall₂_same]
  exact holds

/-- Values fill groups in one way. -/
theorem unique_of_holds {vs : List Value} {fs gs : List Filling}
    (holds : List.Forall₂ (Holds c b o) vs fs) (again : List.Forall₂ (Holds c b o) vs gs)
    (groups : fs.map group = gs.map group) : fs = gs := by
  induction holds generalizing gs with
  | nil => exact (List.forall₂_nil_left_iff.mp again).symm
  | cons first _ ih =>
    cases again with
    | cons firstAgain laterAgain =>
      obtain ⟨same, later⟩ := List.cons.inj groups
      rw [first.unique firstAgain same, ih laterAgain later]

end Filling

/-- A binding fills an occurrence in one way. -/
theorem OccurrenceFill.unique {c : Context} {b : ParameterBinding} {o : Occurrence} {expansions : Nat}
    {s : OccurrenceSlots} {fs gs : List Filling} (fill : OccurrenceFill c b o expansions s fs)
    (again : OccurrenceFill c b o expansions s gs) : fs = gs := by
  cases fill with
  | unbound value =>
    cases again with
    | unbound _ => rfl
    | single other =>
      rw [value] at other
      contradiction
    | multi other =>
      rw [value] at other
      contradiction
  | single value groups holds =>
    obtain ⟨groupsAgain, holdsAgain⟩ := again.of_single value
    have same : fs.map Filling.group = gs.map Filling.group := groups.trans groupsAgain.symm
    have each := Filling.forall₂_of_forall holds
    rw [same] at each
    exact Filling.unique_of_holds each (Filling.forall₂_of_forall holdsAgain) same
  | multi value counted within groups holds =>
    cases again with
    | unbound other =>
      rw [value] at other
      contradiction
    | single other =>
      rw [value] at other
      contradiction
    | multi other _ _ groupsAgain holdsAgain =>
      rw [value] at other
      cases other
      exact Filling.unique_of_holds holds holdsAgain (groups.trans groupsAgain.symm)

section
variable {c : Context} {t : OccurrenceTable} {store store' : Store} {p p' : Plan} {n : Nat}

/-- What fills an occurrence are slots that the index lists under its key. -/
theorem OccurrenceFill.indexed {b : ParameterBinding} {o : Occurrence} {expansions : Nat}
    {s : OccurrenceSlots} {fs : List Filling} {key : ParameterKey}
    (fill : OccurrenceFill c b o expansions s fs) (filing : c.index.occurrence? key o.id = some s)
    {f : Filling} (mem : f ∈ fs) (numbered : n ∈ f.group.map Slot.number) : n ∈ c.index.slotsFor key := by
  apply SlotIndex.mem_slotsFor_iff.mpr
  refine ⟨o.id, s, filing, OccurrenceSlots.mem_slots_iff.mpr ?_⟩
  rcases fill.group_mem mem with own | ⟨-, expanded⟩
  · exact .inl (mem_numbers_of_mem own numbered)
  · have listed := ((List.take_sublist ..).flatten).subset expanded
    exact .inr (mem_numbers_of_mem listed numbered)

/-- A plan keeps what it binds a slot to when the parameters of the slot keep their bindings. -/
theorem buildPlan_keeps (built : buildPlan c t store = .ok p) (built' : buildPlan c t store' = .ok p')
    (agree : ∀ key, n ∈ c.index.slotsFor key → store.find? key = store'.find? key) {slot : SlotBinding}
    (found : p.find? n = some slot) : p'.find? n = some slot := by
  obtain ⟨e, listed, o, member, b, fs, known, ⟨s, filing, fill⟩, f, mem, write⟩ :=
    buildPlan_filled built found
  obtain ⟨b', fs', known', ⟨s', filing', fill'⟩, written⟩ := buildPlan_fills built' listed member
  have indexed := fill.indexed filing mem (Filling.number_of_write write)
  rw [← agree _ indexed, known] at known'
  cases known'
  rw [filing] at filing'
  cases filing'
  rw [fill.unique fill'] at mem
  exact written f mem _ write

theorem buildPlan_agrees (built : buildPlan c t store = .ok p) (built' : buildPlan c t store' = .ok p')
    (agree : ∀ key, n ∈ c.index.slotsFor key → store.find? key = store'.find? key) :
    p.find? n = p'.find? n := by
  apply Option.ext
  intro slot
  constructor
  · exact buildPlan_keeps built built' agree
  · exact buildPlan_keeps built' built fun key mem => (agree key mem).symm

/-- The binding of a parameter shows at the slots of the parameter only: plans for two stores that differ in
it bind all other slots alike, whatever the two bindings are. -/
theorem plan_isolates_parameter {key : ParameterKey}
    (apart : ∀ other, other ≠ key → store.find? other = store'.find? other)
    (built : buildPlan c t store = .ok p) (built' : buildPlan c t store' = .ok p') :
    ∀ n, n ∉ c.index.slotsFor key → p.find? n = p'.find? n := by
  intro n unlisted
  apply buildPlan_agrees built built'
  intro other listed
  apply apart
  rintro rfl
  exact unlisted listed

/-- In the index of a statement no slot is listed under two parameters, so that no slot of one shows what
another one is bound to. -/
theorem Prepared.keeps_other_parameter {s : Statement} {l : Lowered}
    {key other : ParameterKey} (prepared : Prepared s t l c.index)
    (apart : ∀ other, other ≠ key → store.find? other = store'.find? other)
    (built : buildPlan c t store = .ok p) (built' : buildPlan c t store' = .ok p')
    (different : other ≠ key) : ∀ n ∈ c.index.slotsFor other, p.find? n = p'.find? n := by
  intro n listed
  apply buildPlan_agrees built built'
  intro again listedAgain
  rw [← prepared.key_of_slot listed listedAgain]
  exact apart other different

end

/-! One of two parameters is bound to two values and then to one, which leaves an expansion behind. -/
namespace Rebound
open Compared (paid price five)

def priced : Occurrence :=
  ((builder.occurrence ids none none).2.occurrence price (some (.mapped paid)) none).1

/-- A selection of nothing, restricted by a list of one parameter and by another parameter. -/
def both : Statement :=
  .select ⟨[], [], [], some (.and [.inList (.literal 0 (.long 7) (.basic long)) [item] false,
    .comparison (.literal 2 five (.mapped paid)) .equal (.parameter 3 priced)])⟩

def twoValues : BindingState :=
  (BindingState.start both
      ((builder.occurrence ids none none).2.occurrence price (some (.mapped paid)) none).2).run
    [.bindMulti ids.key [.long 1, .long 2], .expand, .bind price.key five]

def oneValue : BindingState := twoValues.run [.bind ids.key (.long 7)]

theorem price_is_bound_alike :
    ∃ (l : Lowered) (w : Workspace) (c : Context) (p p' : Plan),
      lowerStatement model true twoValues.table.expansions both .empty = .ok l w ∧
        SlotIndex.build twoValues.table l.ledger.groups? = .ok c.index ∧
        buildPlan c twoValues.table twoValues.store = .ok p ∧
        buildPlan c twoValues.table oneValue.store = .ok p' ∧
        c.index.slotsFor ids.key = [0, 1] ∧ p.find? 0 ≠ p'.find? 0 ∧ p.find? 1 ≠ p'.find? 1 ∧
        p'.find? 3 = some ⟨some .char, .char 'Y'⟩ ∧
        ∀ n, n ∉ c.index.slotsFor ids.key → p.find? n = p'.find? n := by
  have apart (other : ParameterKey) (different : other ≠ ids.key) :
      twoValues.store.find? other = oneValue.store.find? other :=
    (KeyedList.find?_insert_of_ne different).symm
  refine ⟨_, _, ⟨model, .empty, _, .empty⟩, _, _, rfl, rfl, rfl, rfl, rfl, ?_, ?_, rfl, ?_⟩
  · exact nofun
  · exact nofun
  · exact plan_isolates_parameter (t := twoValues.table) apart rfl rfl

end Rebound

end SemanticQuery.Binding
