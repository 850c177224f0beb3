import ChartParser.Proofs.Forest.Nodes

namespace ChartParser

/-- A change of a chart: one more set is opened behind the others, an item is entered into a set
unless it is there, or a way to build an item is recorded. -/
inductive Operation where
  | openSet
  | enter (tag : Tag) (start stop : Nat)
  | record (ref : ItemRef) (derivation : Derivation)
  deriving DecidableEq

/-- The derivation that is recorded for the item, if this is what is done. -/
def Operation.recorded? (ref : ItemRef) : Operation → Option Derivation
  | openSet => none
  | enter _ _ _ => none
  | record other derivation => if other = ref then some derivation else none

/-- The derivations that have been recorded for an item, each time that they were. -/
def recorded (operations : List Operation) (ref : ItemRef) : List Derivation :=
  operations.filterMap (Operation.recorded? ref)

namespace Chart

variable {α : Type}

def perform (grammar : Grammar α) (chart : Chart) : Operation → Chart
  | .openSet => ⟨chart.sets.push .empty⟩
  | .enter tag start stop =>
    ⟨chart.sets.modify stop fun set => (set.insert grammar tag start).2⟩
  | .record ref derivation =>
    ⟨chart.sets.modify ref.set fun set => set.derive ref.place derivation⟩

def performAll (grammar : Grammar α) (chart : Chart) (operations : List Operation) : Chart :=
  operations.foldl (perform grammar) chart

/-- The chart that operations make out of nothing. -/
def replay (grammar : Grammar α) (operations : List Operation) : Chart :=
  performAll grammar ⟨#[]⟩ operations

end Chart

/-- The operation works on sets and items that the chart has, and the dot of an item to be entered
is short of the length of its production. -/
def Operation.Fits {α : Type} (grammar : Grammar α) (chart : Chart) : Operation → Prop
  | openSet => True
  | enter tag _ stop => stop < chart.sets.size ∧
    ∀ position, tag = .dotted position →
      position.dot < (grammar.symbols position.production).size
  | record ref derivation => (chart.item? ref).isSome = true ∧
    ∀ child ∈ derivation.children, (chart.item? child).isSome = true

namespace Chart

variable {α : Type} {grammar : Grammar α} {chart last : Chart} {operation : Operation}
  {operations more : List Operation}

/-- The look-ups of the chart agree with its items, all dots are short of the length of their
productions, and derivations refer to items. -/
structure Consistent (grammar : Grammar α) (chart : Chart) : Prop where
  indexed : ∀ {set}, set ∈ chart.sets → set.Indexed grammar
  short : ∀ {ref position start}, chart.Holds ref (.dotted position) start →
    position.dot < (grammar.symbols position.production).size
  known : ∀ {ref derivation}, derivation ∈ chart.derivations ref →
    ∀ child ∈ derivation.children, (chart.item? child).isSome = true

def Fitting (grammar : Grammar α) : Chart → List Operation → Prop
  | _, [] => True
  | chart, operation :: rest =>
    operation.Fits grammar chart ∧ Fitting grammar (chart.perform grammar operation) rest

section Single

theorem sets_openSet (offset : Nat) : (chart.perform grammar .openSet).sets[offset]? =
    if offset = chart.sets.size then some .empty else chart.sets[offset]? :=
  Array.getElem?_push

theorem sets_enter (tag : Tag) (start stop offset : Nat) :
    (chart.perform grammar (.enter tag start stop)).sets[offset]? = chart.sets[offset]?.map
      fun set => if stop = offset then (set.insert grammar tag start).2 else set := by
  simp only [perform, Array.getElem?_modify]
  split <;> cases chart.sets[offset]? <;> rfl

theorem sets_record (ref : ItemRef) (derivation : Derivation) (offset : Nat) :
    (chart.perform grammar (.record ref derivation)).sets[offset]? = chart.sets[offset]?.map
      fun set => if ref.set = offset then set.derive ref.place derivation else set := by
  simp only [perform, Array.getElem?_modify]
  split <;> cases chart.sets[offset]? <;> rfl

theorem holds_openSet {ref : ItemRef} {tag : Tag} {start : Nat} :
    (chart.perform grammar .openSet).Holds ref tag start ↔ chart.Holds ref tag start := by
  simp only [holds_iff, sets_openSet]
  by_cases here : ref.set = chart.sets.size
  · simp [here, ItemSet.HoldsAt, ItemSet.empty]
  · simp [here]

theorem holds_record {ref other : ItemRef} {derivation : Derivation} {tag : Tag} {start : Nat} :
    (chart.perform grammar (.record other derivation)).Holds ref tag start ↔
      chart.Holds ref tag start := by
  simp only [holds_iff, sets_record]
  cases chart.sets[ref.set]? with
  | none => simp
  | some set =>
    by_cases here : other.set = ref.set
    · simp [here, ItemSet.holdsAt_derive]
    · simp [here]

theorem Consistent.holds_enter (consistent : chart.Consistent grammar) {ref : ItemRef}
    {tag other : Tag} {start first stop : Nat} :
    (chart.perform grammar (.enter tag start stop)).Holds ref other first ↔
      chart.Holds ref other first ∨ other = tag ∧ first = start ∧ ref.set = stop ∧
        ∃ set, chart.sets[stop]? = some set ∧ ref.place = (set.insert grammar tag start).1 := by
  simp only [holds_iff, sets_enter]
  by_cases here : ref.set = stop
  · cases found : chart.sets[stop]? with
    | none => simp [here, found]
    | some set =>
      have indexed := consistent.indexed (Array.mem_of_getElem? found)
      simp only [here, found, Option.map_some, if_true, Option.some.injEq, exists_eq_left',
        ItemSet.holdsAt_insert indexed, true_and]
      tauto
  · cases chart.sets[ref.set]? with
    | none => simp [here]
    | some set => simp [here, Ne.symm here]

theorem derivations_getD (chart : Chart) (ref : ItemRef) : chart.derivations ref =
    (chart.sets[ref.set]?.map fun set => set.derivationsAt ref.place).getD #[] := by
  cases found : chart.sets[ref.set]? with
  | none => simp [derivations, item?, found]
  | some set => rw [derivations_eq found, Option.map_some, Option.getD_some]

theorem derivations_perform (fits : operation.Fits grammar chart) (ref : ItemRef) :
    (chart.perform grammar operation).derivations ref =
      ((operation.recorded? ref).map (pushNew (chart.derivations ref))).getD
        (chart.derivations ref) := by
  cases operation with
  | openSet =>
    simp only [derivations_getD, sets_openSet, Operation.recorded?, Option.map_none,
      Option.getD_none]
    by_cases here : ref.set = chart.sets.size
    · simp [here, ItemSet.derivationsAt, ItemSet.empty]
    · simp [here]
  | enter tag start stop =>
    simp only [derivations_getD, sets_enter, Operation.recorded?, Option.map_map, Option.map_none,
      Option.getD_none]
    congr 2
    funext set
    simp only [Function.comp_apply]
    split
    · exact ItemSet.derivationsAt_insert tag start ref.place
    · rfl
  | record other derivation =>
    obtain ⟨tag, start, held⟩ := holds_iff_item.mpr fits.1
    obtain ⟨set, found, item, listed, -⟩ := holds_iff.mp held
    have inside := (Array.getElem?_eq_some_iff.mp listed).1
    have recorded := ItemSet.derivationsAt_derive other.place ref.place derivation inside
    simp only [derivations_getD, sets_record, Operation.recorded?]
    by_cases here : other.set = ref.set
    · rw [here] at found
      simp only [found, Option.map_some, Option.getD_some, here, if_true, recorded]
      by_cases same : other = ref
      · simp [same]
      · have apart : other.place ≠ ref.place := fun places => by
          cases other
          cases ref
          simp_all
        simp [same, apart]
    · have apart : other ≠ ref := fun same => here (same ▸ rfl)
      cases chart.sets[ref.set]? <;> simp [here, apart]

theorem Consistent.holds_perform (consistent : chart.Consistent grammar) {ref : ItemRef} {tag : Tag}
    {start : Nat} (held : chart.Holds ref tag start) :
    (chart.perform grammar operation).Holds ref tag start := by
  cases operation with
  | openSet => exact holds_openSet.mpr held
  | enter => exact consistent.holds_enter.mpr (.inl held)
  | record => exact holds_record.mpr held

theorem Consistent.item_perform (consistent : chart.Consistent grammar) {ref : ItemRef}
    (present : (chart.item? ref).isSome = true) :
    ((chart.perform grammar operation).item? ref).isSome = true := by
  obtain ⟨tag, start, held⟩ := holds_iff_item.mpr present
  exact holds_iff_item.mp ⟨tag, start, consistent.holds_perform held⟩

theorem Consistent.extends_perform (consistent : chart.Consistent grammar)
    (fits : operation.Fits grammar chart) : chart.Extends (chart.perform grammar operation) := by
  refine ⟨consistent.holds_perform, fun member => ?_⟩
  rw [derivations_perform fits]
  cases operation.recorded? _ with
  | none => exact member
  | some added => exact mem_pushNew.mpr (.inl member)

theorem Consistent.indexed_perform (consistent : chart.Consistent grammar) {set : ItemSet}
    (member : set ∈ (chart.perform grammar operation).sets) : set.Indexed grammar := by
  obtain ⟨offset, found⟩ := Array.mem_iff_getElem?.mp member
  cases operation with
  | openSet =>
    rw [sets_openSet] at found
    split at found
    · cases found
      exact ItemSet.indexed_empty grammar
    · exact consistent.indexed (Array.mem_of_getElem? found)
  | enter tag start stop =>
    rw [sets_enter] at found
    obtain ⟨before, earlier, rfl⟩ := Option.map_eq_some_iff.mp found
    have indexed := consistent.indexed (Array.mem_of_getElem? earlier)
    split
    · exact indexed.insert tag start
    · exact indexed
  | record ref derivation =>
    rw [sets_record] at found
    obtain ⟨before, earlier, rfl⟩ := Option.map_eq_some_iff.mp found
    have indexed := consistent.indexed (Array.mem_of_getElem? earlier)
    split
    · exact indexed.derive ref.place derivation
    · exact indexed

theorem known_of_recorded {ref : ItemRef} {derivation : Derivation}
    (fits : operation.Fits grammar chart) (added : operation.recorded? ref = some derivation) :
    ∀ child ∈ derivation.children, (chart.item? child).isSome = true := by
  cases operation with
  | openSet => cases added
  | enter => cases added
  | record other derivation' =>
    simp only [Operation.recorded?, Option.ite_none_right_eq_some] at added
    obtain ⟨-, same⟩ := added
    cases same
    exact fits.2

/-- An operation that fits keeps the chart consistent. -/
theorem Consistent.perform (consistent : chart.Consistent grammar)
    (fits : operation.Fits grammar chart) :
    (chart.perform grammar operation).Consistent grammar where
  indexed := consistent.indexed_perform
  short {ref position start} held := by
    cases operation with
    | openSet => exact consistent.short (holds_openSet.mp held)
    | record => exact consistent.short (holds_record.mp held)
    | enter =>
      rcases consistent.holds_enter.mp held with before | ⟨same, -⟩
      · exact consistent.short before
      · exact fits.2 position same.symm
  known {ref derivation} member child listed := by
    rw [derivations_perform fits] at member
    refine consistent.item_perform ?_
    cases added : operation.recorded? ref with
    | none =>
      rw [added] at member
      exact consistent.known member child listed
    | some new =>
      rw [added, Option.map_some, Option.getD_some] at member
      rcases mem_pushNew.mp member with before | rfl
      · exact consistent.known before child listed
      · exact known_of_recorded fits added child listed

end Single

section Several

theorem consistent_nothing (grammar : Grammar α) : Consistent grammar ⟨#[]⟩ where
  indexed member := by simp at member
  short held := by simp [Holds, item?] at held
  known member := by simp [derivations, item?] at member

theorem performAll_append : performAll grammar chart (operations ++ more) =
    performAll grammar (performAll grammar chart operations) more :=
  List.foldl_append

theorem fitting_append : Fitting grammar chart (operations ++ more) ↔
    Fitting grammar chart operations ∧
      Fitting grammar (performAll grammar chart operations) more := by
  induction operations generalizing chart with
  | nil => simp [Fitting, performAll]
  | cons operation operations ih =>
    simp only [List.cons_append, Fitting, ih, and_assoc]
    rfl

theorem Consistent.performAll (consistent : chart.Consistent grammar)
    (fitting : Fitting grammar chart operations) :
    (performAll grammar chart operations).Consistent grammar := by
  induction operations generalizing chart with
  | nil => exact consistent
  | cons operation operations ih => exact ih (consistent.perform fitting.1) fitting.2

theorem Consistent.extends_performAll (consistent : chart.Consistent grammar)
    (fitting : Fitting grammar chart operations) :
    chart.Extends (Chart.performAll grammar chart operations) := by
  induction operations generalizing chart with
  | nil => exact .refl chart
  | cons operation operations ih =>
    exact (consistent.extends_perform fitting.1).trans (ih (consistent.perform fitting.1) fitting.2)

theorem Consistent.item_performAll (consistent : chart.Consistent grammar)
    (fitting : Fitting grammar chart operations) {ref : ItemRef}
    (present : (chart.item? ref).isSome = true) :
    ((Chart.performAll grammar chart operations).item? ref).isSome = true := by
  obtain ⟨tag, start, held⟩ := holds_iff_item.mpr present
  exact holds_iff_item.mp ⟨tag, start, (consistent.extends_performAll fitting).holds held⟩

/-- The derivations of an item are those that have been recorded for it, one added after the
other. -/
theorem derivations_performAll (fitting : Fitting grammar chart operations) (ref : ItemRef) :
    (performAll grammar chart operations).derivations ref =
      (recorded operations ref).foldl pushNew (chart.derivations ref) := by
  induction operations generalizing chart with
  | nil => rfl
  | cons operation operations ih =>
    refine (ih fitting.2).trans ?_
    rw [derivations_perform fitting.1, recorded, recorded, List.filterMap_cons]
    cases operation.recorded? ref <;> rfl

/-- The operations fit, and they lead from one chart to the other. -/
structure Performs (grammar : Grammar α) (chart : Chart) (operations : List Operation)
    (last : Chart) : Prop where
  fitting : Fitting grammar chart operations
  result : performAll grammar chart operations = last

theorem Performs.refl (chart : Chart) : Performs grammar chart [] chart := ⟨trivial, rfl⟩

theorem Performs.append {middle : Chart} (performs : Performs grammar chart operations middle)
    (further : Performs grammar middle more last) :
    Performs grammar chart (operations ++ more) last := by
  obtain ⟨fitting, rfl⟩ := performs
  exact ⟨fitting_append.mpr ⟨fitting, further.fitting⟩, performAll_append.trans further.result⟩

theorem Performs.consistent (performs : Performs grammar chart operations last)
    (consistent : chart.Consistent grammar) : last.Consistent grammar :=
  performs.result ▸ consistent.performAll performs.fitting

theorem Performs.item (performs : Performs grammar chart operations last)
    (consistent : chart.Consistent grammar) {ref : ItemRef}
    (present : (chart.item? ref).isSome = true) : (last.item? ref).isSome = true :=
  performs.result ▸ consistent.item_performAll performs.fitting present

end Several

end Chart

end ChartParser
