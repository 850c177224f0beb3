import ChartParser.Proofs.Chart.Journal
import ChartParser.Proofs.Packing
import Mathlib.Data.Finset.Card

namespace ChartParser

/-- No item is there twice, look-ups find what is there, every item is listed once where the symbol
is looked for that it waits for and nowhere else, and derivations are made of items and kept once
each in the order in which they were first recorded. -/
structure Chart.Invariant {α : Type} (grammar : Grammar α) (operations : List Operation)
    (chart : Chart) : Prop where
  unique : ∀ {ref other tag start}, chart.Holds ref tag start → chart.Holds other tag start →
    ref.set = other.set → ref = other
  find_iff : ∀ {tag start stop ref}, chart.find? tag start stop = some ref ↔
    ref.set = stop ∧ chart.Holds ref tag start
  awaiters : ∀ {set place item}, set ∈ chart.sets → set.items[place]? = some item → ∀ symbol,
    (set.awaiters symbol).toList.count place =
      if item.tag.awaited? grammar = some symbol ∧ symbol.isClassToken grammar = false then 1 else 0
  awaitingClass : ∀ {set place item}, set ∈ chart.sets → set.items[place]? = some item →
    set.awaitingClass.toList.count place =
      if (item.tag.awaited? grammar).any (·.isClassToken grammar) then 1 else 0
  listed : ∀ {set place}, set ∈ chart.sets →
    (∃ symbol, place ∈ set.awaiters symbol) ∨ place ∈ set.awaitingClass → place < set.items.size
  short : ∀ {ref position start}, chart.Holds ref (.dotted position) start →
    position.dot < (grammar.symbols position.production).size
  known : ∀ {ref derivation}, derivation ∈ chart.derivations ref →
    ∀ child ∈ derivation.children, (chart.item? child).isSome = true
  derivations : ∀ ref, (chart.derivations ref).toList = (recorded operations ref).eraseDups
  multiplicity : ∀ {ref item}, chart.item? ref = some item →
    (item.ways = .none ↔ (recorded operations ref).toFinset.card = 0) ∧
    ((∃ derivation, item.ways = .one derivation) ↔ (recorded operations ref).toFinset.card = 1) ∧
    ((∃ derivations several, item.ways = .many derivations several) ↔
      2 ≤ (recorded operations ref).toFinset.card)

private theorem card_toFinset (values : List Derivation) :
    values.toFinset.card = values.eraseDups.length := by
  rw [← List.toFinset_card_of_nodup (nodup_eraseDups values)]
  congr 1
  ext derivation
  simp

namespace ItemSet

variable {α : Type} {grammar : Grammar α} {set : ItemSet}

/-- An item is listed once where its symbol is looked for, unless that is a token class. -/
theorem Indexed.count_awaiters (indexed : set.Indexed grammar) {place : Nat} {item : Item}
    (found : set.items[place]? = some item) (symbol : Symbol) :
    (set.awaiters symbol).toList.count place =
      if item.tag.awaited? grammar = some symbol ∧ symbol.isClassToken grammar = false
      then 1 else 0 := by
  have distinct : (set.awaiters symbol).toList.Nodup := by
    rw [indexed.awaiters_eq]
    exact List.nodup_range.filter _
  have awaited : set.awaited? grammar place = item.tag.awaited? grammar := by
    rw [awaited?, found, Option.bind_some]
  simp only [distinct.count, Array.mem_toList_iff, indexed.mem_awaiters, awaited]

theorem Indexed.count_awaitingClass (indexed : set.Indexed grammar) {place : Nat} {item : Item}
    (found : set.items[place]? = some item) : set.awaitingClass.toList.count place =
      if (item.tag.awaited? grammar).any (·.isClassToken grammar) then 1 else 0 := by
  have awaited : set.awaited? grammar place = item.tag.awaited? grammar := by
    rw [awaited?, found, Option.bind_some]
  have inside := (Array.getElem?_eq_some_iff.mp found).1
  rw [indexed.awaitingClass_eq, (List.nodup_range.filter _).count]
  simp only [List.mem_filter, List.mem_range, inside, true_and, awaited]

theorem Indexed.place_lt (indexed : set.Indexed grammar) {place : Nat}
    (listed : (∃ symbol, place ∈ set.awaiters symbol) ∨ place ∈ set.awaitingClass) :
    place < set.items.size := by
  have inside (test : Nat → Bool) (member : place ∈ (List.range set.items.size).filter test) :
      place < set.items.size := List.mem_range.mp (List.mem_filter.mp member).1
  rcases listed with ⟨symbol, member⟩ | member
  · rw [← Array.mem_toList_iff, indexed.awaiters_eq] at member
    exact inside _ member
  · rw [← Array.mem_toList_iff, indexed.awaitingClass_eq] at member
    exact inside _ member

end ItemSet

namespace Chart

variable {α : Type} {grammar : Grammar α} {operations : List Operation}

theorem invariant_replay (fitting : Fitting grammar ⟨#[]⟩ operations) :
    (replay grammar operations).Invariant grammar operations := by
  have consistent := (consistent_nothing grammar).performAll fitting
  have derivations (ref : ItemRef) : ((replay grammar operations).derivations ref).toList =
      (recorded operations ref).eraseDups := by
    rw [replay, derivations_performAll fitting]
    exact toList_foldl_pushNew_empty _
  refine ⟨ref_unique_of_indexed consistent.indexed, find_iff_of_indexed consistent.indexed,
    fun member => (consistent.indexed member).count_awaiters,
    fun member => (consistent.indexed member).count_awaitingClass,
    fun member => (consistent.indexed member).place_lt,
    consistent.short, consistent.known, derivations, ?_⟩
  intro ref item found
  have size : item.derivations.size = (recorded operations ref).toFinset.card := by
    rw [card_toFinset, ← derivations, derivations_of_item found, Array.length_toList]
  rw [← size]
  exact item.ways.form_iff

end Chart

namespace Grammar

variable {α : Type} {grammar : Grammar α}

/-- The invariant of the chart holds after every operation that a parse makes, whether it succeeds
or fails. All operations together make the chart that the parse ends with, and so the invariant
holds in every forest. -/
theorem chart_invariant {draft : Draft α} {range : IndexRange}
    (built : draft.build range = .ok grammar) (start : Nat) (input : Array String) :
    (∀ done, done <+: grammar.operations start input →
      (Chart.replay grammar done).Invariant grammar done) ∧
    (Chart.replay grammar (grammar.operations start input)).sets =
      (grammar.scan start input).sets ∧
    ∀ forest, (grammar.parse start input).2 = .ok forest →
      forest.chart.Invariant grammar (grammar.operations start input) := by
  have performs := performs_scan (Draft.build_wellFormed built) start input
  have replayed : Chart.replay grammar (grammar.operations start input) =
      ⟨(grammar.scan start input).sets⟩ := performs.result
  have each (done : List Operation) (before : done <+: grammar.operations start input) :
      (Chart.replay grammar done).Invariant grammar done := by
    obtain ⟨rest, whole⟩ := before
    have fitting := performs.fitting
    rw [← whole, Chart.fitting_append] at fitting
    exact Chart.invariant_replay fitting.1
  refine ⟨each, congrArg Chart.sets replayed, ?_⟩
  intro forest success
  rw [(parse_ok_iff.mp success).2.1, ← replayed]
  exact each _ (List.prefix_refl _)

/-- A sum of three has several derivations on record. The invariant also holds at every point of a
parse that fails. -/
theorem chart_invariant_sums :
    (∃ forest, ((Draft.sums.number .bits8).parse 0 #["x", "+", "x", "+", "x"]).2 = .ok forest ∧
      let operations := (Draft.sums.number .bits8).operations 0 #["x", "+", "x", "+", "x"]
      forest.chart.Invariant (Draft.sums.number .bits8) operations ∧
        2 ≤ (recorded operations forest.root).toFinset.card) ∧
    ((Draft.sums.number .bits8).parse 0 #["x", "x"]).2.toOption.isSome = false ∧
    ∀ done, done <+: (Draft.sums.number .bits8).operations 0 #["x", "x"] →
      (Chart.replay (Draft.sums.number .bits8) done).Invariant (Draft.sums.number .bits8) done := by
  obtain ⟨forest, success, several, -⟩ := Draft.parse_sums
  have invariant := (chart_invariant Draft.build_sums 0 _).2.2 forest success
  refine ⟨⟨forest, success, invariant, ?_⟩, by decide +kernel,
    (chart_invariant Draft.build_sums 0 _).1⟩
  rwa [card_toFinset, ← invariant.derivations, Array.length_toList]

end Grammar

end ChartParser
