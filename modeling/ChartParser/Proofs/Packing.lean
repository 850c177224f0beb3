import ChartParser.Proofs.Forest.Nodes
import ChartParser.Proofs.Recognition

namespace ChartParser

variable {α : Type} {grammar : Grammar α} {input : Array String} {start : Nat}

namespace Chart

variable {chart : Chart}

theorem Filled.mem_derivations (filled : chart.Filled grammar start input) {ref : ItemRef}
    {tag : Tag} {first stop : Nat} {derivation : Derivation} (held : chart.Holds ref tag first)
    (here : ref.set = stop) (split : chart.Splits grammar input tag first stop derivation) :
    derivation ∈ chart.derivations ref := by
  cases split with
  | empty known bare =>
    have begun := filled.rooted held rfl _ known rfl
    cases begun with
    | opening inhabited => simp [bare] at inhabited
    | empty _ here' held' member =>
      rwa [filled.sound.ref_unique held held' (here.trans here'.symm)]
  | @step waiting position first symbol completed part held' next covers left =>
    obtain ⟨tag', held'', advanced⟩ := Sound.advanced_of_covers covers
    obtain ⟨ref', part', here', joined, left', member⟩ :=
      (filled.handled held'').joins held' next covers
    obtain rfl := filled.sound.ref_unique held joined (here.trans here'.symm)
    rwa [filled.sound.leftPart_unique left left']

/-- The derivations of an item are the ways to build it, each of them once. -/
theorem Filled.derivations_spec (filled : chart.Filled grammar start input) {ref : ItemRef}
    {tag : Tag} {first : Nat} (held : chart.Holds ref tag first) :
    (∀ derivation, derivation ∈ chart.derivations ref ↔
      chart.Splits grammar input tag first ref.set derivation) ∧
    (chart.derivations ref).toList.Nodup :=
  ⟨fun _ => ⟨filled.sound.derived held, filled.mem_derivations held rfl⟩,
    filled.sound.nodup_derivations ref⟩

end Chart

/-- The packed forest records exactly the possible splits: every item that waits for a symbol and
every item next to it that has matched the symbol are recorded with the item that they make, every
empty production is recorded with the items that it makes, and nothing else is, nor anything
twice. -/
theorem Forest.derivations_exact {draft : Draft α} {range : IndexRange}
    (built : draft.build range = .ok grammar) {forest : Forest}
    (success : (grammar.parse start input).2 = .ok forest) :
    (∀ {waiting completed position symbol first},
      forest.chart.Holds waiting (.dotted position) first →
      grammar.next? position = some symbol →
      forest.chart.Covers grammar input completed symbol waiting.set →
      ∃ ref part, ref.set = completed.set ∧
        forest.chart.Holds ref (grammar.tagBehind position) first ∧
        forest.chart.LeftPart grammar input waiting position first part ∧
        ⟨part, some completed, position.production⟩ ∈ forest.chart.derivations ref) ∧
    ∀ {ref tag first}, forest.chart.Holds ref tag first →
      (∀ derivation, derivation ∈ forest.chart.derivations ref ↔
        forest.chart.Splits grammar input tag first ref.set derivation) ∧
      (forest.chart.derivations ref).toList.Nodup := by
  have filled := (Grammar.parsed_of_parse (Draft.build_wellFormed built) success).filled
  constructor
  · intro waiting completed position symbol first held next covers
    obtain ⟨tag, held', advanced⟩ := Chart.Sound.advanced_of_covers covers
    exact (filled.handled held').joins held next covers
  · exact filled.derivations_spec

/-- Sums, of which every one is a sum of two sums, wherever it is split. -/
def Draft.sums : Draft Unit :=
  .ofEntries "sum" [.production ⟨"sum", ["sum", "+", "sum"], none, none⟩,
    .production ⟨"sum", ["x"], none, none⟩]

theorem Draft.build_sums : Draft.sums.build .bits8 = .ok (Draft.sums.number .bits8) :=
  Draft.build_eq_number (by decide +kernel) (by decide +kernel)

/-- How wide an item of a sum is, and what it has matched. -/
def Chart.sumRank (chart : Chart) (ref : ItemRef) : Nat :=
  match chart.item? ref with
  | some ⟨.lexeme _, start, _⟩ => 3 * (ref.set - start)
  | some ⟨.rule _, start, _⟩ => 3 * (ref.set - start) + 1
  | some ⟨.dotted _, start, _⟩ => 3 * (ref.set - start) + 2
  | none => 0

/-- A sum of three is parsed in two ways, but no sum is below itself. -/
theorem Draft.parse_sums :
    ∃ forest, ((Draft.sums.number .bits8).parse 0 #["x", "+", "x", "+", "x"]).2 = .ok forest ∧
      1 < (forest.chart.derivations forest.root).size ∧ forest.chart.Acyclic forest.root := by
  obtain ⟨forest, success⟩ := Grammar.exists_forest_iff.mpr (show
    ((Draft.sums.number .bits8).parse 0 #["x", "+", "x", "+", "x"]).2.toOption.isSome = true by
      decide +kernel)
  have checked : ((Draft.sums.number .bits8).parse 0 #["x", "+", "x", "+", "x"]).2.toOption.all
      (fun forest => decide (1 < (forest.chart.derivations forest.root).size ∧
        ∀ ref ∈ forest.chart.refs, ∀ derivation ∈ (forest.chart.derivations ref).toList,
          ∀ child ∈ derivation.children,
            forest.chart.sumRank child < forest.chart.sumRank ref)) = true := by
    decide +kernel
  simp only [success, Except.toOption, Option.all_some, decide_eq_true_eq] at checked
  obtain ⟨several, falls⟩ := checked
  exact ⟨forest, success, several, Chart.acyclic_of_rank _ falls forest.root⟩

/-- The derivations of the root are the ways to split the whole sum. -/
theorem Forest.derivations_root_sums :
    ∃ forest, ((Draft.sums.number .bits8).parse 0 #["x", "+", "x", "+", "x"]).2 = .ok forest ∧
      (∀ derivation, derivation ∈ forest.chart.derivations forest.root ↔ forest.chart.Splits
        (Draft.sums.number .bits8) #["x", "+", "x", "+", "x"] (.rule 0) 0 5 derivation) ∧
      (forest.chart.derivations forest.root).toList.Nodup := by
  obtain ⟨forest, success⟩ := Grammar.exists_forest_iff.mpr (show
    ((Draft.sums.number .bits8).parse 0 #["x", "+", "x", "+", "x"]).2.toOption.isSome = true by
      decide +kernel)
  have parsed := Grammar.parsed_of_parse (Draft.build_wellFormed Draft.build_sums) success
  obtain ⟨splits, distinct⟩ := (Forest.derivations_exact Draft.build_sums success).2 parsed.root
  rw [parsed.whole] at splits
  exact ⟨forest, success, splits, distinct⟩

end ChartParser
