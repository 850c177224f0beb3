import ChartParser.Proofs.Chart.Rounds
import ChartParser.Proofs.Packing
import Mathlib.Data.List.ProdSigma

namespace ChartParser

variable {α : Type} {grammar : Grammar α} {input : Array String} {chart : Chart}

namespace Chart

/-- Where the symbol matched last begins in an item that begins at the start. -/
def middle (chart : Chart) (start : Nat) (derivation : Derivation) : Nat :=
  ((derivation.right.bind chart.item?).map (·.start)).getD start

theorem Covers.middle_eq {completed : ItemRef} {symbol : Symbol} {offset : Nat}
    (covers : chart.Covers grammar input completed symbol offset) (start : Nat)
    (part : Option ItemRef) (production : Nat) :
    chart.middle start ⟨part, some completed, production⟩ = offset := by
  obtain ⟨tag, ⟨item, found, -, same⟩, -⟩ := Sound.advanced_of_covers covers
  simp [middle, found, same]

theorem Splits.middle_between (sound : chart.Sound grammar input) {tag : Tag} {start stop : Nat}
    {derivation : Derivation} (split : chart.Splits grammar input tag start stop derivation) :
    start ≤ chart.middle start derivation ∧ chart.middle start derivation ≤ stop := by
  cases split with
  | empty => exact ⟨Nat.le_refl _, Nat.le_refl _⟩
  | step held next covers left =>
    rw [covers.middle_eq]
    refine ⟨?_, sound.covers_ordered covers⟩
    cases sound.placed held with
    | dotted _ _ ordered => exact ordered

/-- A derivation is told by its production and by where it splits the item. What stands to the left
is determined by that, though it may be left out or replaced by what matched the first symbol. -/
theorem Splits.eq_of_middle (sound : chart.Sound grammar input) {tag : Tag} {start stop : Nat}
    {derivation other : Derivation}
    (split : chart.Splits grammar input tag start stop derivation)
    (split' : chart.Splits grammar input tag start stop other)
    (productions : derivation.production = other.production)
    (middles : chart.middle start derivation = chart.middle start other) : derivation = other := by
  cases split with
  | @empty production _ known bare =>
    generalize tagged : Tag.rule (grammar.ruleOf production) = tag at split'
    cases split' with
    | empty => exact congrArg _ productions
    | step _ next =>
      have inside := (Array.getElem?_eq_some_iff.mp next).1
      simp only at productions
      rw [← productions, bare] at inside
      cases inside
  | @step waiting position _ symbol completed part held next covers left =>
    generalize tagged : grammar.tagBehind position = tag at split'
    generalize ended : completed.set = stop at split'
    cases split' with
    | empty _ bare =>
      have inside := (Array.getElem?_eq_some_iff.mp next).1
      simp only at productions
      rw [productions, bare] at inside
      cases inside
    | @step waiting' position' _ symbol' completed' part' held' next' covers' left' =>
      obtain rfl := tagBehind_injective tagged productions
      rw [covers.middle_eq, covers'.middle_eq] at middles
      obtain rfl := sound.ref_unique held held' middles
      obtain rfl := Option.some.inj (next.symm.trans next')
      rw [sound.covers_unique covers covers' ended, sound.leftPart_unique left left']

/-- An item has no more derivations than there are productions to choose from and offsets to split
it at. -/
theorem Sound.size_derivations_le (sound : chart.Sound grammar input) {ref : ItemRef} {tag : Tag}
    {start : Nat} (held : chart.Holds ref tag start) (productions : List Nat)
    (serves : ∀ derivation ∈ chart.derivations ref, derivation.production ∈ productions) :
    (chart.derivations ref).size ≤ productions.length * (ref.set - start + 1) := by
  have split {derivation : Derivation} (listed : derivation ∈ (chart.derivations ref).toList) :=
    sound.derived held (Array.mem_toList_iff.mp listed)
  have keys : ((chart.derivations ref).toList.map fun derivation =>
      (derivation.production, chart.middle start derivation)).Nodup := by
    refine (sound.nodup_derivations ref).map_on fun derivation listed other listed' same => ?_
    rw [Prod.mk.injEq] at same
    exact (split listed).eq_of_middle sound (split listed') same.1 same.2
  have known : ((chart.derivations ref).toList.map fun derivation =>
      (derivation.production, chart.middle start derivation)) ⊆
        productions ×ˢ List.range' start (ref.set - start + 1) := by
    intro key member
    obtain ⟨derivation, listed, rfl⟩ := List.mem_map.mp member
    obtain ⟨after, before⟩ := (split listed).middle_between sound
    refine List.pair_mem_product.mpr ⟨serves derivation (Array.mem_toList_iff.mp listed), ?_⟩
    exact List.mem_range'_1.mpr ⟨after, by omega⟩
  have fewer := (List.subperm_of_subset keys known).length_le
  rwa [List.length_map, Array.length_toList, List.length_product, List.length_range'] at fewer

theorem Sound.size_dotted_le (sound : chart.Sound grammar input) {ref : ItemRef}
    {position : Position} {start : Nat} (held : chart.Holds ref (.dotted position) start) :
    (chart.derivations ref).size ≤ ref.set - start + 1 := by
  have bound := sound.size_derivations_le held [position.production] fun derivation member =>
    List.mem_singleton.mpr ((sound.derived held member).production sound).2
  rwa [List.length_singleton, Nat.one_mul] at bound

theorem Sound.size_rule_le (sound : chart.Sound grammar input) (valid : grammar.WellFormed)
    {ref : ItemRef} {index start : Nat} (held : chart.Holds ref (.rule index) start) :
    (chart.derivations ref).size ≤
      (grammar.productionsOf index).size * (ref.set - start + 1) := by
  have bound := sound.size_derivations_le held (grammar.productionsOf index).toList
    fun derivation member => Array.mem_toList_iff.mpr
      (valid.mem_productionsOf.mpr ((sound.derived held member).production sound))
  rwa [Array.length_toList] at bound

end Chart

namespace Grammar

/-- The chart of a parse is polynomial, whatever the grammar, the start rule and the input are, and
whether the parse succeeds or fails. There is one loop for each set. Without any limit on its
passes, the loop ends with the set, and with no more items in it than there are starts for every
rule and every dot, and a lexeme. A dotted item has no more derivations than there are offsets in
its span, and the item of a rule no more than that for each production of the rule. -/
theorem chart_polynomial {draft : Draft α} {range : IndexRange}
    (built : draft.build range = .ok grammar) (start : Nat) (input : Array String) :
    let chart : Chart := ⟨(grammar.scan start input).sets⟩
    ((grammar.settings start input).map Setting.offset = List.range chart.sets.size ∧
      ∀ setting ∈ grammar.settings start input, ∃ set passes,
        setting.Settles (setting.firstRound start) (set, passes) ∧
        chart.sets[setting.offset]? = some set ∧
        set.items.size ≤
          (setting.offset + 1) * (grammar.rules.size + grammar.symbolCount) + 1) ∧
    (∀ {ref position first}, chart.Holds ref (.dotted position) first →
      (chart.derivations ref).size ≤ ref.set - first + 1) ∧
    ∀ {ref index first}, chart.Holds ref (.rule index) first →
      (chart.derivations ref).size ≤
        (grammar.productionsOf index).size * (ref.set - first + 1) := by
  have valid := Draft.build_wellFormed built
  have sound := (scanned_scan valid start input).filled.sound
  obtain ⟨prepared, offsets⟩ := prepared_settings valid start input
  refine ⟨⟨offsets, fun setting listed => ?_⟩, sound.size_dotted_le, sound.size_rule_le valid⟩
  obtain ⟨same, reads, filling, -, filled⟩ := prepared setting listed
  have full := (Setting.saturate_spec reads (Setting.seed_spec reads filling).1.filling 0).1
  refine ⟨_, _, Setting.settles_fill reads filling, filled, ?_⟩
  rw [← same]
  exact full.filling.size_le

end Grammar

/-- Sequences that go on to the left, to the right and round in cycles, and may be empty. -/
def Draft.doubles : Draft Unit :=
  .ofEntries "double" [.production ⟨"double", ["double", "double"], none, none⟩,
    .production ⟨"double", [], none, none⟩, .production ⟨"double", ["x"], none, none⟩]

theorem Draft.build_doubles : Draft.doubles.build .bits8 = .ok (Draft.doubles.number .bits8) :=
  Draft.build_eq_number (by decide +kernel) (by decide +kernel)

/-- With one rule and three symbols, the last of three sets may have up to thirteen items, and the
item of the whole up to nine derivations. It has three, one for each offset to split it at. -/
theorem Grammar.chart_polynomial_doubles :
    let chart : Chart := ⟨((Draft.doubles.number .bits8).scan 0 #["x", "x"]).sets⟩
    (∃ setting ∈ (Draft.doubles.number .bits8).settings 0 #["x", "x"], ∃ set passes,
      setting.offset = 2 ∧ setting.Settles (setting.firstRound 0) (set, passes) ∧
      chart.sets[2]? = some set ∧ set.items.size ≤ 13) ∧
    chart.Holds ⟨2, 2⟩ (.rule 0) 0 ∧ (chart.derivations ⟨2, 2⟩).size = 3 ∧
      (chart.derivations ⟨2, 2⟩).size ≤ 9 := by
  intro chart
  obtain ⟨⟨offsets, filled⟩, -, bound⟩ := chart_polynomial Draft.build_doubles 0 #["x", "x"]
  constructor
  · have last : 2 ∈ ((Draft.doubles.number .bits8).settings 0 #["x", "x"]).map Setting.offset := by
      rw [offsets]
      decide +kernel
    obtain ⟨setting, listed, here⟩ := List.mem_map.mp last
    obtain ⟨set, passes, settles, found, size⟩ := filled setting listed
    have counts : (Draft.doubles.number .bits8).rules.size = 1 ∧
        (Draft.doubles.number .bits8).symbolCount = 3 := by decide +kernel
    rw [here] at found size
    rw [counts.1, counts.2] at size
    exact ⟨setting, listed, set, passes, here, settles, found, size⟩
  · have checked : (chart.item? ⟨2, 2⟩).map (fun item => (item.tag, item.start)) =
        some (.rule 0, 0) := by decide +kernel
    obtain ⟨item, found, same⟩ := Option.map_eq_some_iff.mp checked
    rw [Prod.mk.injEq] at same
    have held : chart.Holds ⟨2, 2⟩ (.rule 0) 0 := ⟨item, found, same⟩
    have productions : ((Draft.doubles.number .bits8).productionsOf 0).size = 3 := by
      decide +kernel
    have fits := bound held
    rw [productions] at fits
    exact ⟨held, by decide +kernel, fits⟩

end ChartParser
