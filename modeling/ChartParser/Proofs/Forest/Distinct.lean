import ChartParser.Proofs.Forest.Nodes

/-! What a node stands for is told apart by its derivations: all trees of a node match equally many
symbols, and trees of different derivations differ. -/
namespace ChartParser.Chart

variable {α : Type} {grammar : Grammar α} {input : Array String} {chart : Chart}

theorem Holds.matches (grammar : Grammar α) (input : Array String) {ref : ItemRef} {tag : Tag}
    {start : Nat} (held : chart.Holds ref tag start) (advanced : tag.Advanced)
    (plain : ∀ offset, tag ≠ .lexeme offset) :
    ∃ symbols, chart.Matches grammar input ref symbols start := by
  cases tag with
  | lexeme offset => exact absurd rfl (plain offset)
  | dotted position => exact ⟨_, .dotted held advanced⟩
  | rule index => exact ⟨_, .symbol (.rule held)⟩

/-- The trees that a node stands for are always equally many. -/
theorem Sound.length_eq (sound : chart.Sound grammar input) {ref : ItemRef} {tag : Tag}
    {start : Nat} (held : chart.Holds ref tag start) (advanced : tag.Advanced)
    {trees others : List Tree} (unfolds : chart.Unfolds [ref] trees)
    (again : chart.Unfolds [ref] others) : trees.length = others.length := by
  by_cases lexeme : ∃ offset, tag = .lexeme offset
  · obtain ⟨offset, rfl⟩ := lexeme
    rw [unfolds.eq_lexeme held, again.eq_lexeme held]
  · obtain ⟨symbols, matched⟩ := held.matches grammar input advanced fun offset same =>
      lexeme ⟨offset, same⟩
    exact (unfolds.spells_single sound matched).length_eq.trans
      (again.spells_single sound matched).length_eq.symm

/-- Two items that cover a symbol up to the same offset and stand for the same trees are the same,
since these trees match equally many lexemes. -/
theorem Sound.covers_eq (sound : chart.Sound grammar input) {ref other : ItemRef}
    {symbol : Symbol} {start first : Nat} {trees : List Tree}
    (covers : chart.Covers grammar input ref symbol start)
    (covers' : chart.Covers grammar input other symbol first) (same : ref.set = other.set)
    (unfolds : chart.Unfolds [ref] trees) (unfolds' : chart.Unfolds [other] trees) :
    ref = other ∧ start = first := by
  have width := (unfolds.spells_single sound (.symbol covers)).width_eq
    (unfolds'.spells_single sound (.symbol covers'))
  obtain rfl : start = first := by omega
  exact ⟨sound.covers_unique covers covers' same, rfl⟩

theorem Splits.eq_of_unfolds (sound : chart.Sound grammar input) {tag : Tag} {start stop : Nat}
    {derivation other : Derivation} {children : List Tree}
    (split : chart.Splits grammar input tag start stop derivation)
    (split' : chart.Splits grammar input tag start stop other)
    (same : derivation.production = other.production)
    (unfolds : chart.Unfolds derivation.children children)
    (unfolds' : chart.Unfolds other.children children) : derivation = other := by
  cases split with
  | empty known bare =>
    generalize Tag.rule (grammar.ruleOf _) = tag at split'
    cases split' with
    | empty => exact congrArg (Derivation.mk none none) same
    | step held next =>
      simp only at same
      simp [Grammar.next?, ← same, bare] at next
  | @step waiting position start symbol completed part held next covers left =>
    generalize tagged : grammar.tagBehind position = tag at split'
    generalize ended : completed.set = stop at split'
    cases split' with
    | empty known bare =>
      simp only at same
      simp [Grammar.next?, same, bare] at next
    | @step waiting' position' _ symbol' completed' part' held' next' covers' left' =>
      obtain rfl := tagBehind_injective tagged same
      obtain rfl := Option.some.inj (next.symm.trans next')
      obtain ⟨front, back, rfl, -, last⟩ := Unfolds.split unfolds
      obtain ⟨front', back', whole, -, last'⟩ := Unfolds.split unfolds'
      -- the completed items stand for the last tree, and end at the same offset
      have lengths : back.length = back'.length :=
        (last.spells_single sound (.symbol covers)).length_eq.trans
          (last'.spells_single sound (.symbol covers')).length_eq.symm
      obtain ⟨-, rfl⟩ := List.append_inj' whole lengths
      obtain ⟨rfl, met⟩ := sound.covers_eq covers covers' ended last last'
      obtain rfl := sound.ref_unique held held' met
      rw [sound.leftPart_unique left left']

theorem Sound.derivation_unique (sound : chart.Sound grammar input) {ref : ItemRef} {tag : Tag}
    {start : Nat} (held : chart.Holds ref tag start) {derivation other : Derivation}
    (member : derivation ∈ chart.derivations ref) (member' : other ∈ chart.derivations ref)
    {children others : List Tree} (unfolds : chart.Unfolds derivation.children children)
    (unfolds' : chart.Unfolds other.children others)
    (same : tag.wrap derivation.production children = tag.wrap other.production others) :
    derivation = other := by
  have split := sound.derived held member
  have split' := sound.derived held member'
  have equal : derivation.production = other.production ∧ children = others := by
    cases tag with
    | lexeme offset => exact absurd rfl (split.not_lexeme offset)
    | dotted position =>
      exact ⟨(split.production sound).2.trans (split'.production sound).2.symm, same⟩
    | rule index => simpa [Tag.wrap] using same
  obtain ⟨production, rfl⟩ := equal
  exact split.eq_of_unfolds sound split' production unfolds unfolds'

end ChartParser.Chart
