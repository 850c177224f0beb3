import ChartParser.Proofs.Chart.Complete

namespace ChartParser

variable {α : Type} {grammar : Grammar α} {input : Array String} {start : Nat}

/-- What a successful parse leaves behind: a filled chart of the whole input, and in it the item
that the start rule has over the input. -/
structure Forest.Parsed {α : Type} (grammar : Grammar α) (start : Nat) (input : Array String)
    (forest : Forest) : Prop where
  filled : forest.chart.Filled grammar start input
  size : forest.chart.sets.size = input.size + 1
  root : forest.chart.Holds forest.root (.rule start) 0
  whole : forest.root.set = input.size

theorem Chart.Sound.find_iff {chart : Chart} (sound : chart.Sound grammar input) {tag : Tag}
    {first stop : Nat} {ref : ItemRef} : chart.find? tag first stop = some ref ↔
      ref.set = stop ∧ chart.Holds ref tag first :=
  Chart.find_iff_of_indexed sound.indexed

namespace Grammar

theorem parse_ok_iff {forest : Forest} : (grammar.parse start input).2 = .ok forest ↔
    (grammar.scan start input).stuck = none ∧
      forest.chart = ⟨(grammar.scan start input).sets⟩ ∧
      forest.chart.find? (.rule start) 0 input.size = some forest.root := by
  obtain ⟨chart, root⟩ := forest
  unfold parse
  rcases grammar.scan start input with ⟨sets, events, _ | offset⟩
  · cases found : Chart.find? ⟨sets⟩ (.rule start) 0 input.size with
    | none =>
      simp only [found, true_and]
      constructor
      · intro same
        cases same
      · intro equal
        obtain ⟨rfl, same⟩ := equal
        rw [found] at same
        cases same
    | some other =>
      simp only [found, true_and]
      constructor
      · rintro ⟨⟩
        exact ⟨rfl, found⟩
      · intro equal
        obtain ⟨rfl, same⟩ := equal
        rw [found] at same
        cases same
        rfl
  · simp

/-- A parse succeeds only with a filled chart of the whole input. -/
theorem parsed_of_parse (valid : grammar.WellFormed) {forest : Forest}
    (parsed : (grammar.parse start input).2 = .ok forest) :
    forest.Parsed grammar start input := by
  obtain ⟨open', same, found⟩ := parse_ok_iff.mp parsed
  have scanned := scanned_scan valid start input
  have filled : forest.chart.Filled grammar start input := same ▸ scanned.filled
  obtain ⟨whole, root⟩ := filled.sound.find_iff.mp found
  exact ⟨filled, by rw [same, scanned.size open'], root, whole⟩

theorem exists_forest_iff : (∃ forest, (grammar.parse start input).2 = .ok forest) ↔
    (grammar.parse start input).2.toOption.isSome = true := by
  cases (grammar.parse start input).2 <;> simp [Except.toOption]

theorem not_stuck {chart : Chart} (filled : chart.Filled grammar start input) {offset : Nat}
    {set : ItemSet} (found : chart.sets[offset + 1]? = some set) (single : set.items.size = 1) :
    ¬ chart.AwaitsLexeme grammar input offset := by
  intro awaits
  obtain ⟨waiting, position, first, token, lexeme, rfl, held, next, read, matched⟩ := awaits
  have inside := (Array.getElem?_eq_some_iff.mp found).1
  obtain ⟨completed, behind, held'⟩ := filled.lexemes inside
  have covers : chart.Covers grammar input completed (.token token) waiting.set :=
    .token held' behind read matched
  obtain ⟨ref, part, same, held'', -, -⟩ := (filled.handled held').joins held next covers
  have first_place {ref : ItemRef} {tag : Tag} {begin : Nat} (same : ref.set = waiting.set + 1)
      (held : chart.Holds ref tag begin) : ref.place = 0 := by
    have known : chart.sets[ref.set]? = some set := by rw [same, found]
    have inside := held.place_lt known
    omega
  have twice : ref = completed := by
    have place := first_place behind held'
    have place' := first_place (same.trans behind) held''
    cases ref
    cases completed
    simp_all
  rw [twice] at held''
  obtain ⟨-, tag⟩ | ⟨-, tag⟩ := Chart.tagBehind_cases grammar position
  · cases tag ▸ (held'.unique held'').1
  · cases tag ▸ (held'.unique held'').1

theorem parse_of_tree (valid : grammar.WellFormed) {tree : Tree}
    (parses : IsParseTree grammar input start tree) :
    ∃ forest, (grammar.parse start input).2 = .ok forest := by
  have scanned := scanned_scan valid start input
  cases stuck : (grammar.scan start input).stuck with
  | some offset =>
    obtain ⟨inside, set, found, size, single⟩ := scanned.stuck stuck
    have awaits := scanned.filled.awaits (by simp [size])
      (Spells.consumes parses (Nat.zero_le offset) inside)
    exact absurd awaits (not_stuck scanned.filled found single)
  | none =>
    have size := scanned.size stuck
    obtain ⟨root, whole, held, -⟩ := scanned.filled.reaches (by simp [size]) parses
    exact ⟨⟨_, root⟩, parse_ok_iff.mpr
      ⟨stuck, rfl, scanned.filled.sound.find_iff.mpr ⟨whole, held⟩⟩⟩

/-- The trees that the root of a parsed forest stands for are the parse trees of the input. -/
theorem unfolds_root_iff {forest : Forest} (parsed : forest.Parsed grammar start input)
    {tree : Tree} : forest.chart.Unfolds [forest.root] [tree] ↔
      IsParseTree grammar input start tree := by
  constructor
  · intro unfolds
    have spelled := unfolds.spells_single parsed.filled.sound (.symbol (.rule parsed.root))
    rwa [parsed.whole] at spelled
  · intro parses
    obtain ⟨root, whole, held, unfolds⟩ :=
      parsed.filled.reaches (by simp [parsed.size]) parses
    rwa [parsed.filled.sound.ref_unique parsed.root held (parsed.whole.trans whole.symm)]

/-- Recognition is exact: an input is parsed if and only if the start rule derives it. -/
theorem parse_succeeds_iff_derives {draft : Draft α} {range : IndexRange}
    (built : draft.build range = .ok grammar) (start : Nat) (input : Array String) :
    (∃ forest, (grammar.parse start input).2 = .ok forest) ↔
      grammar.Derives start input.toList := by
  have valid := Draft.build_wellFormed built
  rw [derives_iff_exists_tree]
  constructor
  · intro parsed
    obtain ⟨forest, success⟩ := parsed
    have parsed := parsed_of_parse valid success
    obtain ⟨trees, unfolds⟩ := parsed.filled.sound.grounded parsed.root trivial
    have spelled := unfolds.spells_single parsed.filled.sound (.symbol (.rule parsed.root))
    obtain ⟨tree, rfl⟩ := List.length_eq_one_iff.mp spelled.length_eq
    exact ⟨tree, (unfolds_root_iff parsed).mp unfolds⟩
  · intro derived
    obtain ⟨tree, parses⟩ := derived
    exact parse_of_tree valid parses

end Grammar

/-- Nested brackets, or nothing. -/
def Draft.brackets : Draft Unit :=
  .ofEntries "pair" [.production ⟨"pair", ["(", "pair", ")"], none, none⟩,
    .production ⟨"pair", [], none, none⟩]

theorem Draft.build_brackets :
    Draft.brackets.build .bits8 = .ok (Draft.brackets.number .bits8) :=
  Draft.build_eq_number (by decide +kernel) (by decide +kernel)

/-- Two brackets within each other are derived, since they are parsed; the other way round they are
not. -/
theorem Grammar.derives_brackets :
    (Draft.brackets.number .bits8).Derives 0 ["(", "(", ")", ")"] ∧
      ¬ (Draft.brackets.number .bits8).Derives 0 [")", "("] := by
  have parsed (input : Array String) :
      ((Draft.brackets.number .bits8).parse 0 input).2.toOption.isSome = true ↔
        (Draft.brackets.number .bits8).Derives 0 input.toList :=
    Grammar.exists_forest_iff.symm.trans
      (Grammar.parse_succeeds_iff_derives Draft.build_brackets 0 input)
  constructor
  · exact (parsed #["(", "(", ")", ")"]).mp (by decide +kernel)
  · intro derived
    exact absurd ((parsed #[")", "("]).mpr derived) (by decide +kernel)

end ChartParser
