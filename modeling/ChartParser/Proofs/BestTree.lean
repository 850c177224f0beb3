import ChartParser.Proofs.Forest.Best

namespace ChartParser

open Relation Resolution

/-- Without explicit priorities, what is declared earlier is preferred. -/
theorem Draft.higherPriority_number {α : Type} {draft : Draft α} {range : IndexRange}
    (plain : ∀ declaration ∈ draft.declarations, declaration.priority = none) {first second : Nat}
    (known : first < draft.declarations.size) (known' : second < draft.declarations.size) :
    (draft.number range).higherPriority first second = decide (first < second) := by
  have priority {place : Nat} (known : place < draft.declarations.size) :
      (draft.number range).priority place = (draft.declarations.size - place : Nat) := by
    simp [Grammar.priority, Draft.number, known,
      plain _ (Array.getElem_mem known)]
  rw [Grammar.higherPriority, priority known, priority known']
  apply decide_eq_decide.mpr
  omega

theorem Draft.strictOrder_number {α : Type} {draft : Draft α} {range : IndexRange}
    (plain : ∀ declaration ∈ draft.declarations, declaration.priority = none) :
    StrictOrder (draft.number range).higherPriority draft.declarations.size where
  irrefl known := by simp [higherPriority_number plain known known]
  trans known known' known'' wins wins' := by
    rw [higherPriority_number plain known known', decide_eq_true_eq] at wins
    rw [higherPriority_number plain known' known'', decide_eq_true_eq] at wins'
    rw [higherPriority_number plain known known'', decide_eq_true_eq]
    exact wins.trans wins'
  total known known' apart := by
    rw [higherPriority_number plain known known', higherPriority_number plain known' known,
      decide_eq_true_eq, decide_eq_true_eq]
    exact Nat.lt_or_gt_of_ne apart

namespace Forest

variable {α : Type} {grammar : Grammar α} {input : Array String} {start : Nat}

/-- The forest stands for exactly one tree, which is a parse tree that no other one beats. -/
def IsBest {α : Type} (grammar : Grammar α) (input : Array String) (start : Nat)
    (prefer : Nat → Nat → Bool) (forest : Forest) : Prop :=
  ∃ tree, IsParseTree grammar input start tree ∧
    (∀ trees, forest.chart.Unfolds [forest.root] trees ↔ trees = [tree]) ∧
    ∀ other, IsParseTree grammar input start other → compareTree prefer other tree ≠ .gt

theorem Parsed.isBest {forest : Forest} (parsed : forest.Parsed grammar start input)
    (acyclic : forest.chart.Acyclic forest.root) {prefer : Nat → Nat → Bool}
    (order : StrictOrder prefer grammar.productions.size) :
    (forest.disambiguate prefer).1.IsBest grammar input start prefer := by
  obtain ⟨resolution, -, left, progress, done⟩ := parsed.disambiguate prefer
  obtain ⟨tree, parses, unfolds⟩ := parsed.tree_left progress done
  rw [left]
  refine ⟨tree, parses, unfolds, fun other parses' => ?_⟩
  rw [← compareTrees_singleton]
  apply unfolds_best parsed.filled.sound progress order
    ((Grammar.unfolds_root_iff parsed).mpr parses')
  · intro ref listed
    obtain rfl := List.mem_singleton.mp listed
    exact ⟨⟨_, _, parsed.root, trivial⟩, acyclic, done⟩
  · exact (unfolds _).mpr rfl

/-- Disambiguation picks a globally best tree: if no node is its own descendant, the parse tree
that is left is not beaten by any parse tree of the input, for every strict order of the
productions, such as that by their priorities if none is explicit. -/
theorem disambiguate_best {draft : Draft α} {range : IndexRange}
    (built : draft.build range = .ok grammar) {forest : Forest}
    (success : (grammar.parse start input).2 = .ok forest)
    (acyclic : forest.chart.Acyclic forest.root) :
    (∀ prefer, StrictOrder prefer grammar.productions.size →
      (forest.disambiguate prefer).1.IsBest grammar input start prefer) ∧
    ((∀ declaration ∈ draft.declarations, declaration.priority = none) →
      (forest.disambiguate grammar.higherPriority).1.IsBest grammar input start
        grammar.higherPriority) := by
  have parsed := Grammar.parsed_of_parse (Draft.build_wellFormed built) success
  constructor
  · intro prefer order
    exact parsed.isBest acyclic order
  · intro plain
    obtain ⟨rfl, -⟩ := Draft.of_build built
    apply parsed.isBest acyclic
    rw [Draft.productions_number]
    exact Draft.strictOrder_number plain

end Forest

/-- A sum of three is left with one tree, and no other tree of it is better. -/
theorem Forest.disambiguate_sums :
    ∃ forest, ((Draft.sums.number .bits8).parse 0 #["x", "+", "x", "+", "x"]).2 = .ok forest ∧
      1 < (forest.chart.derivations forest.root).size ∧
      (forest.disambiguate fun first second => second < first).1.IsBest (Draft.sums.number .bits8)
        #["x", "+", "x", "+", "x"] 0 (fun first second => second < first) ∧
      (forest.disambiguate (Draft.sums.number .bits8).higherPriority).1.IsBest
        (Draft.sums.number .bits8) #["x", "+", "x", "+", "x"] 0
        (Draft.sums.number .bits8).higherPriority := by
  obtain ⟨forest, success, several, acyclic⟩ := Draft.parse_sums
  have best := Forest.disambiguate_best Draft.build_sums success acyclic
  have late : StrictOrder (fun first second => second < first)
      (Draft.sums.number .bits8).productions.size :=
    ⟨by simp, by simp; omega, by simp; omega⟩
  exact ⟨forest, success, several, best.1 _ late, best.2 (by decide +kernel)⟩

end ChartParser
