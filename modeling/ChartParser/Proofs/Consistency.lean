import ChartParser.Proofs.Forest.Best
import ChartParser.Proofs.Forest.Survivors
import ChartParser.Proofs.Forest.Worklist
import ChartParser.Proofs.Traversal.Loop

/-! By a strict order of the productions, the derivations of an item that are built of resolved
nodes are compared by a total preorder, since they match the same symbols. So the one that is kept
is the first of the best ones. -/
namespace ChartParser

namespace Resolution

variable {chart : Chart} {resolution : Resolution} {α : Type} {grammar : Grammar α}
  {input : Array String} {prefer : Nat → Nat → Bool} {ref : ItemRef} {derivation : Derivation}

/-- The derivations of an item that are built of resolved nodes stand for trees that match the same
symbols, and they compare as these trees do. -/
theorem Progress.trees (sound : chart.Sound grammar input)
    (progress : Progress chart prefer resolution)
    (order : StrictOrder prefer grammar.productions.size)
    (member : derivation ∈ chart.derivations ref) :
    ∃ symbols start, ∃ trees : Derivation → List Tree,
      (∀ {other}, other ∈ chart.derivations ref ∧ resolution.Built other →
        Spells grammar input (trees other) symbols start ref.set) ∧
      ∀ {first second}, first ∈ chart.derivations ref ∧ resolution.Built first →
        second ∈ chart.derivations ref ∧ resolution.Built second →
        resolution.chart.compare prefer chart.itemCount first second =
          compareTrees prefer (trees first) (trees second) := by
  obtain ⟨tag, start, held⟩ := Chart.exists_holds member
  have split := sound.derived held member
  obtain ⟨symbols, matched⟩ := held.matches grammar input split.advanced split.not_lexeme
  have resolved (other : Derivation) (here : other ∈ chart.derivations ref ∧
      resolution.Built other) : ∃ children, resolution.chart.Unfolds other.children children :=
    progress.unfolds sound here.1 here.2
  choose! children unfolds using resolved
  refine ⟨symbols, start, fun other => tag.wrap other.production (children other), ?_, ?_⟩
  · intro other here
    have original := (unfolds other here).mono progress.extends
    exact (Chart.Unfolds.wrap held split.not_lexeme here.1 original).spells_single sound matched
  · intro first second here there
    exact progress.compare_built sound order held here.1 there.1 here.2 there.2
      (unfolds first here) (unfolds second there)

theorem Progress.preorder (sound : chart.Sound grammar input)
    (progress : Progress chart prefer resolution)
    (order : StrictOrder prefer grammar.productions.size) (ref : ItemRef) :
    TotalPreorder (fun derivation => derivation ∈ chart.derivations ref ∧
      resolution.Built derivation) (resolution.chart.compare prefer chart.itemCount) := by
  constructor
  · intro first here
    obtain ⟨symbols, start, trees, spelled, compared⟩ := progress.trees sound order here.1
    rw [compared here here]
    exact (spelled here).compare_self order
  · intro first second here there
    obtain ⟨symbols, start, trees, spelled, compared⟩ := progress.trees sound order here.1
    rw [compared here there, compared there here]
    exact (spelled here).compare_swap order (spelled there)
  · intro first second third here there beyond
    obtain ⟨symbols, start, trees, spelled, compared⟩ := progress.trees sound order here.1
    -- seen from the third one, what is not less is not greater
    rw [compared here there, compared there beyond, compared here beyond,
      (spelled there).compare_swap order (spelled here),
      (spelled beyond).compare_swap order (spelled there),
      (spelled beyond).compare_swap order (spelled here)]
    simp only [ne_eq, Ordering.swap_eq_lt]
    intro loses loses'
    exact ((spelled beyond).compare_chained order (spelled there) (spelled here)).ne_gt loses' loses

end Resolution

namespace Forest

open Resolution

variable {α : Type} {grammar : Grammar α} {input : Array String} {start : Nat} {forest : Forest}
  {prefer : Nat → Nat → Bool}

/-- At all moments, the derivations of an item that are built of resolved nodes are compared as in
the end. -/
theorem Sound.preorder (sound : forest.Sound grammar start input)
    (order : StrictOrder prefer grammar.productions.size) {resolution : Resolution}
    (passes : forest.Passes prefer resolution) (ref : ItemRef) :
    (resolution.chart.derivations ref).toList ⊆ (forest.chart.derivations ref).toList ∧
    TotalPreorder (fun derivation => derivation ∈ forest.chart.derivations ref ∧
      resolution.Built derivation) (resolution.chart.compare prefer forest.itemCount) ∧
    ∀ first second, resolution.Built first → resolution.Built second →
      resolution.chart.Decides prefer [(first, second)]
        (resolution.chart.compare prefer forest.itemCount first second) := by
  obtain ⟨last, resolved, progress, -⟩ := resolve_spec sound.chart sound.root trivial prefer
  have known := Chart.holds_iff_item.mp ⟨_, _, sound.root⟩
  obtain ⟨settling, later⟩ :=
    passes.settling sound.chart.closed known (resolved ▸ progress.settling)
  rw [resolved] at later
  refine ⟨?_, ?_, fun first second here there => settling.decides here there prefer⟩
  · intro derivation member
    cases done : resolution.resolved.contains ref with
    | false => rwa [settling.untouched done] at member
    | true =>
      rw [← later.derivations done, Array.mem_toList_iff] at member
      exact Array.mem_toList_iff.mpr (progress.extends.derivations member)
  · exact (progress.preorder sound.chart order ref).restrict
      (fun here => ⟨here.1, here.2.later later⟩)
      fun here there => compare_later settling later here.2 there.2 prefer forest.itemCount

/-- By a strict order of the productions, derivations are compared consistently. At every moment of
a disambiguation of a parsed forest, also after others, those derivations of an item of which all
children have been resolved are compared by a total preorder, and so are those that the item has
left. Without a limit on its depth, the comparison would give the same. The derivation that an item
keeps in the end has survived: its children have been resolved in turn, and it has been compared. It
is beaten by none that has survived, and it beats all of these that were found before it. -/
theorem comparison_consistent {draft : Draft α} {range : IndexRange}
    (built : draft.build range = .ok grammar)
    (success : (grammar.parse start input).2 = .ok forest)
    (preferences : List (Nat → Nat → Bool))
    (order : StrictOrder prefer grammar.productions.size) :
    let before := forest.disambiguateAll preferences
    let after := (before.disambiguate prefer).1
    let compare := after.chart.compare prefer before.itemCount
    (∀ resolution, before.Passes prefer resolution → ∀ ref,
      (resolution.chart.derivations ref).toList ⊆ (before.chart.derivations ref).toList ∧
      TotalPreorder (fun derivation => derivation ∈ before.chart.derivations ref ∧
        resolution.Built derivation) (resolution.chart.compare prefer before.itemCount) ∧
      ∀ first second, resolution.Built first → resolution.Built second →
        resolution.chart.Decides prefer [(first, second)]
          (resolution.chart.compare prefer before.itemCount first second)) ∧
    ∀ ref,
      (∀ derivation, before.Survives prefer ref derivation →
        (before.resolve prefer).1.resolved.contains ref = true) ∧
      ((before.resolve prefer).1.resolved.contains ref = true →
        before.chart.derivations ref ≠ #[] →
        ∃ kept, after.chart.derivations ref = #[kept] ∧ before.Survives prefer ref kept ∧
          ∀ derivation, before.Survives prefer ref derivation →
            compare derivation kept ≠ .gt ∧
            ([derivation, kept].Sublist (before.chart.derivations ref).toList →
              compare kept derivation = .gt)) := by
  have parsed := Grammar.parsed_of_parse (Draft.build_wellFormed built) success
  have sound := parsed.sound.disambiguateAll preferences
  intro before after compare
  have closed : before.chart.Closed := sound.chart.closed
  have known : (before.chart.item? before.root).isSome = true :=
    Chart.holds_iff_item.mp ⟨_, _, sound.root⟩
  refine ⟨fun resolution passes ref => sound.preorder order passes ref, fun ref => ?_⟩
  have conceded {derivation : Derivation} (survives : before.Survives prefer ref derivation) :=
    survives.concedes closed known (sound.chart.nodup_derivations ref)
      (sound.preorder order .finish ref).2.1
  refine ⟨fun derivation survives => (conceded survives).2.1, fun done several => ?_⟩
  obtain ⟨-, kept, sole, survives⟩ := vouches_resolve closed known several done
  refine ⟨kept, sole, survives, fun derivation survives => ?_⟩
  obtain ⟨-, -, best, sole', concedes⟩ := conceded survives
  obtain rfl : kept = best := by simpa using sole.symm.trans sole'
  exact ⟨concedes.loses, concedes.earlier⟩

/-- Of the two ways to split a sum of three, both survive, and the one that is kept is not beaten by
the other one. -/
theorem comparison_consistent_sums :
    ∃ forest, ((Draft.sums.number .bits8).parse 0 #["x", "+", "x", "+", "x"]).2 = .ok forest ∧
      let after := (forest.disambiguate (· > ·)).1
      ∃ kept other, kept ≠ other ∧ after.chart.derivations forest.root = #[kept] ∧
        forest.Survives (· > ·) forest.root kept ∧ forest.Survives (· > ·) forest.root other ∧
        after.chart.compare (· > ·) forest.itemCount other kept ≠ .gt := by
  obtain ⟨forest, success, several, -⟩ := Draft.parse_sums
  have order : StrictOrder (· > ·) (Draft.sums.number .bits8).productions.size :=
    ⟨by simp, by simp; omega, by simp; omega⟩
  obtain ⟨left, keeps⟩ :=
    (comparison_consistent Draft.build_sums success [] order).2 forest.root
  have derived : forest.chart.derivations forest.root ≠ #[] := by
    intro bare
    rw [bare] at several
    cases several
  have checked : ((Draft.sums.number .bits8).parse 0 #["x", "+", "x", "+", "x"]).2.toOption.all
      (fun forest : Forest => decide (
        (∃ config ∈ (traversal (· > ·) forest.itemCount).after 30 forest.opening,
          Accepts config forest.root ⟨some ⟨4, 2⟩, some ⟨5, 1⟩, 0⟩) ∧
        ∃ config ∈ (traversal (· > ·) forest.itemCount).after 44 forest.opening,
          Accepts config forest.root ⟨some ⟨2, 1⟩, some ⟨5, 2⟩, 0⟩)) = true := by
    decide +kernel
  simp only [success, Except.toOption, Option.all_some, decide_eq_true_eq] at checked
  have survives {steps : Nat} {derivation : Derivation}
      (accepted : ∃ config ∈ (traversal (· > ·) forest.itemCount).after steps forest.opening,
        Accepts config forest.root derivation) :
      forest.Survives (· > ·) forest.root derivation := by
    obtain ⟨config, found, accepts⟩ := accepted
    exact ⟨config, (Resolves.opening derived _).after found, accepts⟩
  have first := survives checked.1
  have second := survives checked.2
  obtain ⟨kept, sole, survivor, beats⟩ := keeps (left _ first) derived
  by_cases same : kept = ⟨some ⟨4, 2⟩, some ⟨5, 1⟩, 0⟩
  · refine ⟨forest, success, kept, _, ?_, sole, survivor, second, (beats _ second).1⟩
    rw [same]
    decide
  · exact ⟨forest, success, kept, _, same, sole, survivor, first, (beats _ first).1⟩

end Forest

end ChartParser
