import ChartParser.Proofs.Disambiguation
import ChartParser.Proofs.Forest.Choices

/-! Preferences with ties, such as priorities, where disambiguation need not find a best tree.
Still, no derivation is kept in favour of one with the same children and a preferred production. -/
namespace ChartParser

/-- The preference is a strict weak order on the productions below a number: it is strict and
transitive, and what is tied with something tied is tied, too. -/
structure WeakOrder (prefer : Nat → Nat → Bool) (count : Nat) : Prop where
  irrefl : ∀ {first}, first < count → prefer first first = false
  trans : ∀ {first second third}, first < count → second < count → third < count →
    prefer first second = true → prefer second third = true → prefer first third = true
  tied : ∀ {first second third}, first < count → second < count → third < count →
    prefer first second = false → prefer second first = false →
    prefer second third = false → prefer third second = false →
    prefer first third = false ∧ prefer third first = false

section WeakOrder

variable {prefer : Nat → Nat → Bool} {count first second third : Nat}

theorem WeakOrder.asymm (order : WeakOrder prefer count) (known : first < count)
    (known' : second < count) (wins : prefer first second = true) :
    prefer second first = false := by
  rw [Bool.eq_false_iff]
  intro wins'
  have loses := order.irrefl known
  rw [order.trans known known' known wins wins'] at loses
  cases loses

/-- What is not preferred to a production is not preferred to one that does at least as well. -/
theorem WeakOrder.climbs (order : WeakOrder prefer count) (known : first < count)
    (known' : second < count) (known'' : third < count) (loses : prefer first second = false)
    (loses' : prefer second third = false) : prefer first third = false := by
  rw [Bool.eq_false_iff]
  intro wins
  by_cases up : prefer second first = true
  · rw [order.trans known' known known'' up wins] at loses'
    cases loses'
  · by_cases down : prefer third second = true
    · rw [order.trans known known'' known' wins down] at loses
      cases loses
    · rw [Bool.not_eq_true] at up down
      rw [(order.tied known known' known'' loses up loses' down).1] at wins
      cases wins

/-- Any mix of explicit, equal and default priorities is a strict weak order. -/
theorem Grammar.weakOrder_higherPriority {α : Type} (grammar : Grammar α) (count : Nat) :
    WeakOrder grammar.higherPriority count where
  irrefl _ := by simp [higherPriority]
  trans _ _ _ wins wins' := by
    simp only [higherPriority, decide_eq_true_eq] at wins wins' ⊢
    omega
  tied _ _ _ loses loses' loses'' loses''' := by
    simp only [higherPriority, decide_eq_false_iff_not] at loses loses' loses'' loses''' ⊢
    omega

end WeakOrder

namespace Resolution

variable {chart : Chart} {prefer : Nat → Nat → Bool} {count : Nat} {resolution : Resolution}
  {depth : Nat} {first second : Derivation}

theorem loses_of_better (order : WeakOrder prefer count) (known : first.production < count)
    (known' : second.production < count)
    (wins : resolution.better prefer depth first second = true) :
    prefer second.production first.production = false := by
  rw [better, decide_eq_true_eq, Chart.compare, Chart.comparePending_cons,
    comparePreference] at wins
  by_cases same : first.production = second.production
  · rw [same]
    exact order.irrefl known'
  · by_cases preferred : prefer first.production second.production = true
    · exact order.asymm known known' preferred
    · rw [if_neg same, if_neg preferred] at wins
      by_contra loses
      rw [Bool.not_eq_false] at loses
      rw [if_pos loses] at wins
      cases wins

theorem loses_of_not_better (order : WeakOrder prefer count) (known : first.production < count)
    (loses : resolution.better prefer depth first second = false) :
    prefer first.production second.production = false := by
  rw [Bool.eq_false_iff]
  intro preferred
  have apart : first.production ≠ second.production := by
    intro same
    rw [← same, order.irrefl known] at preferred
    cases preferred
  rw [better, decide_eq_false_iff_not, Chart.compare, Chart.comparePending_cons,
    comparePreference, if_neg apart, if_pos preferred] at loses
  exact loses rfl

/-- The comparisons of tied derivations need not fit together, but no candidate has a production
that is preferred to that of the elected one. -/
theorem elect_preferred (order : WeakOrder prefer count) {candidates : List Derivation}
    (known : ∀ candidate ∈ candidates, candidate.production < count) {winner : Derivation}
    (won : elect (resolution.better prefer depth) candidates = some winner) :
    ∀ candidate ∈ candidates, prefer candidate.production winner.production = false := by
  apply elect_bounds (fun first second => prefer first.production second.production = false)
    (fun candidate member => order.irrefl (known candidate member)) ?_ ?_ won
  · intro first member second member' third member'' loses wins
    have loses' := loses_of_better order (known third member'') (known second member') wins
    exact order.climbs (known first member) (known second member') (known third member'') loses
      loses'
  · intro first member second _ loses
    exact loses_of_not_better order (known first member) loses

end Resolution

namespace Forest

open Relation Resolution

variable {α : Type} {grammar : Grammar α} {input : Array String} {start : Nat}

/-- Disambiguation obeys priorities. For every forest, cyclic or not, and every preference that is a
strict weak order of the productions, as the priorities of any grammar are: no node is left with a
derivation if it had another one with the same children and a preferred production. And if no node
is its own descendant, then a node that is changed is left with a derivation that it had, and none
of those that it had has a production preferred to that one. -/
theorem disambiguate_priority {draft : Draft α} {range : IndexRange}
    (built : draft.build range = .ok grammar) {forest : Forest}
    (success : (grammar.parse start input).2 = .ok forest) :
    WeakOrder grammar.higherPriority grammar.productions.size ∧
    ∀ prefer, WeakOrder prefer grammar.productions.size →
      let before := forest.chart.derivations
      let after := (forest.disambiguate prefer).1.chart.derivations
      (∀ ref, ∀ first ∈ before ref, ∀ second ∈ before ref,
        first.left = second.left → first.right = second.right →
        prefer first.production second.production = true → after ref ≠ #[second]) ∧
      (forest.chart.Acyclic forest.root → ∀ ref, after ref ≠ before ref →
        ∃ kept ∈ before ref, after ref = #[kept] ∧
          ∀ derivation ∈ before ref, prefer derivation.production kept.production = false) := by
  refine ⟨grammar.weakOrder_higherPriority _, fun prefer order => ?_⟩
  have parsed := Grammar.parsed_of_parse (Draft.build_wellFormed built) success
  have sound := parsed.filled.sound
  obtain ⟨resolution, resolved, left, progress, -⟩ := parsed.disambiguate prefer
  have known {ref : ItemRef} {derivation : Derivation}
      (member : derivation ∈ forest.chart.derivations ref) :
      derivation.production < grammar.productions.size := by
    obtain ⟨tag, first, held⟩ := Chart.exists_holds member
    exact ((sound.derived held member).production sound).1
  have elected {ref : ItemRef} {survivors : List Derivation} {kept : Derivation}
      (among : survivors.Sublist (forest.chart.derivations ref).toList)
      (won : elect (resolution.better prefer forest.chart.itemCount) survivors = some kept) :=
    elect_preferred order (fun candidate member =>
      known (Array.mem_toList_iff.mp (among.mem member))) won
  rw [left]
  constructor
  · intro ref first member second member' same same' preferred sole
    have apart : first ≠ second := by
      rintro rfl
      rw [order.irrefl (known member)] at preferred
      cases preferred
    cases done : resolution.resolved.contains ref with
    | false =>
      rw [← progress.untouched done, sole, Array.mem_singleton] at member
      exact apart member
    | true =>
      rcases progress.kept done with
        ⟨bare, -⟩ | ⟨kept, sole', survivors, among, -, -, together, won⟩
      · rw [bare] at member
        exact absurd member (Array.not_mem_empty _)
      · obtain rfl : kept = second := by simpa using sole'.symm.trans sole
        have children : first.children = kept.children := by
          rw [Derivation.children, Derivation.children, same, same']
        have survives := together kept (elect_mem won) first (Array.mem_toList_iff.mpr member)
          children
        rw [elected among won first survives] at preferred
        cases preferred
  · intro acyclic ref changed
    have reached : ReflTransGen forest.chart.Child forest.root ref := by
      apply forest.reaches_of_changed prefer
      rwa [resolved]
    have acyclic' : forest.chart.Acyclic ref := fun node below =>
      acyclic node (reached.trans below)
    cases done : resolution.resolved.contains ref with
    | false => exact absurd (progress.untouched done) changed
    | true =>
      rcases progress.kept done with
        ⟨bare, bare'⟩ | ⟨kept, sole, survivors, among, -, all, -, won⟩
      · exact absurd (bare'.trans bare.symm) changed
      · obtain rfl := all acyclic'
        refine ⟨kept, Array.mem_toList_iff.mp (elect_mem won), sole, fun derivation member => ?_⟩
        exact elected among won derivation (Array.mem_toList_iff.mpr member)

end Forest

/-- A rule that stands for itself, or for a lexeme in three ways, the last two of which are tied. -/
def Draft.ranks : Draft Unit :=
  .ofEntries "rank" [.production ⟨"rank", ["rank"], none, none⟩,
    .production ⟨"rank", ["x"], some 7, none⟩, .production ⟨"rank", ["x"], some 9, none⟩,
    .production ⟨"rank", ["x"], some 9, none⟩]

theorem Draft.build_ranks : Draft.ranks.build .bits8 = .ok (Draft.ranks.number .bits8) :=
  Draft.build_eq_number (by decide +kernel) (by decide +kernel)

/-- A lexeme is not left with the way of the lowest priority, although its node is its own child. A
sum without cycles is left with a derivation that no other one of its node is preferred to. -/
theorem Forest.disambiguate_priority_ranks :
    (∃ forest, ((Draft.ranks.number .bits8).parse 0 #["x"]).2 = .ok forest ∧
      forest.chart.Child forest.root forest.root ∧
      ∃ first ∈ forest.chart.derivations forest.root,
        ∃ second ∈ forest.chart.derivations forest.root,
          first.left = second.left ∧ first.right = second.right ∧
          (Draft.ranks.number .bits8).higherPriority first.production second.production = true ∧
          (forest.disambiguate (Draft.ranks.number .bits8).higherPriority).1.chart.derivations
            forest.root ≠ #[second]) ∧
    ∃ forest, ((Draft.sums.number .bits8).parse 0 #["x", "+", "x", "+", "x"]).2 = .ok forest ∧
      forest.chart.Acyclic forest.root ∧
      let after :=
        (forest.disambiguate (Draft.sums.number .bits8).higherPriority).1.chart.derivations
      after forest.root ≠ forest.chart.derivations forest.root ∧
      ∃ kept ∈ forest.chart.derivations forest.root, after forest.root = #[kept] ∧
        ∀ derivation ∈ forest.chart.derivations forest.root,
          (Draft.sums.number .bits8).higherPriority derivation.production kept.production =
            false := by
  constructor
  · obtain ⟨forest, success⟩ := Grammar.exists_forest_iff.mpr (show
      ((Draft.ranks.number .bits8).parse 0 #["x"]).2.toOption.isSome = true by decide +kernel)
    have checked : ((Draft.ranks.number .bits8).parse 0 #["x"]).2.toOption.all (fun forest =>
        decide ((∃ derivation ∈ (forest.chart.derivations forest.root).toList,
          forest.root ∈ derivation.children) ∧
          ∃ first ∈ (forest.chart.derivations forest.root).toList,
            ∃ second ∈ (forest.chart.derivations forest.root).toList,
              first.left = second.left ∧ first.right = second.right ∧
              (Draft.ranks.number .bits8).higherPriority first.production second.production =
                true)) = true := by
      decide +kernel
    simp only [success, Except.toOption, Option.all_some, decide_eq_true_eq,
      Array.mem_toList_iff] at checked
    obtain ⟨cycle, first, member, second, member', left, right, preferred⟩ := checked
    obtain ⟨order, law⟩ := Forest.disambiguate_priority Draft.build_ranks success
    exact ⟨forest, success, cycle, first, member, second, member', left, right, preferred,
      (law _ order).1 forest.root first member second member' left right preferred⟩
  · obtain ⟨forest, success, several, acyclic⟩ := Draft.parse_sums
    obtain ⟨order, law⟩ := Forest.disambiguate_priority Draft.build_sums success
    have narrow := ((Grammar.parsed_of_parse (Draft.build_wellFormed Draft.build_sums)
      success).single_left (Draft.sums.number .bits8).higherPriority).1 _ .refl
    have changed :
        (forest.disambiguate (Draft.sums.number .bits8).higherPriority).1.chart.derivations
          forest.root ≠ forest.chart.derivations forest.root := by
      intro same
      rw [← same] at several
      exact absurd narrow (Nat.not_le_of_lt several)
    exact ⟨forest, success, acyclic, changed, (law _ order).2 acyclic forest.root changed⟩

end ChartParser
