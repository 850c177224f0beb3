import ChartParser.Proofs.Forest.Comparison
import ChartParser.Proofs.Forest.Distinct

namespace ChartParser

namespace Resolution

variable {chart : Chart} {resolution : Resolution} {α : Type} {grammar : Grammar α}
  {input : Array String} {prefer : Nat → Nat → Bool} {ref : ItemRef} {tag : Tag} {start : Nat}

private theorem compare_wrap (tag : Tag) (order : StrictOrder prefer grammar.productions.size)
    {production : Nat} (known : production < grammar.productions.size) {trees others : List Tree}
    (compared : compareTrees prefer trees others ≠ .gt) :
    compareTrees prefer (tag.wrap production trees) (tag.wrap production others) ≠ .gt := by
  cases tag with
  | lexeme offset => simp [Tag.wrap]
  | dotted position => exact compared
  | rule index =>
    rw [Tag.wrap, Tag.wrap, compareTrees_rule order known known, comparePreference_self,
      compareTrees_nil, Ordering.then_eq]
    exact compared

/-- A resolved node that has matched something, and below which no node is its own descendant. -/
structure Chosen (chart : Chart) (resolution : Resolution) (ref : ItemRef) : Prop where
  advanced : ∃ tag start, chart.Holds ref tag start ∧ tag.Advanced
  acyclic : chart.Acyclic ref
  done : resolution.resolved.contains ref = true

theorem Chosen.elected (chosen : Chosen chart resolution ref)
    (progress : Progress chart prefer resolution) {derivation : Derivation}
    (member : derivation ∈ chart.derivations ref) : resolution.Built derivation ∧
      ∀ winner ∈ resolution.chart.derivations ref,
        elect (resolution.better prefer chart.itemCount) (chart.derivations ref).toList =
          some winner := by
  rcases progress.kept chosen.done with
    ⟨bare, -⟩ | ⟨elected, sole, survivors, -, built, all, -, won⟩
  · rw [bare] at member
    exact absurd member (Array.not_mem_empty _)
  · obtain rfl := all chosen.acyclic
    refine ⟨built derivation (Array.mem_toList_iff.mpr member), fun winner kept => ?_⟩
    rw [sole, Array.mem_singleton] at kept
    rw [kept]
    exact won

theorem Chosen.children (chosen : Chosen chart resolution ref) (sound : chart.Sound grammar input)
    (progress : Progress chart prefer resolution) {derivation : Derivation}
    (member : derivation ∈ chart.derivations ref) :
    ∀ child ∈ derivation.children, Chosen chart resolution child := by
  intro child listed
  have below : chart.Child ref child := ⟨derivation, member, listed⟩
  have built := (chosen.elected progress member).1
  exact ⟨sound.child below, chosen.acyclic.child below, built child listed⟩

theorem Progress.unfolds (sound : chart.Sound grammar input)
    (progress : Progress chart prefer resolution) {derivation : Derivation}
    (member : derivation ∈ chart.derivations ref) (built : resolution.Built derivation) :
    ∃ trees, resolution.chart.Unfolds derivation.children trees := by
  apply unfolds_all
  intro child listed
  obtain ⟨tag, start, held, advanced⟩ := sound.child ⟨derivation, member, listed⟩
  exact (progress.settled (built child listed)).unfolds sound progress held advanced

theorem Progress.compare_built (sound : chart.Sound grammar input)
    (progress : Progress chart prefer resolution)
    (order : StrictOrder prefer grammar.productions.size) (held : chart.Holds ref tag start)
    {derivation other : Derivation} (member : derivation ∈ chart.derivations ref)
    (member' : other ∈ chart.derivations ref) (built : resolution.Built derivation)
    (built' : resolution.Built other) {trees others : List Tree}
    (unfolds : resolution.chart.Unfolds derivation.children trees)
    (unfolds' : resolution.chart.Unfolds other.children others) :
    resolution.chart.compare prefer chart.itemCount derivation other =
      compareTrees prefer (tag.wrap derivation.production trees)
        (tag.wrap other.production others) := by
  have settled {candidate : Derivation} (built : resolution.Built candidate) :
      ∀ child ∈ candidate.children, resolution.Settled chart.itemCount child :=
    fun child listed => (progress.settled (built child listed)).mono (Nat.sub_le _ _)
  exact Agrees.derivations (agrees sound progress order chart.itemCount) sound progress order
    (sound.derived held member) (sound.derived held member') (settled built) (settled built')
    unfolds unfolds'

theorem Chosen.spells (chosen : Chosen chart resolution ref) (sound : chart.Sound grammar input)
    (held : chart.Holds ref tag start) (plain : ∀ offset, tag ≠ .lexeme offset) :
    ∃ symbols, ∀ {derivation trees}, derivation ∈ chart.derivations ref →
      chart.Unfolds derivation.children trees →
      Spells grammar input (tag.wrap derivation.production trees) symbols start ref.set := by
  obtain ⟨other, first, held', advanced⟩ := chosen.advanced
  obtain ⟨rfl, rfl⟩ := held.unique held'
  obtain ⟨symbols, matched⟩ := held.matches grammar input advanced plain
  exact ⟨symbols, fun member unfolds =>
    (Chart.Unfolds.wrap held plain member unfolds).spells_single sound matched⟩

/-- No derivation of a node is better than the one that is left, if the children of each are
unfolded as they have been resolved. -/
theorem Chosen.kept_best (chosen : Chosen chart resolution ref) (sound : chart.Sound grammar input)
    (progress : Progress chart prefer resolution)
    (order : StrictOrder prefer grammar.productions.size) (held : chart.Holds ref tag start)
    {derivation winner : Derivation} (member : derivation ∈ chart.derivations ref)
    (kept : winner ∈ resolution.chart.derivations ref) {trees others : List Tree}
    (unfolds : resolution.chart.Unfolds derivation.children trees)
    (unfolds' : resolution.chart.Unfolds winner.children others) :
    compareTrees prefer (tag.wrap derivation.production trees)
      (tag.wrap winner.production others) ≠ .gt := by
  obtain ⟨symbols, spelled⟩ := chosen.spells sound held (sound.derived held member).not_lexeme
  have built {candidate : Derivation} (member : candidate ∈ chart.derivations ref) :
      resolution.Built candidate := (chosen.elected progress member).1
  have compared {first second : Derivation} (member : first ∈ chart.derivations ref)
      (member' : second ∈ chart.derivations ref) {trees others : List Tree}
      (unfolds : resolution.chart.Unfolds first.children trees)
      (unfolds' : resolution.chart.Unfolds second.children others) :=
    progress.compare_built sound order held member member' (built member) (built member') unfolds
      unfolds'
  have listed {candidate : Derivation} (member : candidate ∈ (chart.derivations ref).toList) :
      candidate ∈ chart.derivations ref ∧
        ∃ trees, resolution.chart.Unfolds candidate.children trees :=
    have member := Array.mem_toList_iff.mp member
    ⟨member, progress.unfolds sound member (built member)⟩
  have extends' := progress.extends
  rw [← compared member (extends'.derivations kept) unfolds unfolds']
  refine of_decide_eq_false (elect_best ?_ ?_ ((chosen.elected progress member).2 winner kept)
    derivation (Array.mem_toList_iff.mpr member))
  · intro candidate member
    obtain ⟨member, trees, unfolds⟩ := listed member
    rw [better, compared member member unfolds unfolds,
      (spelled member (unfolds.mono extends')).compare_self order]
    rfl
  · intro first member second member' third member'' loses wins
    obtain ⟨member, trees, unfolds⟩ := listed member
    obtain ⟨member', others, unfolds'⟩ := listed member'
    obtain ⟨member'', more, unfolds''⟩ := listed member''
    rw [better, compared member member' unfolds unfolds', decide_eq_false_iff_not] at loses
    rw [better, compared member'' member' unfolds'' unfolds', decide_eq_true_eq] at wins
    rw [better, compared member member'' unfolds unfolds'', decide_eq_false_iff_not]
    have first_spelled := spelled member (unfolds.mono extends')
    have second_spelled := spelled member' (unfolds'.mono extends')
    have third_spelled := spelled member'' (unfolds''.mono extends')
    apply (first_spelled.compare_chained order second_spelled third_spelled).ne_gt loses
    rw [third_spelled.compare_swap order second_spelled, wins]
    exact Ordering.noConfusion

theorem then_ne_gt {first second : Ordering} (here : first ≠ .gt) (there : second ≠ .gt) :
    first.then second ≠ .gt := by
  cases first with
  | lt => exact Ordering.noConfusion
  | eq => exact there
  | gt => exact absurd rfl here

/-- If no trees below a derivation and beside the node beat those that are left there, no trees of
the derivation do. -/
private theorem Chosen.node_best (chosen : Chosen chart resolution ref)
    (sound : chart.Sound grammar input) (progress : Progress chart prefer resolution)
    (order : StrictOrder prefer grammar.productions.size) (held : chart.Holds ref tag start)
    {derivation : Derivation} (member : derivation ∈ chart.derivations ref)
    {children trees kept : List Tree} (inner : chart.Unfolds derivation.children children)
    (below : (∀ child ∈ derivation.children, Chosen chart resolution child) →
      ∀ {others}, resolution.chart.Unfolds derivation.children others →
        compareTrees prefer children others ≠ .gt)
    {nodes : List ItemRef} (beside : ∀ {others}, resolution.chart.Unfolds nodes others →
      compareTrees prefer trees others ≠ .gt)
    (left : resolution.chart.Unfolds ([ref] ++ nodes) kept) :
    compareTrees prefer (tag.wrap derivation.production children ++ trees) kept ≠ .gt := by
  have split := sound.derived held member
  have extends' := progress.extends
  obtain ⟨symbols, spelled⟩ := chosen.spells sound held split.not_lexeme
  obtain ⟨front, back, rfl, here, there⟩ := left.split
  obtain ⟨winner, remains, others, unfolds, rfl⟩ :=
    here.unwrap (progress.holds.mpr held) split.not_lexeme
  obtain ⟨resolved, unfolds'⟩ :=
    progress.unfolds sound member (chosen.elected progress member).1
  -- from the given trees to the resolved ones of the same derivation, and on to the kept one
  have improved := compare_wrap tag order (split.production sound).1
    (below (chosen.children sound progress member) unfolds')
  have elected := chosen.kept_best sound progress order held member remains unfolds' unfolds
  have original := spelled member inner
  have spelled' := spelled member (unfolds'.mono extends')
  have spelled'' := spelled (extends'.derivations remains) (unfolds.mono extends')
  rw [original.compare_append order spelled'']
  exact then_ne_gt ((original.compare_chained order spelled' spelled'').ne_gt improved elected)
    (beside there)

/-- No trees that nodes stand for beat those that they are left with. -/
theorem unfolds_best (sound : chart.Sound grammar input)
    (progress : Progress chart prefer resolution)
    (order : StrictOrder prefer grammar.productions.size) {nodes : List ItemRef}
    {trees kept : List Tree} (unfolds : chart.Unfolds nodes trees)
    (chosen : ∀ ref ∈ nodes, Chosen chart resolution ref)
    (left : resolution.chart.Unfolds nodes kept) : compareTrees prefer trees kept ≠ .gt := by
  induction unfolds generalizing kept with
  | nil =>
    cases left
    simp
  | lexeme held rest ih =>
    rw [List.forall_mem_cons] at chosen
    cases left with
    | lexeme held' rest' =>
      rw [compareTrees_lexeme]
      exact ih chosen.2 rest'
    | dotted held' => cases (held.unique (progress.holds.mp held')).1
    | rule held' => cases (held.unique (progress.holds.mp held')).1
  | dotted held member inner rest ih ih' =>
    rw [List.forall_mem_cons] at chosen
    exact chosen.1.node_best sound progress order held member inner (fun below => ih below)
      (ih' chosen.2) left
  | rule held member inner rest ih ih' =>
    rw [List.forall_mem_cons] at chosen
    exact chosen.1.node_best sound progress order held member inner (fun below => ih below)
      (ih' chosen.2) left

end Resolution

end ChartParser
