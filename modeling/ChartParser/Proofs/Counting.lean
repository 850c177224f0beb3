import ChartParser.Forest.Count
import ChartParser.Proofs.Forest.Distinct
import ChartParser.Proofs.Forest.Walk
import ChartParser.Proofs.Packing
import Mathlib.Data.Set.Card

namespace ChartParser

namespace Chart

variable {α : Type} {grammar : Grammar α} {input : Array String} {chart : Chart}

def trees (chart : Chart) (nodes : List ItemRef) : Set (List Tree) :=
  {trees | chart.Unfolds nodes trees}

theorem encard_nil : (chart.trees []).encard = 1 := by
  have single : chart.trees [] = {[]} := by
    apply Set.eq_singleton_iff_unique_mem.mpr
    refine ⟨.nil, fun trees unfolds => ?_⟩
    cases unfolds
    rfl
  rw [single, Set.encard_singleton]

theorem encard_lexeme {ref : ItemRef} {offset start : Nat}
    (held : chart.Holds ref (.lexeme offset) start) : (chart.trees [ref]).encard = 1 := by
  have single : chart.trees [ref] = {[.lexeme offset]} := by
    apply Set.eq_singleton_iff_unique_mem.mpr
    exact ⟨.lexeme held .nil, fun trees unfolds => unfolds.eq_lexeme held⟩
  rw [single, Set.encard_singleton]

/-- The trees of a node and of those beside it are combined in all ways, and no two of these give
the same, because all trees of the node are equally many. -/
theorem encard_cons (sound : chart.Sound grammar input) {ref : ItemRef} {tag : Tag} {start : Nat}
    (held : chart.Holds ref tag start) (advanced : tag.Advanced) (nodes : List ItemRef) :
    (chart.trees (ref :: nodes)).encard =
      (chart.trees [ref]).encard * (chart.trees nodes).encard := by
  have image : chart.trees (ref :: nodes) =
      (fun pair : List Tree × List Tree => pair.1 ++ pair.2) ''
        (chart.trees [ref] ×ˢ chart.trees nodes) := by
    ext trees
    constructor
    · intro unfolds
      have whole : chart.Unfolds ([ref] ++ nodes) trees := unfolds
      obtain ⟨front, back, rfl, here, there⟩ := whole.split
      exact ⟨(front, back), ⟨here, there⟩, rfl⟩
    · rintro ⟨⟨front, back⟩, ⟨here, there⟩, rfl⟩
      exact Unfolds.append here there
  rw [image, ← Set.encard_prod]
  apply Set.InjOn.encard_image
  rintro ⟨front, back⟩ ⟨here, -⟩ ⟨front', back'⟩ ⟨here', -⟩ same
  obtain ⟨fronts, backs⟩ := List.append_inj same (sound.length_eq held advanced here here')
  exact Prod.ext fronts backs

def treesBy (chart : Chart) (tag : Tag) (derivations : List Derivation) : Set (List Tree) :=
  {trees | ∃ derivation ∈ derivations, ∃ children,
    chart.Unfolds derivation.children children ∧ trees = tag.wrap derivation.production children}

theorem encard_treesBy (sound : chart.Sound grammar input) {ref : ItemRef} {tag : Tag}
    {start : Nat} (held : chart.Holds ref tag start) {derivations : List Derivation}
    {counts : List Nat} (counted : List.Forall₂ (fun derivation (count : Nat) =>
      (chart.trees derivation.children).encard = count) derivations counts)
    (distinct : derivations.Nodup)
    (among : ∀ derivation ∈ derivations, derivation ∈ chart.derivations ref) :
    (chart.treesBy tag derivations).encard = counts.sum := by
  induction counted with
  | nil => simp [treesBy]
  | @cons derivation count derivations counts counted _ ih =>
    rw [List.nodup_cons] at distinct
    rw [List.forall_mem_cons] at among
    obtain ⟨member, among⟩ := among
    have union : chart.treesBy tag (derivation :: derivations) =
        tag.wrap derivation.production '' chart.trees derivation.children ∪
          chart.treesBy tag derivations := by
      ext trees
      simp [treesBy, Chart.trees, eq_comm]
    have apart : Disjoint (tag.wrap derivation.production '' chart.trees derivation.children)
        (chart.treesBy tag derivations) := by
      rw [Set.disjoint_left]
      rintro _ ⟨children, unfolds, rfl⟩ ⟨other, listed, others, unfolds', same⟩
      have equal := sound.derivation_unique held member (among other listed) unfolds unfolds' same
      exact distinct.1 (equal ▸ listed)
    have injective : Set.InjOn (tag.wrap derivation.production)
        (chart.trees derivation.children) := by
      have plain := (sound.derived held member).not_lexeme
      intro children _ others _ same
      cases tag with
      | lexeme offset => exact absurd rfl (plain offset)
      | dotted position => exact same
      | rule index => simpa [Tag.wrap] using same
    rw [union, Set.encard_union_eq apart, injective.encard_image, counted,
      ih distinct.2 among, List.sum_cons, Nat.cast_add]

theorem encard_node (sound : chart.Sound grammar input) {ref : ItemRef} {tag : Tag}
    {start : Nat} (held : chart.Holds ref tag start) (plain : ∀ offset, tag ≠ .lexeme offset)
    {counts : List Nat} (counted : List.Forall₂ (fun derivation (count : Nat) =>
      (chart.trees derivation.children).encard = count)
        (chart.derivations ref).toList counts) :
    (chart.trees [ref]).encard = counts.sum := by
  have same : chart.trees [ref] = chart.treesBy tag (chart.derivations ref).toList := by
    ext trees
    constructor
    · intro unfolds
      obtain ⟨derivation, member, children, inner, rfl⟩ := unfolds.unwrap held plain
      exact ⟨derivation, Array.mem_toList_iff.mpr member, children, inner, rfl⟩
    · rintro ⟨derivation, member, children, inner, rfl⟩
      exact inner.wrap held plain (Array.mem_toList_iff.mp member)
  rw [same]
  exact encard_treesBy sound held counted (sound.nodup_derivations ref)
    fun derivation member => Array.mem_toList_iff.mp member

end Chart

/-- The counts of a forest: how many trees a node stands for, unless a node below it is its own
descendant. -/
def Reading.counts (chart : Chart) : Reading Nat Nat where
  node child count := chart.Acyclic child.ref → (chart.trees [child.ref]).encard = count
  spliced ref counts := chart.Acyclic ref → (chart.trees [ref]).encard = counts.prod
  alternative ref derivation count :=
    chart.Acyclic ref → (chart.trees derivation.children).encard = count

section Counter

variable {α : Type} {grammar : Grammar α} {input : Array String} {chart : Chart}

theorem Reading.Values.prod (sound : chart.Sound grammar input) {children : List WalkChild}
    {values : List Nat} (stand : (Reading.counts chart).Values chart children values)
    (below : ∀ child ∈ children, chart.Acyclic child.ref ∧
      ∃ tag start, chart.Holds child.ref tag start ∧ tag.Advanced) :
    (chart.trees (children.map WalkChild.ref)).encard = values.prod := by
  obtain ⟨walked, means, rfl⟩ := stand
  induction means with
  | nil => exact Chart.encard_nil
  | @cons child result children results means _ ih =>
    rw [List.forall_mem_cons] at below
    obtain ⟨⟨acyclic, tag, start, held, advanced⟩, beside⟩ := below
    have here : (chart.trees [child.ref]).encard = (result.values.prod : Nat) := by
      cases result with
      | node count => simpa [Walked.values] using means acyclic
      | spliced counts => exact means.2 acyclic
    rw [List.map_cons, Chart.encard_cons sound held advanced, here, ih beside,
      List.flatMap_cons, List.prod_append, Nat.cast_mul]

/-- The children of a derivation stand for as many lists of trees as the product of their counts
says. -/
theorem Reading.Values.derivation (sound : chart.Sound grammar input) {ref : ItemRef} {tag : Tag}
    {derivation : Derivation} {values : List Nat}
    (stand : (Reading.counts chart).Values chart (grammar.walkChildren tag derivation) values)
    (acyclic : chart.Acyclic ref) (member : derivation ∈ chart.derivations ref) :
    (chart.trees derivation.children).encard = values.prod := by
  rw [← Chart.refs_walkChildren grammar tag]
  refine stand.prod sound fun child listed => ?_
  have below := Chart.child_of_walkChildren member listed
  exact ⟨acyclic.child below, sound.child below⟩

private theorem encard_sole (sound : chart.Sound grammar input) {ref : ItemRef} {tag : Tag}
    {start : Nat} (held : chart.Holds ref tag start) (plain : ∀ offset, tag ≠ .lexeme offset)
    {derivation : Derivation} (sole : chart.derivations ref = #[derivation]) {values : List Nat}
    (stand : (Reading.counts chart).Values chart (grammar.walkChildren tag derivation) values)
    (acyclic : chart.Acyclic ref) : (chart.trees [ref]).encard = values.prod := by
  have counted : List.Forall₂ (fun derivation (count : Nat) =>
      (chart.trees derivation.children).encard = count)
      (chart.derivations ref).toList [values.prod] := by
    rw [sole]
    exact .cons (stand.derivation sound acyclic (by simp [sole])) .nil
  exact Chart.encard_node sound held plain counted

theorem counter_follows (sound : chart.Sound grammar input) :
    counter.Follows grammar input chart (fun _ => False) (.counts chart) where
  lexeme _ held _ _ := fun _ => Chart.encard_lexeme held
  rule _ _ held sole stand := by
    intro acyclic
    have counted := encard_sole sound held (by simp) sole stand acyclic
    rwa [List.prod_eq_foldl] at counted
  dotted held _ sole stand := encard_sole sound held (by simp) sole stand
  alternative _ held _ member stand := by
    intro acyclic
    have counted := stand.derivation sound acyclic member
    rwa [List.prod_eq_foldl] at counted
  choices _ _ held _ several _ survive := by
    intro acyclic
    obtain ⟨survivors, -, all, stand⟩ := survive
    rw [all acyclic] at stand
    have plain := (sound.derived held (Array.getElem_mem several)).not_lexeme
    have counted := Chart.encard_node sound held plain
      (stand.imp fun _ _ counted => counted acyclic)
    rwa [List.sum_eq_foldl] at counted

end Counter

/-- The forest holds every parse tree exactly once: if no node is its own descendant, counting the
trees by a walk gives the number of parse trees of the start rule over the input. -/
theorem Forest.treeCount_exact {α : Type} {grammar : Grammar α} {input : Array String}
    {start : Nat} {draft : Draft α} {range : IndexRange}
    (built : draft.build range = .ok grammar) {forest : Forest}
    (success : (grammar.parse start input).2 = .ok forest)
    (acyclic : forest.chart.Acyclic forest.root) :
    ∃ count : Nat, forest.treeCount grammar = some count ∧
      {tree | IsParseTree grammar input start tree}.encard = count := by
  have parsed := Grammar.parsed_of_parse (Draft.build_wellFormed built) success
  have sound := parsed.filled.sound
  have image : forest.chart.trees [forest.root] =
      (fun tree => [tree]) '' {tree | IsParseTree grammar input start tree} := by
    ext trees
    constructor
    · intro unfolds
      have spelled := Chart.Unfolds.spells_single sound unfolds (.symbol (.rule parsed.root))
      obtain ⟨tree, rfl⟩ := List.length_eq_one_iff.mp spelled.length_eq
      exact ⟨tree, (Grammar.unfolds_root_iff parsed).mp unfolds, rfl⟩
    · rintro ⟨tree, parses, rfl⟩
      exact (Grammar.unfolds_root_iff parsed).mpr parses
  obtain ⟨stop, -, impossible⟩ | ⟨next, count, walked, counted⟩ :=
    walk_spec sound parsed.root (counter_follows sound) ()
  · exact impossible.elim
  · refine ⟨count, by rw [treeCount, walked], ?_⟩
    have counted : (forest.chart.trees [forest.root]).encard = count := counted acyclic
    rwa [image, List.singleton_injective.encard_image] at counted

/-- A sum of three has two parse trees. -/
theorem Forest.treeCount_sums :
    ∃ forest, ((Draft.sums.number .bits8).parse 0 #["x", "+", "x", "+", "x"]).2 = .ok forest ∧
      forest.chart.Acyclic forest.root ∧
      forest.treeCount (Draft.sums.number .bits8) = some 2 ∧
      {tree | IsParseTree (Draft.sums.number .bits8) #["x", "+", "x", "+", "x"] 0 tree}.encard =
        2 := by
  obtain ⟨forest, success, -, acyclic⟩ := Draft.parse_sums
  obtain ⟨count, counted, number⟩ :=
    Forest.treeCount_exact Draft.build_sums success acyclic
  have checked : ((Draft.sums.number .bits8).parse 0 #["x", "+", "x", "+", "x"]).2.toOption.all
      (fun forest => decide (((counter.traversal (Draft.sums.number .bits8) forest.chart).visit
        forest.itemCount [] ⟨forest.root, none⟩ ()).toOption.map
          (fun outcome => outcome.2.map Walked.values) = some (some [2]))) = true := by
    decide +kernel
  rw [success] at checked
  have checked := of_decide_eq_true checked
  have two : forest.treeCount (Draft.sums.number .bits8) = some 2 := by
    rw [treeCount, walk_eq_visit] at counted ⊢
    generalize (counter.traversal (Draft.sums.number .bits8) forest.chart).visit
      forest.itemCount [] ⟨forest.root, none⟩ () = visited at checked counted ⊢
    obtain stop | ⟨next, _ | walked⟩ := visited
    · exact stop.elim
    · cases counted
    · cases walked with
      | node number =>
        have same : [number] = [2] := Option.some.inj (Option.some.inj checked)
        rw [List.singleton_inj.mp same]
        rfl
      | spliced values => cases counted
  obtain rfl := Option.some.inj (counted.symm.trans two)
  exact ⟨forest, success, acyclic, two, number⟩

end ChartParser
