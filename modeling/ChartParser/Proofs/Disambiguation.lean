import ChartParser.Proofs.Forest.Resolve
import ChartParser.Proofs.Packing

namespace ChartParser

namespace Resolution

variable {chart : Chart} {prefer : Nat → Nat → Bool} {resolution : Resolution}
  {α : Type} {grammar : Grammar α} {input : Array String}

theorem Progress.child (progress : Progress chart prefer resolution) {ref child : ItemRef}
    (below : resolution.chart.Child ref child) : chart.Child ref child := by
  obtain ⟨derivation, member, listed⟩ := below
  exact ⟨derivation, progress.extends.derivations member, listed⟩

theorem Settled.child {height : Nat} {ref child : ItemRef}
    (settled : resolution.Settled height ref) (step : resolution.chart.Child ref child) :
    ∃ less < height, resolution.Settled less child := by
  obtain ⟨derivation, member, listed⟩ := step
  cases settled with
  | leaf done bare =>
    rw [bare] at member
    exact absurd member (Array.not_mem_empty _)
  | node done sole below =>
    rw [sole, Array.mem_singleton] at member
    exact ⟨_, Nat.lt_succ_self _, below child (member ▸ listed)⟩

theorem Settled.reach {height : Nat} {ref node : ItemRef} (settled : resolution.Settled height ref)
    (reached : Relation.ReflTransGen resolution.chart.Child ref node) :
    ∃ height, resolution.Settled height node := by
  induction reached with
  | refl => exact ⟨height, settled⟩
  | tail _ step ih =>
    obtain ⟨height, settled⟩ := ih
    obtain ⟨less, -, settled⟩ := settled.child step
    exact ⟨less, settled⟩

theorem Settled.descend {height : Nat} {ref node : ItemRef}
    (settled : resolution.Settled height ref)
    (reached : Relation.TransGen resolution.chart.Child ref node) :
    ∃ less < height, resolution.Settled less node := by
  induction reached with
  | single step => exact settled.child step
  | tail _ step ih =>
    obtain ⟨less, shallow, settled⟩ := ih
    obtain ⟨least, shallower, settled⟩ := settled.child step
    exact ⟨least, shallower.trans shallow, settled⟩

theorem Settled.not_descends {height : Nat} {ref : ItemRef}
    (settled : resolution.Settled height ref) :
    ¬ Relation.TransGen resolution.chart.Child ref ref := by
  intro cycle
  induction height using Nat.strong_induction_on with
  | h height ih =>
    obtain ⟨less, shallow, settled⟩ := settled.descend cycle
    exact ih less shallow settled

theorem Settled.size_le {height : Nat} {ref : ItemRef} (settled : resolution.Settled height ref) :
    (resolution.chart.derivations ref).size ≤ 1 := by
  cases settled with
  | leaf done bare => simp [bare]
  | node done sole => simp [sole]

theorem Settled.narrow {height : Nat} {ref : ItemRef} (settled : resolution.Settled height ref) :
    resolution.chart.Narrow ref := by
  intro node reached
  obtain ⟨less, settled⟩ := settled.reach reached
  exact settled.size_le

theorem unfolds_unique {nodes : List ItemRef} {trees others : List Tree}
    (unfolds : resolution.chart.Unfolds nodes trees)
    (settled : ∀ ref ∈ nodes, ∃ height, resolution.Settled height ref)
    (again : resolution.chart.Unfolds nodes others) : trees = others := by
  refine unfolds.unique (fun ref listed => ?_) again
  obtain ⟨height, settled⟩ := settled ref listed
  exact settled.narrow

theorem unfolds_all {nodes : List ItemRef}
    (each : ∀ ref ∈ nodes, ∃ trees, chart.Unfolds [ref] trees) :
    ∃ trees, chart.Unfolds nodes trees := by
  induction nodes with
  | nil => exact ⟨[], .nil⟩
  | cons ref nodes ih =>
    obtain ⟨first, unfolds⟩ := each ref List.mem_cons_self
    obtain ⟨rest, unfolds'⟩ := ih fun other listed => each other (List.mem_cons_of_mem ref listed)
    exact ⟨first ++ rest, unfolds.append unfolds'⟩

theorem Settled.unfolds (sound : chart.Sound grammar input)
    (progress : Progress chart prefer resolution) {height : Nat} {ref : ItemRef}
    (settled : resolution.Settled height ref) {tag : Tag} {start : Nat}
    (held : chart.Holds ref tag start) (advanced : tag.Advanced) :
    ∃ trees, resolution.chart.Unfolds [ref] trees := by
  induction settled generalizing tag start with
  | leaf done bare =>
    obtain ⟨offset, rfl⟩ := sound.lexeme_of_bare held advanced (progress.bare bare)
    exact ⟨_, .lexeme (progress.holds.mpr held) .nil⟩
  | @node ref derivation height done sole below ih =>
    have member : derivation ∈ resolution.chart.derivations ref := by simp [sole]
    obtain ⟨trees, unfolds⟩ := unfolds_all fun child listed => by
      obtain ⟨tag, start, held, advanced⟩ :=
        sound.child (progress.child ⟨derivation, member, listed⟩)
      exact ih child listed held advanced
    have split := sound.derived held (progress.extends.derivations member)
    exact ⟨_, .wrap (progress.holds.mpr held) split.not_lexeme member unfolds⟩

/-- Whatever unfolds can be unfolded after nodes have been resolved, though not in all ways. -/
theorem Progress.grounded (sound : chart.Sound grammar input)
    (progress : Progress chart prefer resolution) {nodes : List ItemRef} {trees : List Tree}
    (unfolds : chart.Unfolds nodes trees)
    (advanced : ∀ ref ∈ nodes, ∃ tag start, chart.Holds ref tag start ∧ tag.Advanced) :
    ∃ trees, resolution.chart.Unfolds nodes trees := by
  -- what has been resolved unfolds by what is left of it, and the rest as before
  have wrap {ref : ItemRef} {nodes : List ItemRef} {derivation : Derivation} {tag : Tag}
      {start : Nat} (held : chart.Holds ref tag start) (plain : ∀ offset, tag ≠ .lexeme offset)
      (advanced : ∃ tag start, chart.Holds ref tag start ∧ tag.Advanced)
      (member : derivation ∈ chart.derivations ref)
      (inner : (∀ child ∈ derivation.children,
        ∃ tag start, chart.Holds child tag start ∧ tag.Advanced) →
          ∃ trees, resolution.chart.Unfolds derivation.children trees)
      (rest : ∃ trees, resolution.chart.Unfolds nodes trees) :
      ∃ trees, resolution.chart.Unfolds (ref :: nodes) trees := by
    obtain ⟨more, rest⟩ := rest
    cases done : resolution.resolved.contains ref with
    | true =>
      obtain ⟨tag', start', held', advanced⟩ := advanced
      obtain ⟨trees, unfolds⟩ := (progress.settled done).unfolds sound progress held' advanced
      exact ⟨trees ++ more, unfolds.append rest⟩
    | false =>
      obtain ⟨children, unfolds⟩ := inner fun child listed =>
        sound.child ⟨derivation, member, listed⟩
      rw [← progress.untouched done] at member
      have unfolded := Chart.Unfolds.wrap (progress.holds.mpr held) plain member unfolds
      exact ⟨_, unfolded.append rest⟩
  induction unfolds with
  | nil => exact ⟨[], .nil⟩
  | lexeme held _ ih =>
    rw [List.forall_mem_cons] at advanced
    obtain ⟨trees, unfolds⟩ := ih advanced.2
    exact ⟨_, .lexeme (progress.holds.mpr held) unfolds⟩
  | dotted held member _ _ ih ih' =>
    rw [List.forall_mem_cons] at advanced
    exact wrap held (by simp) advanced.1 member ih (ih' advanced.2)
  | rule held member _ _ ih ih' =>
    rw [List.forall_mem_cons] at advanced
    exact wrap held (by simp) advanced.1 member ih (ih' advanced.2)

theorem Progress.sound (sound : chart.Sound grammar input)
    (progress : Progress chart prefer resolution) : resolution.chart.Sound grammar input where
  indexed member := by
    obtain ⟨offset, inside, rfl⟩ := Array.mem_iff_getElem.mp member
    have same := congrArg (·.sets[offset]?) progress.skeleton
    simp only [Chart.sets_skeleton, Array.getElem?_eq_getElem inside, Option.map_some] at same
    obtain ⟨set, found, same⟩ := Option.map_eq_some_iff.mp same.symm
    rw [← ItemSet.indexed_skeleton, ← same, ItemSet.indexed_skeleton]
    exact sound.indexed (Array.mem_of_getElem? found)
  distinct member place := by
    obtain ⟨offset, inside, rfl⟩ := Array.mem_iff_getElem.mp member
    have same : resolution.chart.derivations ⟨offset, place⟩ =
        resolution.chart.sets[offset].derivationsAt place :=
      Chart.derivations_eq (Array.getElem?_eq_getElem inside)
    rw [← same]
    cases done : resolution.resolved.contains ⟨offset, place⟩ with
    | true =>
      rcases progress.kept done with ⟨-, same⟩ | ⟨kept, same, -⟩
      · simp [same]
      · simp [same]
    | false =>
      rw [progress.untouched done]
      exact sound.nodup_derivations _
  placed held := sound.placed (progress.holds.mp held)
  derived held member :=
    (sound.derived (progress.holds.mp held) (progress.extends.derivations member)).mono
      progress.holds.mpr
  grounded held advanced := by
    have held := progress.holds.mp held
    obtain ⟨trees, unfolds⟩ := sound.grounded held advanced
    refine progress.grounded sound unfolds fun ref listed => ?_
    rw [List.mem_singleton.mp listed]
    exact ⟨_, _, held, advanced⟩

end Resolution

namespace Chart

theorem exists_ambiguous {chart : Chart} {seen : Marks} {pending : List ItemRef}
    (found : chart.reachesAmbiguity seen pending = true) :
    ∃ ref ∈ pending, ∃ node, Relation.ReflTransGen chart.Child ref node ∧
      1 < (chart.derivations node).size := by
  fun_induction reachesAmbiguity chart seen pending with
  | case1 => cases found
  | case2 seen ref pending free derivations several =>
    exact ⟨ref, List.mem_cons_self, ref, .refl, several⟩
  | case3 seen ref pending free derivations single ih =>
    obtain ⟨other, listed, node, reached, several⟩ := ih found
    rcases List.mem_append.mp listed with child | rest
    · obtain ⟨derivation, member, listed⟩ := List.mem_flatMap.mp child
      exact ⟨ref, List.mem_cons_self, node,
        .head ⟨derivation, Array.mem_toList_iff.mp member, listed⟩ reached, several⟩
    · exact ⟨other, List.mem_cons_of_mem ref rest, node, reached, several⟩
  | case4 seen ref pending marked ih =>
    obtain ⟨other, listed, found⟩ := ih found
    exact ⟨other, List.mem_cons_of_mem ref listed, found⟩

end Chart

namespace Forest

open Relation Resolution

variable {α : Type} {grammar : Grammar α} {input : Array String} {start : Nat}

theorem Parsed.disambiguate {forest : Forest} (parsed : forest.Parsed grammar start input)
    (prefer : Nat → Nat → Bool) : ∃ resolution, forest.resolve prefer = (resolution, true) ∧
      (forest.disambiguate prefer).1 = ⟨resolution.chart, forest.root⟩ ∧
      Progress forest.chart prefer resolution ∧
      resolution.resolved.contains forest.root = true := by
  obtain ⟨resolution, resolved, progress, done⟩ :=
    resolve_spec parsed.filled.sound parsed.root trivial prefer
  exact ⟨resolution, resolved, by rw [Forest.disambiguate, resolved], progress, done⟩

theorem Parsed.tree_left {forest : Forest} (parsed : forest.Parsed grammar start input)
    {prefer : Nat → Nat → Bool} {resolution : Resolution}
    (progress : Progress forest.chart prefer resolution)
    (done : resolution.resolved.contains forest.root = true) :
    ∃ tree, IsParseTree grammar input start tree ∧
      ∀ trees, resolution.chart.Unfolds [forest.root] trees ↔ trees = [tree] := by
  have sound := parsed.filled.sound
  have settled := progress.settled done
  obtain ⟨trees, unfolds⟩ := settled.unfolds sound progress parsed.root trivial
  have original := unfolds.mono progress.extends
  have spelled := original.spells_single sound (.symbol (.rule parsed.root))
  obtain ⟨tree, rfl⟩ := List.length_eq_one_iff.mp spelled.length_eq
  refine ⟨tree, (Grammar.unfolds_root_iff parsed).mp original, fun others => ⟨fun again => ?_, ?_⟩⟩
  · exact (unfolds_unique unfolds (by simpa using ⟨_, settled⟩) again).symm
  · rintro rfl
    exact unfolds

/-- After disambiguation no node is ambiguous any more, and one parse tree is left. -/
theorem Parsed.single_left {forest : Forest} (parsed : forest.Parsed grammar start input)
    (prefer : Nat → Nat → Bool) :
    let after := (forest.disambiguate prefer).1
    after.chart.Narrow after.root ∧ ∃ tree, IsParseTree grammar input start tree ∧
      ∀ trees, after.chart.Unfolds [after.root] trees ↔ trees = [tree] := by
  obtain ⟨resolution, -, left, progress, done⟩ := parsed.disambiguate prefer
  rw [left]
  exact ⟨(progress.settled done).narrow, parsed.tree_left progress done⟩

/-- Disambiguation resolves the whole forest, whatever the preference: every rule and every
beginning of a production below the root is left with one derivation of those that it had, no node
below the root is its own descendant, and the root stands for exactly one tree, which is a parse
tree of the input. -/
theorem disambiguate_leaves_tree {draft : Draft α} {range : IndexRange}
    (built : draft.build range = .ok grammar) {forest : Forest}
    (success : (grammar.parse start input).2 = .ok forest) (prefer : Nat → Nat → Bool) :
    let after := (forest.disambiguate prefer).1
    (forest.resolve prefer).2 = true ∧ after.isAmbiguous = false ∧
    (∀ node, ReflTransGen after.chart.Child after.root node →
      (∀ tag first, after.chart.Holds node tag first → (∀ offset, tag ≠ .lexeme offset) →
        (after.chart.derivations node).size = 1) ∧
      (∀ derivation ∈ after.chart.derivations node, derivation ∈ forest.chart.derivations node) ∧
      ¬ TransGen after.chart.Child node node) ∧
    ∃ tree, IsParseTree grammar input start tree ∧
      ∀ trees, after.chart.Unfolds [after.root] trees ↔ trees = [tree] := by
  have parsed := Grammar.parsed_of_parse (Draft.build_wellFormed built) success
  have sound := parsed.filled.sound
  obtain ⟨resolution, resolved, left, progress, done⟩ := parsed.disambiguate prefer
  rw [left]
  have settled := progress.settled done
  have reached {node : ItemRef} (below : ReflTransGen resolution.chart.Child forest.root node) :
      ∃ tag first, forest.chart.Holds node tag first ∧ tag.Advanced := by
    rcases ReflTransGen.cases_tail below with rfl | ⟨parent, -, step⟩
    · exact ⟨_, _, parsed.root, trivial⟩
    · exact sound.child (progress.child step)
  refine ⟨by rw [resolved], ?_, ?_, parsed.tree_left progress done⟩
  · rw [Bool.eq_false_iff]
    intro ambiguous
    obtain ⟨ref, listed, node, below, several⟩ := Chart.exists_ambiguous ambiguous
    obtain rfl := List.mem_singleton.mp listed
    obtain ⟨height, settled⟩ := settled.reach below
    exact absurd settled.size_le (Nat.not_le_of_lt several)
  · intro node below
    obtain ⟨height, settled⟩ := settled.reach below
    refine ⟨?_, fun derivation member => progress.extends.derivations member,
      settled.not_descends⟩
    intro tag first held plain
    obtain ⟨tag', first', held', advanced⟩ := reached below
    obtain ⟨rfl, rfl⟩ := (progress.holds.mp held).unique held'
    apply Nat.le_antisymm settled.size_le
    apply Nat.pos_of_ne_zero
    intro none
    have bare := progress.bare (Array.eq_empty_of_size_eq_zero none)
    obtain ⟨offset, lexeme⟩ := sound.lexeme_of_bare held' advanced bare
    exact plain offset lexeme

end Forest

/-- A rule that stands for itself, or for one lexeme. -/
def Draft.loops : Draft Unit :=
  .ofEntries "loop" [.production ⟨"loop", ["loop"], none, none⟩,
    .production ⟨"loop", ["x"], none, none⟩]

theorem Draft.build_loops : Draft.loops.build .bits8 = .ok (Draft.loops.number .bits8) :=
  Draft.build_eq_number (by decide +kernel) (by decide +kernel)

/-- The loop is not chosen, not even by a preference that likes every production better than every
other one. -/
theorem Forest.disambiguate_loops :
    ∃ forest, ((Draft.loops.number .bits8).parse 0 #["x"]).2 = .ok forest ∧
      (forest.resolve fun _ _ => true).2 = true ∧
      ((forest.disambiguate fun _ _ => true).1).isAmbiguous = false ∧
      ∃ tree, IsParseTree (Draft.loops.number .bits8) #["x"] 0 tree ∧ ∀ trees,
        ((forest.disambiguate fun _ _ => true).1).chart.Unfolds
          [(forest.disambiguate fun _ _ => true).1.root] trees ↔ trees = [tree] := by
  obtain ⟨forest, success⟩ := Grammar.exists_forest_iff.mpr (show
    ((Draft.loops.number .bits8).parse 0 #["x"]).2.toOption.isSome = true by decide +kernel)
  obtain ⟨resolved, plain, -, tree⟩ :=
    Forest.disambiguate_leaves_tree Draft.build_loops success fun _ _ => true
  exact ⟨forest, success, resolved, plain, tree⟩

end ChartParser
