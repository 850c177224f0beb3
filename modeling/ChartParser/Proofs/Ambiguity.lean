import ChartParser.Proofs.Disambiguation
import ChartParser.Proofs.Forest.Distinct

namespace ChartParser

open Relation

theorem Marks.isFree_insert (marks : Marks) (written read : ItemRef) :
    (marks.insert written).isFree read = (!decide (written = read) && marks.isFree read) := by
  by_cases same : written = read
  · cases found : marks.flag? read <;> simp [insert, isFree, flag?_write, same, found]
  · simp [insert, isFree, flag?_write, same]

namespace Chart

variable {chart : Chart}

/-- Every node that a search has visited has one derivation at most, and the search has come to its
children or still has them before it. -/
def Surveyed (chart : Chart) (seen : Marks) (pending : List ItemRef) : Prop :=
  ∀ ref, seen.isFree ref = false → (chart.derivations ref).size ≤ 1 ∧
    ∀ child, chart.Child ref child → seen.isFree child = false ∨ child ∈ pending

theorem surveyed_marks (chart : Chart) (pending : List ItemRef) :
    chart.Surveyed chart.marks pending := by
  intro ref visited
  have bare : chart.derivations ref = #[] := by
    rw [Marks.isFree, flag_marks] at visited
    cases found : chart.item? ref with
    | none => simp [derivations, found]
    | some item => simp [found] at visited
  refine ⟨by simp [bare], ?_⟩
  intro child below
  obtain ⟨derivation, member, -⟩ := below
  rw [bare] at member
  exact absurd member (Array.not_mem_empty _)

theorem Surveyed.visit {seen : Marks} {ref : ItemRef} {pending : List ItemRef}
    (surveyed : chart.Surveyed seen (ref :: pending))
    (single : ¬ 1 < (chart.derivations ref).size) :
    chart.Surveyed (seen.insert ref)
      ((chart.derivations ref).toList.flatMap Derivation.children ++ pending) := by
  intro node visited
  simp only [Marks.isFree_insert, Bool.and_eq_false_iff, Bool.not_eq_false', decide_eq_true_eq]
    at visited ⊢
  by_cases here : ref = node
  · subst here
    refine ⟨Nat.le_of_not_lt single, ?_⟩
    intro child below
    obtain ⟨derivation, member, listed⟩ := below
    right
    exact List.mem_append_left _
      (List.mem_flatMap.mpr ⟨derivation, Array.mem_toList_iff.mpr member, listed⟩)
  · obtain ⟨narrow, children⟩ := surveyed node (visited.resolve_left here)
    refine ⟨narrow, fun child below => ?_⟩
    rcases children child below with visited | listed
    · exact .inl (.inr visited)
    · rcases List.mem_cons.mp listed with rfl | listed
      · exact .inl (.inl rfl)
      · exact .inr (List.mem_append_right _ listed)

theorem Surveyed.skip {seen : Marks} {ref : ItemRef} {pending : List ItemRef}
    (surveyed : chart.Surveyed seen (ref :: pending)) (visited : seen.isFree ref = false) :
    chart.Surveyed seen pending := by
  intro node visited'
  obtain ⟨narrow, children⟩ := surveyed node visited'
  refine ⟨narrow, fun child below => ?_⟩
  rcases children child below with visited'' | listed
  · exact .inl visited''
  · rcases List.mem_cons.mp listed with rfl | listed
    · exact .inl visited
    · exact .inr listed

/-- If no ambiguity is found, there is none below the nodes that have been visited or are to be
visited. -/
theorem narrow_of_not_found {seen : Marks} {pending : List ItemRef}
    (missed : chart.reachesAmbiguity seen pending = false)
    (surveyed : chart.Surveyed seen pending) {ref : ItemRef}
    (met : seen.isFree ref = false ∨ ref ∈ pending) : chart.Narrow ref := by
  fun_induction reachesAmbiguity chart seen pending with
  | case1 seen =>
    have visited := met.resolve_right List.not_mem_nil
    intro node reached
    have closed : seen.isFree node = false := by
      induction reached with
      | refl => exact visited
      | tail _ step ih => exact ((surveyed _ ih).2 _ step).resolve_right List.not_mem_nil
    exact (surveyed node closed).1
  | case2 => cases missed
  | case3 seen other pending free derivations single ih =>
    apply ih missed (surveyed.visit single)
    rw [Marks.isFree_insert]
    rcases met with visited | listed
    · exact .inl (by simp [visited])
    · rcases List.mem_cons.mp listed with rfl | listed
      · exact .inl (by simp)
      · exact .inr (List.mem_append_right _ listed)
  | case4 seen other pending marked ih =>
    have visited : seen.isFree other = false := Bool.eq_false_iff.mpr marked
    apply ih missed (surveyed.skip visited)
    rcases met with visited' | listed
    · exact .inl visited'
    · rcases List.mem_cons.mp listed with rfl | listed
      · exact .inl visited
      · exact .inr listed

def Divided (chart : Chart) (ref : ItemRef) : Prop :=
  ∃ trees others, trees ≠ others ∧ chart.Unfolds [ref] trees ∧ chart.Unfolds [ref] others

variable {α : Type} {grammar : Grammar α} {input : Array String}

/-- Each of several derivations can be unfolded, and to other trees than the rest. -/
theorem Sound.divided (sound : chart.Sound grammar input) {ref : ItemRef}
    (several : 1 < (chart.derivations ref).size) : chart.Divided ref := by
  have first := Array.getElem_mem (Nat.zero_lt_of_lt several)
  have second := Array.getElem_mem several
  obtain ⟨tag, start, held⟩ := exists_holds first
  have split := sound.derived held first
  obtain ⟨children, unfolds⟩ := split.unfolds sound
  obtain ⟨others, unfolds'⟩ := (sound.derived held second).unfolds sound
  refine ⟨_, _, ?_, unfolds.wrap held split.not_lexeme first,
    unfolds'.wrap held split.not_lexeme second⟩
  intro same
  have equal := sound.derivation_unique held first second unfolds unfolds' same
  have distinct := sound.nodup_derivations ref
  simp only [← Array.getElem_toList] at equal
  exact absurd (distinct.getElem_inj_iff.mp equal) Nat.zero_ne_one

theorem Divided.above (sound : chart.Sound grammar input) {ref child : ItemRef}
    (below : chart.Child ref child) (divided : chart.Divided child) : chart.Divided ref := by
  obtain ⟨derivation, member, listed⟩ := below
  obtain ⟨trees, others, apart, unfolds, unfolds'⟩ := divided
  obtain ⟨tag, start, held⟩ := exists_holds member
  have plain := (sound.derived held member).not_lexeme
  obtain ⟨before, after, children⟩ := List.append_of_mem listed
  -- what stands beside the child is unfolded in the same way both times
  have beside {other : ItemRef} (member' : other ∈ before ++ after) :
      ∃ trees, chart.Unfolds [other] trees := by
    have listed : other ∈ derivation.children := by
      rw [children]
      simp only [List.mem_append, List.mem_cons] at member' ⊢
      tauto
    obtain ⟨tag, start, held, advanced⟩ := sound.child ⟨derivation, member, listed⟩
    exact sound.grounded held advanced
  obtain ⟨front, ahead⟩ := Resolution.unfolds_all fun other member' =>
    beside (List.mem_append_left after member')
  obtain ⟨back, behind⟩ := Resolution.unfolds_all fun other member' =>
    beside (List.mem_append_right before member')
  have inner {trees : List Tree} (unfolds : chart.Unfolds [child] trees) :
      chart.Unfolds derivation.children (front ++ (trees ++ back)) := by
    rw [children]
    exact ahead.append (unfolds.append behind)
  refine ⟨_, _, ?_, (inner unfolds).wrap held plain member, (inner unfolds').wrap held plain member⟩
  intro same
  apply apart
  cases tag with
  | lexeme offset => exact absurd rfl (plain offset)
  | dotted position => simpa [Tag.wrap] using same
  | rule index => simpa [Tag.wrap] using same

theorem Divided.reach (sound : chart.Sound grammar input) {ref node : ItemRef}
    (reached : ReflTransGen chart.Child ref node) (divided : chart.Divided node) :
    chart.Divided ref := by
  induction reached using ReflTransGen.head_induction_on with
  | refl => exact divided
  | head step _ ih => exact ih.above sound step

end Chart

namespace Forest

variable {α : Type} {grammar : Grammar α} {input : Array String} {start : Nat} {forest : Forest}

theorem Parsed.exists_tree (parsed : forest.Parsed grammar start input) :
    ∃ tree, IsParseTree grammar input start tree := by
  obtain ⟨trees, unfolds⟩ := parsed.filled.sound.grounded parsed.root trivial
  have spelled := unfolds.spells_single parsed.filled.sound (.symbol (.rule parsed.root))
  obtain ⟨tree, rfl⟩ := List.length_eq_one_iff.mp spelled.length_eq
  exact ⟨tree, (Grammar.unfolds_root_iff parsed).mp unfolds⟩

theorem Parsed.exists_two_trees (parsed : forest.Parsed grammar start input)
    (ambiguous : forest.isAmbiguous = true) : ∃ tree other, tree ≠ other ∧
      IsParseTree grammar input start tree ∧ IsParseTree grammar input start other := by
  have sound := parsed.filled.sound
  obtain ⟨ref, listed, node, reached, several⟩ := Chart.exists_ambiguous ambiguous
  obtain rfl := List.mem_singleton.mp listed
  obtain ⟨trees, others, apart, unfolds, unfolds'⟩ :=
    (sound.divided several).reach sound reached
  have single {trees : List Tree} (unfolds : forest.chart.Unfolds [forest.root] trees) :
      ∃ tree, trees = [tree] := List.length_eq_one_iff.mp
    (unfolds.spells_single sound (.symbol (.rule parsed.root))).length_eq
  obtain ⟨tree, rfl⟩ := single unfolds
  obtain ⟨other, rfl⟩ := single unfolds'
  exact ⟨tree, other, fun same => apart (congrArg (fun tree => [tree]) same),
    (Grammar.unfolds_root_iff parsed).mp unfolds, (Grammar.unfolds_root_iff parsed).mp unfolds'⟩

theorem Parsed.tree_unique (parsed : forest.Parsed grammar start input)
    (plain : forest.isAmbiguous = false) {tree other : Tree}
    (parses : IsParseTree grammar input start tree)
    (parses' : IsParseTree grammar input start other) : tree = other := by
  have narrow : forest.chart.Narrow forest.root :=
    Chart.narrow_of_not_found plain (Chart.surveyed_marks _ _) (.inr (List.mem_singleton_self _))
  have unfolds := (Grammar.unfolds_root_iff parsed).mpr parses
  have unfolds' := (Grammar.unfolds_root_iff parsed).mpr parses'
  exact List.singleton_injective (unfolds.unique (by simpa using narrow) unfolds')

/-- Ambiguity of the forest is ambiguity of the input: a freshly parsed forest, whether it goes
round in cycles or not, is ambiguous exactly if the input has two different parse trees, and
otherwise the input has exactly one. -/
theorem isAmbiguous_exact {draft : Draft α} {range : IndexRange}
    (built : draft.build range = .ok grammar)
    (success : (grammar.parse start input).2 = .ok forest) :
    (forest.isAmbiguous = true ↔ ∃ tree other, tree ≠ other ∧
      IsParseTree grammar input start tree ∧ IsParseTree grammar input start other) ∧
    (forest.isAmbiguous = false ↔ ∃! tree, IsParseTree grammar input start tree) := by
  have parsed := Grammar.parsed_of_parse (Draft.build_wellFormed built) success
  obtain ⟨tree, parses⟩ := parsed.exists_tree
  cases ambiguous : forest.isAmbiguous with
  | true =>
    obtain ⟨first, second, apart, parses, parses'⟩ := parsed.exists_two_trees ambiguous
    refine ⟨iff_of_true rfl ⟨first, second, apart, parses, parses'⟩, ?_⟩
    refine iff_of_false Bool.noConfusion fun unique => apart (unique.unique parses parses')
  | false =>
    refine ⟨iff_of_false Bool.noConfusion ?_, iff_of_true rfl ⟨tree, parses, ?_⟩⟩
    · intro several
      obtain ⟨first, second, apart, parses, parses'⟩ := several
      exact apart (parsed.tree_unique ambiguous parses parses')
    · intro other parses'
      exact parsed.tree_unique ambiguous parses' parses

end Forest

/-- The loop is ambiguous over one lexeme, which it matches with and without going round, and
brackets around nothing are not, since no item is built in two ways. -/
theorem Forest.isAmbiguous_loops :
    (∃ forest, ((Draft.loops.number .bits8).parse 0 #["x"]).2 = .ok forest ∧
      forest.isAmbiguous = true) ∧
    ∃ forest, ((Draft.brackets.number .bits8).parse 0 #["(", ")"]).2 = .ok forest ∧
      ∃! tree, IsParseTree (Draft.brackets.number .bits8) #["(", ")"] 0 tree := by
  constructor
  · obtain ⟨forest, success⟩ := Grammar.exists_forest_iff.mpr (show
      ((Draft.loops.number .bits8).parse 0 #["x"]).2.toOption.isSome = true by decide +kernel)
    have rules : (Draft.loops.number .bits8).ruleOf 0 = 0 ∧
        (Draft.loops.number .bits8).ruleOf 1 = 0 := by decide +kernel
    have loop : ((Draft.loops.number .bits8).symbols 0).toList = [.rule 0] := by decide +kernel
    have leaf : ((Draft.loops.number .bits8).symbols 1).toList = [.token 0] := by decide +kernel
    have once : Spells (Draft.loops.number .bits8) #["x"] [.rule 1 [.lexeme 0]] [.rule 0] 0 1 := by
      have read : #["x"][0]? = some "x" := rfl
      have inner : Spells (Draft.loops.number .bits8) #["x"] [.lexeme 0] [.token 0] 0 1 :=
        .lexeme read (by decide +kernel) .nil
      rw [← leaf] at inner
      have spelled := Spells.rule (by decide +kernel) inner .nil
      rwa [rules.2] at spelled
    have twice : Spells (Draft.loops.number .bits8) #["x"] [.rule 0 [.rule 1 [.lexeme 0]]]
        [.rule 0] 0 1 := by
      have inner := once
      rw [← loop] at inner
      have spelled := Spells.rule (by decide +kernel) inner .nil
      rwa [rules.1] at spelled
    exact ⟨forest, success, (Forest.isAmbiguous_exact Draft.build_loops success).1.mpr
      ⟨_, _, by simp, once, twice⟩⟩
  · obtain ⟨forest, success⟩ := Grammar.exists_forest_iff.mpr (show
      ((Draft.brackets.number .bits8).parse 0 #["(", ")"]).2.toOption.isSome = true by
        decide +kernel)
    have checked : ((Draft.brackets.number .bits8).parse 0 #["(", ")"]).2.toOption.all
        (fun forest => decide (∀ ref ∈ forest.chart.refs,
          (forest.chart.derivations ref).size ≤ 1)) = true := by
      decide +kernel
    simp only [success, Except.toOption, Option.all_some, decide_eq_true_eq] at checked
    refine ⟨forest, success, (Forest.isAmbiguous_exact Draft.build_brackets success).2.mp ?_⟩
    rw [Bool.eq_false_iff]
    intro ambiguous
    obtain ⟨-, -, node, -, several⟩ := Chart.exists_ambiguous ambiguous
    exact absurd (Chart.size_le_of_refs checked node) (Nat.not_le_of_lt several)

end ChartParser
