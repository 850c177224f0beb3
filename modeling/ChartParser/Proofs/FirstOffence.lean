import ChartParser.Proofs.Forest.Cut
import ChartParser.Proofs.Grammar.Names
import ChartParser.Proofs.RecursiveWalk

namespace ChartParser

variable {α : Type} {grammar : Grammar α} {input : Array String} {chart : Chart}

/-- What trees come to if they are evaluated in a row: their values, with the calls for them behind
those before, or the first offence. -/
def CutTree.Comes (grammar : Grammar α) (input : Array String) (trees : List CutTree)
    (before after : Array (Call α)) : Except EvalError (List (Value α)) → Prop
  | .ok values => firstOffence? grammar trees = none ∧
      ∃ calls, foldAll? grammar input trees = some (calls, values) ∧ after = before ++ calls.toArray
  | .error error => firstOffence? grammar trees = some error

namespace CutTree.Comes

variable {trees others children : List CutTree} {before middle after : Array (Call α)}

theorem append {result other : Except EvalError (List (Value α))}
    (comes : Comes grammar input trees before middle result)
    (further : Comes grammar input others middle after other) :
    Comes grammar input (trees ++ others) before after
      (result >>= fun values => other.map (values ++ ·)) := by
  cases result with
  | error error =>
    change firstOffence? grammar (trees ++ others) = some error
    rw [firstOffence_append, show firstOffence? grammar trees = some error from comes]
    rfl
  | ok values =>
    obtain ⟨clean, calls, folded, rfl⟩ := comes
    cases other with
    | error error =>
      change firstOffence? grammar (trees ++ others) = some error
      rw [firstOffence_append, clean]
      exact further
    | ok more =>
      obtain ⟨clean', calls', folded', rfl⟩ := further
      refine ⟨by rw [firstOffence_append, clean, clean']; rfl, calls ++ calls',
        foldAll_append folded folded', ?_⟩
      rw [← List.append_toArray, Array.append_assoc]

theorem cons {tree : CutTree} {walked : Walked (Except EvalError (Value α))}
    {values : List (Except EvalError (Value α))}
    (comes : Comes grammar input [tree] before middle (collectValues walked.values))
    (further : Comes grammar input trees middle after (collectValues values)) :
    Comes grammar input (tree :: trees) before after
      (collectValues (walked.values ++ values)) := by
  rw [collectValues_append]
  exact comes.append further

/-- What offends below a rule comes first. -/
theorem error_above (production : Nat) {error : EvalError}
    (comes : Comes grammar input children before middle (.error error)) :
    Comes grammar input [.rule production children] before after (.error error) := by
  change firstOffence? grammar [rule production children] = some error
  rw [firstOffence_rule, show firstOffence? grammar children = some error from comes]
  rfl

theorem applyAction {production : Nat} {arguments : List (Value α)}
    (comes : Comes grammar input children before middle (.ok arguments))
    (length : arguments.length = (grammar.symbols production).size)
    {result : Except EvalError (Value α)}
    (applied : grammar.applyAction production arguments middle = .ok (after, result)) :
    Comes grammar input [.rule production children] before after (result.map ([·])) := by
  obtain ⟨clean, calls, folded, rfl⟩ := comes
  have offence : firstOffence? grammar [rule production children] =
      offence? grammar (rule production children) := by
    rw [firstOffence_rule, clean, Option.none_or]
  unfold Grammar.applyAction at applied
  cases acts : grammar.action? production with
  | some action =>
    simp only [acts] at applied
    cases made : action arguments with
    | none => simp [made] at applied
    | some value =>
      simp only [made] at applied
      cases applied
      refine ⟨?_, calls ++ [⟨production, arguments⟩], foldAll_singleton.mpr ?_, ?_⟩
      · simp [offence, offence?, Grammar.Handles, acts]
      · simp [fold?, folded, Grammar.reduce?, acts, made]
      · simp
  | none =>
    simp only [acts] at applied
    split at applied
    · cases applied
      have single : (grammar.symbols production).size = 1 := length.symm
      refine ⟨?_, calls, foldAll_singleton.mpr ?_, rfl⟩
      · simp [offence, offence?, Grammar.Handles, single]
      · simp [fold?, folded, Grammar.reduce?, acts]
    · rename_i several
      cases applied
      have others : (grammar.symbols production).size ≠ 1 := by
        intro single
        obtain ⟨value, same⟩ := List.length_eq_one_iff.mp (length.trans single)
        exact several value same
      change firstOffence? grammar [rule production children] = _
      simp [offence, offence?, Grammar.Handles, acts, others]

section Node

variable {active : Marks} {child : WalkChild} {start : Nat}
  {walked : Walked (Except EvalError (Value α))}
  (walks : (grammar.evaluator input).walkNode grammar chart active child before =
    .ok (after, some walked))
include walks

theorem of_lexeme {offset : Nat} (held : chart.Holds child.ref (.lexeme offset) start) :
    Comes grammar input [.lexeme offset] before after (collectValues walked.values) := by
  obtain ⟨token, completed⟩ := Visitor.walkNode_lexeme held walks rfl
  obtain ⟨middle, made, value, derived, given, rfl⟩ := Visitor.completeNode_inv completed
  cases derived
  cases read : input[offset]? with
  | none => simp [Grammar.evaluator, read] at given
  | some text =>
    simp only [Grammar.evaluator, read] at given
    cases given
    exact ⟨firstOffence_lexeme offset, [], foldAll_singleton.mpr (by simp [fold?, read]), by simp⟩

variable (sound : chart.Sound grammar input)
include sound

theorem of_ambiguous (several : 1 < (chart.derivations child.ref).size) :
    Comes grammar input [.ambiguous child.ref] before after (collectValues walked.values) := by
  obtain ⟨tag, start, held⟩ := Chart.exists_holds (Array.getElem_mem (Nat.zero_lt_of_lt several))
  have plain : ∀ offset, tag ≠ .lexeme offset := by
    rintro offset rfl
    simp [sound.derivations_lexeme held] at several
  obtain ⟨middle, alternatives, value, chosen, rfl⟩ :=
    Visitor.walkNode_several held walks plain several
  cases chosen
  exact firstOffence_ambiguous child.ref

theorem of_rule {index : Nat} (held : chart.Holds child.ref (.rule index) start)
    {derivation : Derivation} (sole : chart.derivations child.ref = #[derivation])
    (cut : chart.Cut derivation.children children)
    (below : ∀ {middle values}, Visitor.walkSequence
      ((grammar.evaluator input).walkNode grammar chart (active.insert child.ref))
      (grammar.walkChildren (.rule index) derivation) before = .ok (middle, some values) →
      Comes grammar input children before middle (collectValues values)) :
    Comes grammar input [.rule derivation.production children] before after
      (collectValues walked.values) := by
  obtain ⟨middle, values, inner, finished⟩ := Visitor.walkNode_sole held walks (by simp) sole
  obtain ⟨middle, made, value, derived, given, rfl⟩ := Visitor.completeNode_inv finished
  cases derived
  have comes := below inner
  rw [Walked.values, collectValues_singleton]
  cases collected : collectValues values with
  | error error =>
    rw [collected] at comes
    simp only [Grammar.evaluator, collected] at given
    cases given
    exact comes.error_above derivation.production
  | ok arguments =>
    rw [collected] at comes
    simp only [Grammar.evaluator, collected] at given
    obtain ⟨clean, calls, folded, -⟩ := id comes
    exact comes.applyAction (cut.length_arguments sound held sole clean folded) given

end Node

end CutTree.Comes

/-- Whenever nodes are evaluated one after the other, they come to what their cut trees come to. -/
theorem Chart.Cut.comes (sound : chart.Sound grammar input) {nodes : List ItemRef}
    {trees : List CutTree} (cut : chart.Cut nodes trees) {children : List WalkChild}
    (refs : children.map WalkChild.ref = nodes) {active : Marks} {before after : Array (Call α)}
    {values : List (Except EvalError (Value α))}
    (walks : Visitor.walkSequence ((grammar.evaluator input).walkNode grammar chart active)
      children before = .ok (after, some values)) :
    CutTree.Comes grammar input trees before after (collectValues values) := by
  induction cut generalizing children active before after values with
  | nil =>
    obtain rfl := List.map_eq_nil_iff.mp refs
    cases walks
    exact ⟨rfl, [], rfl, by simp⟩
  | lexeme held _ ih =>
    obtain ⟨child, children, middle, walked, others, rfl, beside, first, rest, rfl⟩ :=
      Visitor.walkSequence_inv refs walks
    exact .cons (.of_lexeme first held) (ih beside rest)
  | ambiguous several _ ih =>
    obtain ⟨child, children, middle, walked, others, rfl, beside, first, rest, rfl⟩ :=
      Visitor.walkSequence_inv refs walks
    exact .cons (.of_ambiguous first sound several) (ih beside rest)
  | dotted held sole _ _ ih ih' =>
    obtain ⟨child, children, middle, walked, others, rfl, beside, first, rest, rfl⟩ :=
      Visitor.walkSequence_inv refs walks
    obtain ⟨state, values, inner, finished⟩ := Visitor.walkNode_sole held first (by simp) sole
    cases finished
    rw [collectValues_append]
    exact (ih (refs_walkChildren grammar _ _) inner).append (ih' beside rest)
  | rule held sole cut _ ih ih' =>
    obtain ⟨child, children, middle, walked, others, rfl, beside, first, rest, rfl⟩ :=
      Visitor.walkSequence_inv refs walks
    refine .cons (.of_rule first sound held sole cut ?_) (ih' beside rest)
    exact ih (refs_walkChildren grammar _ _)

/-- All actions have a result for any arguments, as long as there is one for each symbol. -/
def Grammar.Total (grammar : Grammar α) : Prop :=
  ∀ {production action arguments}, grammar.action? production = some action →
    arguments.length = (grammar.symbols production).size → (action arguments).isSome = true

namespace Forest

variable {start : Nat} {forest : Forest}

theorem Sound.evaluate_comes (sound : forest.Sound grammar start input) (total : grammar.Total)
    {trees : List CutTree} (cut : forest.chart.Cut [forest.root] trees) :
    ∃ calls result, forest.evaluate grammar input = .ok (calls, result) ∧
      CutTree.Comes grammar input trees #[] calls (result.map ([·])) := by
  have respects := Grammar.evaluator_respects (fun _ => True) (fun _ _ _ _ => trivial)
    (fun _ => False) (fun held sole _ inner acts failed => by
      have made := total acts (inner.length_arguments held sole sound.chart)
      rw [failed] at made
      cases made) sound.chart
  obtain ⟨-, -, broken⟩ | ⟨calls, result, walked, -⟩ :=
    walk_respects sound.chart respects sound.root #[] trivial
  · exact broken.elim
  · refine ⟨calls, result, by rw [Forest.evaluate, walked]; rfl, ?_⟩
    rw [Forest.walk, traverse_eq_walkNode] at walked
    obtain ⟨⟨next, found⟩, visited, same⟩ := bind_eq_ok.mp walked
    cases found with
    | none => cases same
    | some value =>
      cases value with
      | spliced values => cases same
      | node value =>
        cases same
        have walks : Visitor.walkSequence ((grammar.evaluator input).walkNode grammar forest.chart
            forest.chart.marks) [⟨forest.root, none⟩] #[] = .ok (calls, some [result]) := by
          rw [Visitor.walkSequence, visited]
          rfl
        rw [← collectValues_singleton]
        exact cut.comes sound.chart rfl walks

/-- Evaluation of a parsed forest, fresh or disambiguated, reports the first offence. Cut off at its
ambiguous nodes, the forest stands for one tree. If the actions are total, evaluation succeeds
exactly if nothing in this tree offends: no node is ambiguous, and every production has an action or
exactly one symbol. It then folds the tree, with one call for each node whose production has an
action, children before parents and from left to right. Otherwise the error is the first offence in
that order. -/
theorem evaluate_offence {draft : Draft α} {range : IndexRange}
    (built : draft.build range = .ok grammar)
    (success : (grammar.parse start input).2 = .ok forest) (total : grammar.Total)
    (preferences : List (Nat → Nat → Bool)) :
    let after := forest.disambiguateAll preferences
    ∃ tree, (∀ trees, after.chart.Cut [after.root] trees ↔ trees = [tree]) ∧
      ((∃ calls value, after.evaluate grammar input = .ok (calls, .ok value)) ↔
        ∀ node ∈ tree.postorder, node.offence? grammar = none) ∧
      (∀ calls value, after.evaluate grammar input = .ok (calls, .ok value) →
        tree.fold? grammar input = some (calls.toList, value) ∧
        calls.toList.map Call.production = tree.postorder.filterMap (CutTree.acting? grammar)) ∧
      ∀ error, (∃ calls, after.evaluate grammar input = .ok (calls, .error error)) ↔
        tree.postorder.findSome? (CutTree.offence? grammar) = some error := by
  have parsed := Grammar.parsed_of_parse (Draft.build_wellFormed built) success
  have sound := parsed.sound.disambiguateAll preferences
  intro after
  obtain ⟨unfolded, unfolds⟩ := sound.chart.grounded sound.root trivial
  obtain ⟨trees, only⟩ := sound.chart.exists_cut unfolds
  have cut := (only trees).mpr rfl
  obtain ⟨tree, rfl⟩ := cut.eq_singleton sound.root
  obtain ⟨calls, result, evaluated, comes⟩ := sound.evaluate_comes total cut
  refine ⟨tree, only, ?_⟩
  rw [← List.findSome?_eq_none_iff, evaluated]
  cases result with
  | error error =>
    have first : tree.postorder.findSome? (CutTree.offence? grammar) = some error :=
      CutTree.firstOffence_singleton.symm.trans comes
    rw [first]
    exact ⟨⟨nofun, nofun⟩, nofun, by simp⟩
  | ok value =>
    obtain ⟨clean, made, folded, rfl⟩ := comes
    rw [CutTree.firstOffence_singleton] at clean
    have folded := CutTree.foldAll_singleton.mp folded
    rw [clean]
    refine ⟨⟨fun _ => rfl, fun _ => ⟨_, _, rfl⟩⟩, ?_, fun error => ⟨?_, nofun⟩⟩
    · rintro calls value ⟨⟩
      simpa using ⟨folded, CutTree.productions_fold folded⟩
    · rintro ⟨calls, failed⟩
      cases failed

end Forest

/-- Times of hours and minutes with one or two digits each. Only these two have values, and so the
whole has none. -/
def Draft.times : Draft Nat :=
  .ofEntries "time" [.production ⟨"time", ["hours", "minutes", "h"], none, none⟩,
    .production ⟨"hours", ["d"], none, some fun _ => some 1⟩,
    .production ⟨"hours", ["d", "d"], none, some fun _ => some 2⟩,
    .production ⟨"minutes", ["d"], none, some fun _ => some 1⟩,
    .production ⟨"minutes", ["d", "d"], none, some fun _ => some 2⟩]

theorem Draft.build_times : Draft.times.build .bits8 = .ok (Draft.times.number .bits8) :=
  Draft.build_eq_number (by decide +kernel) (by decide +kernel)

theorem Draft.total_times : (Draft.times.number .bits8).Total := by
  intro production action arguments acts _
  rw [action_number] at acts
  obtain ⟨declaration, found, acts⟩ := Option.bind_eq_some_iff.mp acts
  have listed := Array.mem_toList_iff.mpr (Array.mem_of_getElem? found)
  rw [times, declarations_ofEntries] at listed
  simp only [List.filterMap_cons, Entry.declaration?, List.filterMap_nil, List.mem_cons,
    List.not_mem_nil, or_false] at listed
  rcases listed with rfl | rfl | rfl | rfl | rfl <;> cases acts <;> rfl

theorem Draft.evaluate_times : ∃ forest,
    ((Draft.times.number .bits8).parse 0 #["d", "d", "d", "h"]).2 = .ok forest ∧
    (∃ calls, forest.evaluate (Draft.times.number .bits8) #["d", "d", "d", "h"] =
      .ok (calls, .error (.ambiguous ⟨3, 4⟩))) ∧
    ∃ calls, (forest.disambiguate (Draft.times.number .bits8).higherPriority).1.evaluate
      (Draft.times.number .bits8) #["d", "d", "d", "h"] = .ok (calls, .error (.noAction 0)) := by
  have checked : ((Draft.times.number .bits8).parse 0
      #["d", "d", "d", "h"]).2.toOption.any (fun forest =>
        (match forest.evaluate (Draft.times.number .bits8) #["d", "d", "d", "h"] with
        | .ok (_, .error (.ambiguous ⟨3, 4⟩)) => true
        | _ => false) &&
        match (forest.disambiguate (Draft.times.number .bits8).higherPriority).1.evaluate
          (Draft.times.number .bits8) #["d", "d", "d", "h"] with
        | .ok (_, .error (.noAction 0)) => true
        | _ => false) = true := by
    -- searches by steps are not evaluated, but those by recursion are
    simp only [Forest.disambiguate, Forest.resolve_eq_visit, Forest.evaluate, Forest.walk_eq_visit]
    decide +kernel
  cases success : ((Draft.times.number .bits8).parse 0 #["d", "d", "d", "h"]).2 with
  | error error => simp [success, Except.toOption] at checked
  | ok forest =>
    simp only [success, Except.toOption, Option.any_some, Bool.and_eq_true] at checked
    obtain ⟨fresh, settled⟩ := checked
    refine ⟨forest, rfl, ?_, ?_⟩
    · split at fresh
      · exact ⟨_, ‹_›⟩
      · cases fresh
    · split at settled
      · exact ⟨_, ‹_›⟩
      · cases settled

/-- The first offence in a time is the ambiguous part in front of its last symbol, and after
disambiguation, it is the time. -/
theorem Forest.evaluate_offence_times : ∃ forest,
    ((Draft.times.number .bits8).parse 0 #["d", "d", "d", "h"]).2 = .ok forest ∧
    (∃ tree calls, forest.chart.Cut [forest.root] [tree] ∧
      tree.postorder.findSome? (CutTree.offence? (Draft.times.number .bits8)) =
        some (.ambiguous ⟨3, 4⟩) ∧
      forest.evaluate (Draft.times.number .bits8) #["d", "d", "d", "h"] =
        .ok (calls, .error (.ambiguous ⟨3, 4⟩))) ∧
    let after := forest.disambiguateAll [(Draft.times.number .bits8).higherPriority]
    ∃ tree calls, after.chart.Cut [after.root] [tree] ∧
      tree.postorder.findSome? (CutTree.offence? (Draft.times.number .bits8)) =
        some (.noAction 0) ∧
      after.evaluate (Draft.times.number .bits8) #["d", "d", "d", "h"] =
        .ok (calls, .error (.noAction 0)) := by
  obtain ⟨forest, success, ⟨calls, fresh⟩, calls', settled⟩ := Draft.evaluate_times
  refine ⟨forest, success, ?_, ?_⟩
  · obtain ⟨tree, only, -, -, offence⟩ :=
      Forest.evaluate_offence Draft.build_times success Draft.total_times []
    exact ⟨tree, calls, (only [tree]).mpr rfl, (offence _).mp ⟨calls, fresh⟩, fresh⟩
  · obtain ⟨tree, only, -, -, offence⟩ := Forest.evaluate_offence Draft.build_times success
      Draft.total_times [(Draft.times.number .bits8).higherPriority]
    exact ⟨tree, calls', (only [tree]).mpr rfl, (offence _).mp ⟨calls', settled⟩, settled⟩

end ChartParser
