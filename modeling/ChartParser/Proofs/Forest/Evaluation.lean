import ChartParser.Proofs.Forest.Tasks
import ChartParser.Proofs.Grammar.TreeValue

namespace ChartParser

open Relation

variable {α : Type} {grammar : Grammar α} {input : Array String} {chart : Chart}

namespace Chart

theorem Narrow.of_sole {ref : ItemRef} {derivation : Derivation}
    (sole : chart.derivations ref = #[derivation])
    (below : ∀ child ∈ derivation.children, chart.Narrow child) : chart.Narrow ref := by
  intro node reached
  rcases ReflTransGen.cases_head reached with rfl | ⟨child, ⟨other, member, listed⟩, reached⟩
  · simp [sole]
  · obtain rfl : other = derivation := by simpa [sole] using member
    exact below child listed node reached

theorem Unfolds.sole_iff {ref : ItemRef} {tag : Tag} {start : Nat} {derivation : Derivation}
    {trees : List Tree} (held : chart.Holds ref tag start) (plain : ∀ offset, tag ≠ .lexeme offset)
    (sole : chart.derivations ref = #[derivation]) : chart.Unfolds [ref] trees ↔
      ∃ children, chart.Unfolds derivation.children children ∧
        trees = tag.wrap derivation.production children := by
  constructor
  · intro unfolds
    obtain ⟨other, member, children, inner, rfl⟩ := unfolds.unwrap held plain
    obtain rfl : other = derivation := by simpa [sole] using member
    exact ⟨children, inner, rfl⟩
  · rintro ⟨children, inner, rfl⟩
    exact inner.wrap held plain (by simp [sole])

theorem Unfolds.length_children (sound : chart.Sound grammar input) {ref : ItemRef}
    {index start : Nat} (held : chart.Holds ref (.rule index) start) {derivation : Derivation}
    (member : derivation ∈ chart.derivations ref) {trees : List Tree}
    (unfolds : chart.Unfolds derivation.children trees) :
    trees.length = (grammar.symbols derivation.production).size := by
  have spelled := (unfolds.wrap held (by simp) member).spells_single sound (.symbol (.rule held))
  cases spelled with
  | rule _ inner => rw [inner.length_eq, Array.length_toList]

/-- What the nodes evaluate to: the values of the trees that they stand for, if nothing below is
ambiguous. In that case they have an error only if some production cannot have a value. -/
def Evaluates (chart : Chart) (grammar : Grammar α) (input : Array String)
    (nodes : List ItemRef) : Except EvalError (List (Value α)) → Prop
  | .ok values => (∀ ref ∈ nodes, chart.Narrow ref) ∧ ∃ trees, chart.Unfolds nodes trees ∧
      grammar.Handled trees ∧ Tree.values? grammar input trees = some values
  | .error error => (∀ ref ∈ nodes, chart.Narrow ref) →
      (∃ production, error = .noAction production) ∧
        ∀ trees, chart.Unfolds nodes trees → ¬ grammar.Handled trees

end Chart

theorem collectValues_append {ε ν : Type} (first second : List (Except ε ν)) :
    collectValues (first ++ second) =
      collectValues first >>= fun values => (collectValues second).map (values ++ ·) := by
  induction first with
  | nil =>
    change collectValues second = (collectValues second).map ([] ++ ·)
    cases collectValues second <;> rfl
  | cons value first ih =>
    cases value with
    | error error => rfl
    | ok value =>
      simp only [List.cons_append, collectValues, ih]
      cases collectValues first with
      | error error => rfl
      | ok values => cases collectValues second <;> rfl

theorem collectValues_singleton {ε ν : Type} (value : Except ε ν) :
    collectValues [value] = value.map ([·]) := by
  cases value <;> rfl

namespace Chart.Evaluates

variable {nodes more : List ItemRef} {ref : ItemRef} {derivation : Derivation}

theorem append {result other : Except EvalError (List (Value α))}
    (evaluates : chart.Evaluates grammar input nodes result)
    (further : chart.Evaluates grammar input more other) :
    chart.Evaluates grammar input (nodes ++ more)
      (result >>= fun values => other.map (values ++ ·)) := by
  cases result with
  | error error =>
    intro narrow
    obtain ⟨named, unhandled⟩ := evaluates fun ref listed => narrow ref (by simp [listed])
    refine ⟨named, fun trees unfolds handled => ?_⟩
    obtain ⟨front, back, rfl, unfolds, -⟩ := unfolds.split
    exact unhandled front unfolds (Grammar.Handled.append_iff.mp handled).1
  | ok values =>
    obtain ⟨narrow, trees, unfolds, handled, valued⟩ := evaluates
    cases other with
    | error error =>
      intro narrow
      obtain ⟨named, unhandled⟩ := further fun ref listed => narrow ref (by simp [listed])
      refine ⟨named, fun trees unfolds handled => ?_⟩
      obtain ⟨front, back, rfl, -, unfolds⟩ := unfolds.split
      exact unhandled back unfolds (Grammar.Handled.append_iff.mp handled).2
    | ok others =>
      obtain ⟨narrow', trees', unfolds', handled', valued'⟩ := further
      refine ⟨?_, trees ++ trees', unfolds.append unfolds',
        Grammar.Handled.append_iff.mpr ⟨handled, handled'⟩, ?_⟩
      · intro ref listed
        rcases List.mem_append.mp listed with listed | listed
        · exact narrow ref listed
        · exact narrow' ref listed
      · rw [Tree.values_append, valued, valued']
        rfl

theorem flatten {parts : List (List (Except EvalError (Value α)))}
    (each : List.Forall₂ (fun ref part => chart.Evaluates grammar input [ref] (collectValues part))
      nodes parts) : chart.Evaluates grammar input nodes (collectValues parts.flatten) := by
  induction each with
  | nil => exact ⟨by simp, [], .nil, .nil, rfl⟩
  | cons here _ ih =>
    rw [List.flatten_cons, collectValues_append]
    exact here.append ih

theorem error_above {tag : Tag} {start : Nat} (held : chart.Holds ref tag start)
    (plain : ∀ offset, tag ≠ .lexeme offset) (sole : chart.derivations ref = #[derivation])
    {error : EvalError}
    (inner : chart.Evaluates grammar input derivation.children (.error error)) :
    chart.Evaluates grammar input [ref] (.error error) := by
  intro narrow
  obtain ⟨named, unhandled⟩ := inner fun child listed =>
    (narrow ref (by simp)).child ⟨derivation, by simp [sole], listed⟩
  refine ⟨named, fun trees unfolds handled => ?_⟩
  obtain ⟨children, below, rfl⟩ := (Unfolds.sole_iff held plain sole).mp unfolds
  cases tag with
  | lexeme offset => exact plain offset rfl
  | dotted position => exact unhandled children below handled
  | rule index =>
    cases handled with
    | rule _ inner => exact unhandled children below inner

theorem lexeme (sound : chart.Sound grammar input) {offset start : Nat} {text : String}
    (held : chart.Holds ref (.lexeme offset) start) (read : input[offset]? = some text) :
    chart.Evaluates grammar input [ref] (.ok [.lexeme text]) := by
  have bare := sound.derivations_lexeme held
  refine ⟨?_, [.lexeme offset], .lexeme held .nil, .lexeme .nil, ?_⟩
  · intro node listed other reached
    obtain rfl := List.mem_singleton.mp listed
    rcases ReflTransGen.cases_head reached with rfl | ⟨child, ⟨derivation, member, -⟩, -⟩
    · simp [bare]
    · rw [bare] at member
      exact absurd member (Array.not_mem_empty _)
  · rw [Tree.values_singleton, Tree.value?, read]
    rfl

theorem dotted {position : Position} {start : Nat}
    (held : chart.Holds ref (.dotted position) start)
    (sole : chart.derivations ref = #[derivation]) {result : Except EvalError (List (Value α))}
    (inner : chart.Evaluates grammar input derivation.children result) :
    chart.Evaluates grammar input [ref] result := by
  cases result with
  | error error => exact inner.error_above held (by simp) sole
  | ok values =>
    obtain ⟨narrow, trees, unfolds, handled, valued⟩ := inner
    refine ⟨?_, trees, ?_, handled, valued⟩
    · simpa using Narrow.of_sole sole narrow
    · exact unfolds.wrap held (by simp) (by simp [sole])

section Rule

variable {index start : Nat} (held : chart.Holds ref (.rule index) start)
  (sole : chart.derivations ref = #[derivation]) {arguments : List (Value α)}
  (inner : chart.Evaluates grammar input derivation.children (.ok arguments))
include held sole inner

theorem rule {value : Value α} (handles : grammar.Handles derivation.production)
    (reduced : grammar.reduce? derivation.production arguments = some value) :
    chart.Evaluates grammar input [ref] (.ok [value]) := by
  obtain ⟨narrow, trees, unfolds, handled, valued⟩ := inner
  refine ⟨?_, [.rule derivation.production trees], ?_, .rule handles handled .nil, ?_⟩
  · simpa using Narrow.of_sole sole narrow
  · exact unfolds.wrap held (by simp) (by simp [sole])
  · rw [Tree.values_singleton, Tree.value?, valued, Option.bind_some, reduced]
    rfl

theorem length_arguments (sound : chart.Sound grammar input) :
    arguments.length = (grammar.symbols derivation.production).size := by
  obtain ⟨-, trees, unfolds, -, valued⟩ := inner
  rw [Tree.length_values valued]
  exact unfolds.length_children sound held (by simp [sole])

theorem noAction (sound : chart.Sound grammar input)
    (acts : grammar.action? derivation.production = none) (several : arguments.length ≠ 1) :
    chart.Evaluates grammar input [ref] (.error (.noAction derivation.production)) := by
  intro narrow
  refine ⟨⟨_, rfl⟩, fun trees unfolds handled => ?_⟩
  obtain ⟨children, -, rfl⟩ := (Unfolds.sole_iff held (by simp) sole).mp unfolds
  cases handled with
  | rule handles =>
    rcases handles with some | single
    · simp [acts] at some
    · exact several ((length_arguments held sole inner sound).trans single)

theorem valueless {action : Action α}
    (acts : grammar.action? derivation.production = some action)
    (failed : action arguments = none) :
    ∀ trees, chart.Unfolds [ref] trees → Tree.values? grammar input trees = none := by
  intro trees unfolds
  obtain ⟨narrow, others, unfolds', -, valued⟩ := inner
  obtain ⟨children, below, rfl⟩ := (Unfolds.sole_iff held (by simp) sole).mp unfolds
  obtain rfl := unfolds'.unique narrow below
  have reduced : grammar.reduce? derivation.production arguments = none := by
    simp [Grammar.reduce?, acts, failed]
  change Tree.values? grammar input [.rule derivation.production others] = none
  rw [Tree.values_singleton, Tree.value?, valued, Option.bind_some, reduced]
  rfl

end Rule

end Chart.Evaluates

/-- Where nothing is ambiguous, no tree of the root has a value if none of a node below has. -/
theorem Chart.valueless_above (sound : chart.Sound grammar input) {root ref : ItemRef}
    (below : ReflTransGen chart.Child root ref) (narrow : chart.Narrow root)
    (valueless : ∀ trees, chart.Unfolds [ref] trees → Tree.values? grammar input trees = none) :
    ∀ trees, chart.Unfolds [root] trees → Tree.values? grammar input trees = none := by
  induction below using ReflTransGen.head_induction_on with
  | refl => exact valueless
  | @head node child step _ ih =>
    have valueless := ih (narrow.child step)
    intro trees unfolds
    obtain ⟨derivation, member, listed⟩ := step
    obtain ⟨tag, start, held⟩ := exists_holds member
    have plain := (sound.derived held member).not_lexeme
    obtain ⟨other, member', children, inner, rfl⟩ := unfolds.unwrap held plain
    obtain rfl := narrow.derivation_eq member' member
    obtain ⟨front, back, split⟩ := List.append_of_mem listed
    rw [split] at inner
    obtain ⟨before, others, rfl, -, rest⟩ := inner.split
    change chart.Unfolds ([child] ++ back) others at rest
    obtain ⟨here, after, rfl, middle, -⟩ := rest.split
    have none : Tree.values? grammar input (before ++ (here ++ after)) = none := by
      rw [Tree.values_append, Tree.values_append, valueless here middle]
      cases Tree.values? grammar input before <;> rfl
    cases tag with
    | lexeme offset => exact absurd rfl (plain offset)
    | dotted position => exact none
    | rule index =>
      change Tree.values? grammar input [.rule _ _] = Option.none
      rw [Tree.values_singleton, Tree.value?, none]
      rfl

/-- Evaluation breaks off because an action fails. If nothing is ambiguous, the forest has no
value then. -/
def Forest.BreaksOff (forest : Forest) (grammar : Grammar α) (input : Array String)
    (fault : Fault) : Prop :=
  (∃ production action arguments, fault = .actionFailed production ∧
    grammar.action? production = some action ∧ action arguments = none) ∧
  (forest.chart.Narrow forest.root →
    ∀ trees, forest.chart.Unfolds [forest.root] trees → Tree.values? grammar input trees = none)

def Reading.evaluation (grammar : Grammar α) (input : Array String) (chart : Chart) :
    Reading (Except EvalError (Value α)) (Except EvalError (List (Value α))) where
  node child value := chart.Evaluates grammar input [child.ref] (value.map ([·]))
  spliced ref values := chart.Evaluates grammar input [ref] (collectValues values)
  alternative _ _ _ := True

theorem Reading.Values.evaluates {tag : Tag} {derivation : Derivation}
    {values : List (Except EvalError (Value α))}
    (stand : (Reading.evaluation grammar input chart).Values chart
      (grammar.walkChildren tag derivation) values) :
    chart.Evaluates grammar input derivation.children (collectValues values) := by
  obtain ⟨parts, rfl, each⟩ := stand.parts
    (fun ref part => chart.Evaluates grammar input [ref] (collectValues part))
    (fun child value evaluates => by rwa [collectValues_singleton])
    (fun ref values evaluates => evaluates)
  exact .flatten each

section Evaluator

variable {forest : Forest} (valid : Array (Call α) → Prop)
  (push : ∀ {ref index start derivation arguments calls},
    forest.chart.Holds ref (.rule index) start → forest.chart.derivations ref = #[derivation] →
    forest.chart.Evaluates grammar input derivation.children (.ok arguments) → valid calls →
    valid (calls.push ⟨derivation.production, arguments⟩))

section Respects

variable (broken : Fault → Prop)
  (fails : ∀ {ref index start derivation action arguments},
    forest.chart.Holds ref (.rule index) start → forest.chart.derivations ref = #[derivation] →
    ReflTransGen forest.chart.Child forest.root ref →
    forest.chart.Evaluates grammar input derivation.children (.ok arguments) →
    grammar.action? derivation.production = some action → action arguments = none →
    broken (.actionFailed derivation.production))
include push fails

private theorem applyAction_leads (sound : forest.chart.Sound grammar input) {ref : ItemRef}
    {index start : Nat} (held : forest.chart.Holds ref (.rule index) start)
    {derivation : Derivation} (sole : forest.chart.derivations ref = #[derivation])
    (below : ReflTransGen forest.chart.Child forest.root ref) {arguments : List (Value α)}
    (inner : forest.chart.Evaluates grammar input derivation.children (.ok arguments))
    {calls : Array (Call α)} (logged : valid calls) :
    Ends broken
      (fun outcome => valid outcome.1 ∧
        forest.chart.Evaluates grammar input [ref] (outcome.2.map ([·])))
      (grammar.applyAction derivation.production arguments calls) := by
  unfold Grammar.applyAction
  cases acts : grammar.action? derivation.production with
  | some action =>
    simp only
    cases made : action arguments with
    | some value =>
      refine ⟨push held sole inner logged, inner.rule held sole (.inl (by simp [acts])) ?_⟩
      simp [Grammar.reduce?, acts, made]
    | none => exact fails held sole below inner acts made
  | none =>
    have length := inner.length_arguments held sole sound
    simp only
    split
    · refine ⟨logged, inner.rule held sole (.inr length.symm) ?_⟩
      simp [Grammar.reduce?, acts]
    · rename_i several
      refine ⟨logged, inner.noAction held sole sound acts fun single => ?_⟩
      obtain ⟨value, same⟩ := List.length_eq_one_iff.mp single
      exact several value same

/-- The evaluator makes of every node what it evaluates to, unless an action fails. -/
theorem Grammar.evaluator_respects (sound : forest.chart.Sound grammar input) :
    (grammar.evaluator input).Respects grammar input forest valid broken
      (.evaluation grammar input forest.chart) where
  lexeme := by
    intro ref offset start token text calls held read _ logged
    have evaluated : (grammar.evaluator input).symbol (.lexeme offset token) (.ok []) calls =
        .ok (calls, .ok (.lexeme text)) := by
      simp [evaluator, read]
    change Ends _ _ ((grammar.evaluator input).symbol (.lexeme offset token) (.ok []) calls)
    rw [evaluated]
    exact ⟨logged, .lexeme sound held read⟩
  complete := by
    intro ref index production made token calls justified below logged
    cases justified with
    | complete held sole values =>
      have inner := values.evaluates
      change Ends _ _ ((grammar.evaluator input).symbol (.rule index _) (collectValues made) calls)
      cases collected : collectValues made with
      | error error =>
        rw [collected] at inner
        exact ⟨logged, inner.error_above held (by simp) sole⟩
      | ok arguments =>
        rw [collected] at inner
        exact applyAction_leads valid push broken fails sound held sole below inner logged
  dotted held _ sole values := values.evaluates.dotted held sole
  alternative _ _ logged := ⟨logged, trivial⟩
  choices _ calls justified logged := by
    cases justified with
    | choices _ several =>
      refine ⟨logged, fun narrow => ?_⟩
      exact absurd (narrow _ (by simp) _ .refl) (Nat.not_le_of_lt several)

end Respects

include push

theorem Forest.evaluate_spec (sound : forest.chart.Sound grammar input) {index start : Nat}
    (root : forest.chart.Holds forest.root (.rule index) start) (logged : valid #[]) :
    (∃ fault, forest.evaluate grammar input = .error fault ∧
      forest.BreaksOff grammar input fault) ∨
    ∃ calls result, forest.evaluate grammar input = .ok (calls, result) ∧ valid calls ∧
      forest.chart.Evaluates grammar input [forest.root] (result.map ([·])) := by
  have respects := Grammar.evaluator_respects valid push (forest.BreaksOff grammar input)
    (fun held sole below inner acts failed => ⟨⟨_, _, _, rfl, acts, failed⟩, fun narrow =>
      Chart.valueless_above sound below narrow (inner.valueless held sole acts failed)⟩) sound
  obtain ⟨fault, walked, broken⟩ | ⟨calls, result, walked, logged, evaluates⟩ :=
    walk_respects sound respects root #[] logged
  · exact .inl ⟨fault, by rw [evaluate, walked]; rfl, broken⟩
  · exact .inr ⟨calls, result, by rw [evaluate, walked]; rfl, logged, evaluates⟩

end Evaluator

/-- A forest without ambiguous nodes evaluates to the value of its tree, or it finds a production
that cannot have one, or an action fails. -/
theorem Forest.evaluate_narrow (forest : Forest) (sound : forest.chart.Sound grammar input)
    {index start : Nat} (root : forest.chart.Holds forest.root (.rule index) start)
    (narrow : forest.chart.Narrow forest.root) {tree : Tree}
    (unfolds : forest.chart.Unfolds [forest.root] [tree]) :
    (∃ calls value, forest.evaluate grammar input = .ok (calls, .ok value) ∧
      grammar.Handled [tree] ∧ tree.value? grammar input = some value) ∨
    (∃ calls production, forest.evaluate grammar input =
      .ok (calls, .error (.noAction production)) ∧ ¬ grammar.Handled [tree]) ∨
    ∃ production action arguments, forest.evaluate grammar input =
      .error (.actionFailed production) ∧ grammar.action? production = some action ∧
        action arguments = none ∧ tree.value? grammar input = none := by
  have narrow' : ∀ ref ∈ [forest.root], forest.chart.Narrow ref := by simpa using narrow
  obtain ⟨fault, broken, failed, valueless⟩ | ⟨calls, result, evaluated, -, evaluates⟩ :=
    evaluate_spec (fun _ => True) (fun _ _ _ _ => trivial) sound root trivial
  · obtain ⟨production, action, arguments, rfl, acts, failed⟩ := failed
    have none := valueless narrow [tree] unfolds
    rw [Tree.values_singleton, Option.map_eq_none_iff] at none
    exact .inr (.inr ⟨production, action, arguments, broken, acts, failed, none⟩)
  · cases result with
    | error error =>
      obtain ⟨⟨production, rfl⟩, unhandled⟩ := evaluates narrow'
      exact .inr (.inl ⟨calls, production, evaluated, unhandled [tree] unfolds⟩)
    | ok value =>
      obtain ⟨-, trees, unfolds', handled, valued⟩ := evaluates
      obtain rfl := unfolds.unique narrow' unfolds'
      rw [Tree.values_singleton] at valued
      obtain ⟨other, folded, same⟩ := Option.map_eq_some_iff.mp valued
      obtain rfl := List.singleton_inj.mp same
      exact .inl ⟨calls, other, evaluated, handled, folded⟩

theorem Chart.evaluate_of_tree (sound : chart.Sound grammar input) {ref : ItemRef}
    {index start : Nat} (held : chart.Holds ref (.rule index) start) (narrow : chart.Narrow ref)
    {tree : Tree} (unfolds : chart.Unfolds [ref] [tree]) (handled : grammar.Handled [tree])
    {value : Value α} (valued : tree.value? grammar input = some value) :
    ∃ calls, (⟨chart, ref⟩ : Forest).evaluate grammar input = .ok (calls, .ok value) := by
  obtain ⟨calls, other, evaluated, -, valued'⟩ | ⟨-, -, -, unhandled⟩ |
    ⟨-, -, -, -, -, -, none⟩ :=
      Forest.evaluate_narrow ⟨chart, ref⟩ sound held narrow unfolds
  · obtain rfl := Option.some.inj (valued.symm.trans valued')
    exact ⟨calls, evaluated⟩
  · exact absurd handled unhandled
  · cases valued.symm.trans none

end ChartParser
