import ChartParser.Proofs.Forest.Evaluation

/-! The calls of actions: an action is called with one value for each symbol of its production, and
these are the values of nodes that make up the node at hand. -/
namespace ChartParser

variable {α : Type} {grammar : Grammar α} {input : Array String} {chart : Chart}

namespace Chart

/-- The values are those of the symbols, one by one, from one offset to another: the text of a
lexeme that matches the token, or the value that a node of the rule evaluates to. -/
inductive Fills (chart : Chart) (grammar : Grammar α) (input : Array String) :
    List (Value α) → List Symbol → Nat → Nat → Prop
  | nil : Fills chart grammar input [] [] offset offset
  | token (read : input[start]? = some lexeme)
      (matched : grammar.tokenMatches token lexeme = true)
      (rest : Fills chart grammar input values symbols (start + 1) stop) :
      Fills chart grammar input (.lexeme lexeme :: values) (.token token :: symbols) start stop
  | rule (held : chart.Holds ref (.rule index) start)
      (evaluated : (⟨chart, ref⟩ : Forest).evaluate grammar input = .ok (calls, .ok value))
      (rest : Fills chart grammar input values symbols ref.set stop) :
      Fills chart grammar input (value :: values) (.rule index :: symbols) start stop

/-- The call is made for the node: the production belongs to its rule, and the arguments are the
values of the production's symbols, over the span of the node. -/
structure Serves (chart : Chart) (grammar : Grammar α) (input : Array String) (ref : ItemRef)
    (call : Call α) : Prop where
  arity : call.arguments.length = grammar.length call.production
  filled : ∃ start, chart.Holds ref (.rule (grammar.ruleOf call.production)) start ∧
    chart.Fills grammar input call.arguments (grammar.symbols call.production).toList start ref.set

theorem Fills.append {values others : List (Value α)} {symbols more : List Symbol}
    {start middle stop : Nat} (fills : chart.Fills grammar input values symbols start middle)
    (further : chart.Fills grammar input others more middle stop) :
    chart.Fills grammar input (values ++ others) (symbols ++ more) start stop := by
  induction fills with
  | nil => exact further
  | token read matched _ ih => exact .token read matched (ih further)
  | rule held evaluated _ ih => exact .rule held evaluated (ih further)

/-- The trees have values that fill the symbols. -/
def Valued (chart : Chart) (grammar : Grammar α) (input : Array String) (trees : List Tree)
    (symbols : List Symbol) (start stop : Nat) : Prop :=
  ∀ values, grammar.Handled trees → Tree.values? grammar input trees = some values →
    chart.Fills grammar input values symbols start stop

theorem Valued.adjoins : Adjoins (chart.Valued grammar input) where
  nil offset := by
    rintro values - ⟨⟩
    exact .nil
  append := by
    intro part further symbols more start middle stop here there joined handled valued
    obtain ⟨handled, handled'⟩ := Grammar.Handled.append_iff.mp handled
    rw [Tree.values_append] at valued
    obtain ⟨values, first, rest⟩ := Option.bind_eq_some_iff.mp valued
    obtain ⟨others, second, rfl⟩ := Option.map_eq_some_iff.mp rest
    exact (here values handled first).append (there others handled' second)

/-- The values that the children of a derivation evaluate to fill the symbols of its production. -/
theorem Evaluates.fills (sound : chart.Sound grammar input) {ref : ItemRef} {index start : Nat}
    (held : chart.Holds ref (.rule index) start) {derivation : Derivation}
    (member : derivation ∈ chart.derivations ref) {arguments : List (Value α)}
    (evaluates : chart.Evaluates grammar input derivation.children (.ok arguments)) :
    chart.Fills grammar input arguments (grammar.symbols derivation.production).toList start
      ref.set := by
  obtain ⟨narrow, trees, unfolds, handled, valued⟩ := evaluates
  have token {offset token : Nat} {lexeme : String} (read : input[offset]? = some lexeme)
      (matched : grammar.tokenMatches token lexeme = true) :
      chart.Valued grammar input [.lexeme offset] [.token token] offset (offset + 1) := by
    intro values _ valued
    rw [Tree.values_singleton, Tree.value?, read] at valued
    cases valued
    exact .token read matched .nil
  have rule {ref : ItemRef} {index start : Nat} {tree : Tree} (narrow : chart.Narrow ref)
      (held : chart.Holds ref (.rule index) start) (unfolds : chart.Unfolds [ref] [tree]) :
      chart.Valued grammar input [tree] [.rule index] start ref.set := by
    intro values handled valued
    rw [Tree.values_singleton] at valued
    obtain ⟨value, folded, rfl⟩ := Option.map_eq_some_iff.mp valued
    obtain ⟨calls, evaluated⟩ := evaluate_of_tree sound held narrow unfolds handled folded
    exact .rule held evaluated .nil
  obtain ⟨parts, rfl, fits⟩ := unfolds.assemble Valued.adjoins sound chart.Narrow
    (fun narrow member listed => narrow.child ⟨_, member, listed⟩) token
    (fun narrow held _ member unfolds _ => rule narrow held (unfolds.wrap held (by simp) member))
    narrow
  exact (sound.derived held member).assemble Valued.adjoins sound fits arguments handled valued

theorem Evaluates.serves (valid : grammar.WellFormed) (sound : chart.Sound grammar input)
    {ref : ItemRef} {index start : Nat} (held : chart.Holds ref (.rule index) start)
    {derivation : Derivation} (sole : chart.derivations ref = #[derivation])
    {arguments : List (Value α)}
    (evaluates : chart.Evaluates grammar input derivation.children (.ok arguments)) :
    chart.Serves grammar input ref ⟨derivation.production, arguments⟩ := by
  have member : derivation ∈ chart.derivations ref := by simp [sole]
  obtain ⟨-, owner⟩ := (sound.derived held member).production sound
  refine ⟨?_, start, ?_, evaluates.fills sound held member⟩
  · rw [valid.length_eq]
    exact evaluates.length_arguments held sole sound
  · rwa [← show grammar.ruleOf derivation.production = index from owner] at held

end Chart

def Chart.AllServed (chart : Chart) (grammar : Grammar α) (input : Array String)
    (calls : Array (Call α)) : Prop :=
  ∀ call ∈ calls, ∃ ref, chart.Serves grammar input ref call

theorem Chart.AllServed.push {calls : Array (Call α)} {call : Call α} {ref : ItemRef}
    (served : chart.AllServed grammar input calls) (serves : chart.Serves grammar input ref call) :
    chart.AllServed grammar input (calls.push call) := by
  intro other member
  rcases Array.mem_push.mp member with before | rfl
  · exact served other before
  · exact ⟨ref, serves⟩

namespace Forest

variable {start : Nat} {forest : Forest}

theorem Sound.evaluate_served (valid : grammar.WellFormed)
    (sound : forest.Sound grammar start input) {calls : Array (Call α)}
    {result : Except EvalError (Value α)}
    (evaluated : forest.evaluate grammar input = .ok (calls, result)) :
    forest.chart.AllServed grammar input calls := by
  obtain ⟨fault, broken, -⟩ | ⟨calls', result', evaluated', served, -⟩ :=
    evaluate_spec (forest.chart.AllServed grammar input)
      (fun held sole inner served => served.push (inner.serves valid sound.chart held sole))
      sound.chart sound.root (by simp [Chart.AllServed])
  · cases broken.symm.trans evaluated
  · cases evaluated'.symm.trans evaluated
    exact served

/-- An evaluation that comes to a rule whose symbols have values has the arguments for its
action. -/
theorem Sound.walks_serves (valid : grammar.WellFormed)
    (sound : forest.Sound grammar start input) {config : WalkConfig (Array (Call α)) _ _}
    (walks : forest.Walks grammar (grammar.evaluator input) #[] config) {ref : ItemRef}
    {index production : Nat} {values : List (Except EvalError (Value α))}
    (awaits : Awaits config (.complete ref index production values)) {arguments : List (Value α)}
    (collected : collectValues values = .ok arguments) :
    forest.chart.Serves grammar input ref ⟨production, arguments⟩ := by
  have respects :=
    Grammar.evaluator_respects (fun _ => True) (fun _ _ _ _ => trivial) (fun _ => True)
      (fun _ _ _ _ _ _ => trivial) sound.chart
  have justified := Walks.justifies sound.chart respects sound.root trivial walks awaits
  cases justified with
  | complete held sole values =>
    have inner := values.evaluates
    rw [collected] at inner
    exact inner.serves valid sound.chart held sole

/-- Actions get one value for each symbol. Whenever the evaluation of a parsed forest, ambiguous or
cyclic, fresh or disambiguated, calls an action for a node, be it in vain, it is called with one
argument for each symbol of its production, in order: the text of a lexeme that matches the token,
or the value of a node of the rule; and the spans of these together are that of the node. So are
all calls that an evaluation to the end has made. -/
theorem calls_filled {draft : Draft α} {range : IndexRange}
    (built : draft.build range = .ok grammar)
    (success : (grammar.parse start input).2 = .ok forest)
    (preferences : List (Nat → Nat → Bool)) :
    let after := forest.disambiguateAll preferences
    (∀ config ref index production values arguments,
      after.Walks grammar (grammar.evaluator input) #[] config →
      Awaits config (.complete ref index production values) →
      collectValues values = .ok arguments →
      after.chart.Serves grammar input ref ⟨production, arguments⟩) ∧
    ∀ calls result, after.evaluate grammar input = .ok (calls, result) →
      ∀ call ∈ calls, ∃ ref, after.chart.Serves grammar input ref call := by
  have valid := Draft.build_wellFormed built
  have parsed := Grammar.parsed_of_parse valid success
  have sound := parsed.sound.disambiguateAll preferences
  refine ⟨?_, fun calls result evaluated => sound.evaluate_served valid evaluated⟩
  intro config ref index production values arguments walks awaits collected
  exact sound.walks_serves valid walks awaits collected

end Forest

def Value.amount : Value Nat → Nat
  | .lexeme _ => 0
  | .action amount => amount

/-- Sums whose value is the number of their summands. -/
def Draft.additions : Draft Nat :=
  .ofEntries "sum" [
    .production ⟨"sum", ["sum", "+", "sum"], none,
      some fun values => some ((values.map Value.amount).foldl (· + ·) 0)⟩,
    .production ⟨"sum", ["x"], none, some fun _ => some 1⟩]

theorem Draft.build_additions :
    Draft.additions.build .bits8 = .ok (Draft.additions.number .bits8) :=
  Draft.build_eq_number (by decide +kernel) (by decide +kernel)

theorem Draft.evaluate_additions : ∃ forest calls,
    ((Draft.additions.number .bits8).parse 0 #["x", "+", "x", "+", "x"]).2 = .ok forest ∧
    (forest.disambiguate (Draft.additions.number .bits8).higherPriority).1.evaluate
      (Draft.additions.number .bits8) #["x", "+", "x", "+", "x"] = .ok (calls, .ok (.action 3)) ∧
    calls.size = 5 := by
  have checked : ((Draft.additions.number .bits8).parse 0
      #["x", "+", "x", "+", "x"]).2.toOption.any (fun forest =>
        match (forest.disambiguate (Draft.additions.number .bits8).higherPriority).1.evaluate
          (Draft.additions.number .bits8) #["x", "+", "x", "+", "x"] with
        | .ok (calls, .ok (.action 3)) => calls.size == 5
        | _ => false) = true := by
    -- searches by steps are not evaluated, but those by recursion are
    simp only [Forest.disambiguate, Forest.resolve_eq_visit, Forest.evaluate, Forest.walk_eq_visit]
    decide +kernel
  cases success : ((Draft.additions.number .bits8).parse 0 #["x", "+", "x", "+", "x"]).2 with
  | error error => simp [success, Except.toOption] at checked
  | ok forest =>
    simp only [success, Except.toOption, Option.any_some] at checked
    split at checked
    · exact ⟨forest, _, rfl, ‹_›, by simpa using checked⟩
    · cases checked

/-- All of the calls are made for nodes of the sum. -/
theorem Forest.calls_additions : ∃ forest calls,
    ((Draft.additions.number .bits8).parse 0 #["x", "+", "x", "+", "x"]).2 = .ok forest ∧
    (forest.disambiguateAll [(Draft.additions.number .bits8).higherPriority]).evaluate
      (Draft.additions.number .bits8) #["x", "+", "x", "+", "x"] = .ok (calls, .ok (.action 3)) ∧
    calls.size = 5 ∧ ∀ call ∈ calls, ∃ ref,
      (forest.disambiguateAll [(Draft.additions.number .bits8).higherPriority]).chart.Serves
        (Draft.additions.number .bits8) #["x", "+", "x", "+", "x"] ref call := by
  obtain ⟨forest, calls, success, evaluated, size⟩ := Draft.evaluate_additions
  obtain ⟨-, served⟩ := Forest.calls_filled Draft.build_additions success
    [(Draft.additions.number .bits8).higherPriority]
  exact ⟨forest, calls, success, evaluated, size, served calls _ evaluated⟩

end ChartParser
