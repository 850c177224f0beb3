import ChartParser.Proofs.Calls

namespace ChartParser

variable {α : Type} {grammar : Grammar α} {input : Array String} {start : Nat}

namespace Grammar

theorem parseActions_of_error {error : ParseError}
    (failed : (grammar.parse start input).2 = .error error) :
    (grammar.parseActions start input).2 = .ok (#[], .error (.parse error)) := by
  unfold parseActions
  cases parsed : grammar.parse start input with
  | mk events result =>
    rw [parsed] at failed
    obtain rfl : result = .error error := failed
    rfl

theorem parseActions_of_forest {forest : Forest}
    (success : (grammar.parse start input).2 = .ok forest) :
    (grammar.parseActions start input).2 =
      ((forest.disambiguate (Preference.priority.prefers grammar)).1.evaluate grammar input).map
        fun outcome => (outcome.1, outcome.2.mapError .eval) := by
  unfold parseActions
  cases parsed : grammar.parse start input with
  | mk events result =>
    rw [parsed] at success
    obtain rfl : result = .ok forest := success
    rfl

theorem parse_error_iff (valid : grammar.WellFormed) :
    (∃ error, (grammar.parse start input).2 = .error error) ↔
      ¬ grammar.Derives start input.toList := by
  rw [derives_iff_exists_tree]
  constructor
  · rintro ⟨error, failed⟩ ⟨tree, parses⟩
    obtain ⟨forest, success⟩ := parse_of_tree valid parses
    cases failed.symm.trans success
  · intro underived
    cases result : (grammar.parse start input).2 with
    | error error => exact ⟨error, rfl⟩
    | ok forest =>
      have parsed := parsed_of_parse valid result
      obtain ⟨-, tree, parses, -⟩ := parsed.single_left grammar.higherPriority
      exact absurd ⟨tree, parses⟩ underived

/-- The pipeline fails with a parse error exactly if the start rule does not derive the input, and
with the error of parsing. Otherwise there is one tree left after disambiguation by priority. The
outcome is the value of that tree, if all of its productions have an action or exactly one symbol,
and it is the error that a production has no action, if not; unless an action fails, so that there
is no outcome and no value either. -/
theorem parseActions_outcome {draft : Draft α} {range : IndexRange}
    (built : draft.build range = .ok grammar) (start : Nat) (input : Array String) :
    let outcome := (grammar.parseActions start input).2
    (∀ error, (∃ calls, outcome = .ok (calls, .error (.parse error))) ↔
      (grammar.parse start input).2 = .error error) ∧
    ((∃ error, (grammar.parse start input).2 = .error error) ↔
      ¬ grammar.Derives start input.toList) ∧
    ∀ forest, (grammar.parse start input).2 = .ok forest →
      let after := (forest.disambiguate (Preference.priority.prefers grammar)).1
      ∃ tree, IsParseTree grammar input start tree ∧
        (∀ trees, after.chart.Unfolds [after.root] trees ↔ trees = [tree]) ∧
        ((∃ calls value, outcome = .ok (calls, .ok value) ∧ grammar.Handled [tree] ∧
            tree.value? grammar input = some value) ∨
          (∃ calls production, outcome = .ok (calls, .error (.eval (.noAction production))) ∧
            ¬ grammar.Handled [tree]) ∨
          ∃ production action arguments, outcome = .error (.actionFailed production) ∧
            grammar.action? production = some action ∧ action arguments = none ∧
            tree.value? grammar input = none) := by
  have valid := Draft.build_wellFormed built
  refine ⟨fun error => ⟨?_, fun failed => ⟨_, parseActions_of_error failed⟩⟩,
    parse_error_iff valid, ?_⟩
  · rintro ⟨calls, failed⟩
    cases result : (grammar.parse start input).2 with
    | error other =>
      rw [parseActions_of_error result] at failed
      cases failed
      rfl
    | ok forest =>
      rw [parseActions_of_forest result] at failed
      generalize Forest.evaluate _ _ _ = evaluated at failed
      obtain fault | ⟨calls, error | value⟩ := evaluated <;> cases failed
  · intro forest success after
    have parsed := parsed_of_parse valid success
    have sound := parsed.sound.disambiguate (Preference.priority.prefers grammar)
    obtain ⟨narrow, tree, parses, only⟩ :=
      parsed.single_left (Preference.priority.prefers grammar)
    refine ⟨tree, parses, only, ?_⟩
    have evaluated := Forest.evaluate_narrow _ sound.chart sound.root narrow ((only [tree]).mpr rfl)
    rw [parseActions_of_forest success]
    obtain ⟨calls, value, evaluated, decided⟩ | ⟨calls, production, evaluated, decided⟩ |
      ⟨production, action, arguments, evaluated, decided⟩ := evaluated
    · exact .inl ⟨calls, value, by rw [evaluated]; rfl, decided⟩
    · exact .inr (.inl ⟨calls, production, by rw [evaluated]; rfl, decided⟩)
    · exact .inr (.inr ⟨production, action, arguments, by rw [evaluated]; rfl, decided⟩)

/-- Three summands have the value three, by the tree that is left of their sum; a lonely plus sign
is no sum. -/
theorem parseActions_additions :
    (∃ tree calls, IsParseTree (Draft.additions.number .bits8) #["x", "+", "x", "+", "x"] 0 tree ∧
      ((Draft.additions.number .bits8).parseActions 0 #["x", "+", "x", "+", "x"]).2 =
        .ok (calls, .ok (.action 3)) ∧
      tree.value? (Draft.additions.number .bits8) #["x", "+", "x", "+", "x"] =
        some (.action 3)) ∧
    ∃ calls error, ((Draft.additions.number .bits8).parseActions 0 #["+"]).2 =
      .ok (calls, .error (.parse error)) := by
  constructor
  · obtain ⟨forest, calls, success, evaluated, -⟩ := Draft.evaluate_additions
    have outcome := parseActions_of_forest success
    rw [show Preference.priority.prefers (Draft.additions.number .bits8) =
      (Draft.additions.number .bits8).higherPriority from rfl, evaluated] at outcome
    obtain ⟨-, -, decided⟩ :=
      parseActions_outcome Draft.build_additions 0 #["x", "+", "x", "+", "x"]
    obtain ⟨tree, parses, -, decided⟩ := decided forest success
    rw [outcome] at decided
    obtain ⟨calls, value, same, -, valued⟩ | ⟨calls, production, same, -⟩ |
      ⟨production, action, arguments, same, -⟩ := decided <;> cases same
    exact ⟨tree, _, parses, outcome, valued⟩
  · have failed : ((Draft.additions.number .bits8).parse 0 #["+"]).2.toOption.isSome = false := by
      decide +kernel
    cases result : ((Draft.additions.number .bits8).parse 0 #["+"]).2 with
    | ok forest => simp [result, Except.toOption] at failed
    | error error =>
      obtain ⟨agrees, -⟩ := parseActions_outcome Draft.build_additions 0 #["+"]
      obtain ⟨calls, outcome⟩ := (agrees error).mpr result
      exact ⟨calls, error, outcome⟩

end Grammar

end ChartParser
