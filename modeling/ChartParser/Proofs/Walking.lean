import ChartParser.Forest.Count
import ChartParser.Forest.Outline
import ChartParser.Proofs.Disambiguation
import ChartParser.Proofs.Forest.Walk

namespace ChartParser

/-- The values of all nodes are alike, and so are those of all single derivations. -/
def Reading.uniform {ο δ : Type} (node : ο → Prop) (alternative : δ → Prop) : Reading ο δ :=
  ⟨fun _ => node, fun _ values => ∀ value ∈ values, node value, fun _ _ => alternative⟩

theorem Reading.Values.alike {ο δ : Type} {node : ο → Prop} {alternative : δ → Prop}
    {chart : Chart} {children : List WalkChild} {values : List ο}
    (stand : (Reading.uniform node alternative).Values chart children values) :
    ∀ value ∈ values, node value := by
  obtain ⟨walked, means, rfl⟩ := stand
  induction means with
  | nil => simp
  | @cons child result children results means _ ih =>
    intro value member
    rcases List.mem_append.mp member with here | there
    · cases result with
      | node value => exact List.mem_singleton.mp here ▸ means
      | spliced values => exact means.2 value here
    · exact ih value there

namespace Visitor

variable {α σ ο δ ε : Type} {visitor : Visitor σ ο δ ε} {grammar : Grammar α}
  {input : Array String}

theorem follows_uniform {allowed : ε → Prop} {node : ο → Prop} {alternative : δ → Prop}
    (derivation : ∀ values state, (∀ value ∈ values, node value) →
      Yields allowed alternative (visitor.derivation values state))
    (lexeme : ∀ {offset lexeme} token made state, input[offset]? = some lexeme →
      alternative made → Yields allowed node (visitor.symbol (.lexeme offset token) made state))
    (rule : ∀ index production made state, alternative made →
      Yields allowed node (visitor.symbol (.rule index production) made state))
    (choices : ∀ ref tag alternatives state, (∀ made ∈ alternatives, alternative made) →
      Yields allowed node (visitor.choices ref tag alternatives state)) (chart : Chart) :
    visitor.Follows grammar input chart allowed (.uniform node alternative) where
  lexeme state _ read _ := by
    refine (derivation [] state (by simp)).bind fun state made alike => ?_
    exact lexeme _ made state read alike
  rule _ state _ _ stand := by
    refine (derivation _ state stand.alike).bind fun state made alike => ?_
    exact rule _ _ made state alike
  dotted _ _ _ stand := stand.alike
  alternative state _ _ _ stand := derivation _ state stand.alike
  choices _ state _ _ _ _ survive := by
    obtain ⟨survivors, -, -, stand⟩ := survive
    refine choices _ _ _ state fun made member => ?_
    obtain ⟨place, inside, rfl⟩ := List.mem_iff_getElem.mp member
    exact (List.forall₂_iff_get.mp stand).2 place (stand.length_eq ▸ inside) inside

/-- The visitor breaks off for this reason at some node. -/
inductive Raises (visitor : Visitor σ ο δ ε) (stop : ε) : Prop
  | choices (raised : visitor.choices ref tag alternatives state = .error stop)
  | derivation (raised : visitor.derivation values state = .error stop)
  | symbol (raised : visitor.symbol node made state = .error stop)

theorem follows_raises (visitor : Visitor σ ο δ ε) (grammar : Grammar α) (input : Array String)
    (chart : Chart) : visitor.Follows grammar input chart visitor.Raises
      (.uniform (fun _ => True) fun _ => True) := by
  have yields {ρ : Type} {computation : Except ε (σ × ρ)}
      (raises : ∀ stop, computation = .error stop → visitor.Raises stop) :
      Yields visitor.Raises (fun _ => True) computation := by
    cases computation with
    | error stop => exact raises stop rfl
    | ok outcome => trivial
  refine follows_uniform ?_ ?_ ?_ ?_ chart
  · exact fun values state _ => yields fun stop => .derivation
  · exact fun token made state _ _ => yields fun stop => .symbol
  · exact fun index production made state _ => yields fun stop => .symbol
  · exact fun ref tag alternatives state _ => yields fun stop => .choices

end Visitor

section Evaluate

variable {α : Type}

theorem collectValues_ne_cyclic {values : List (Except EvalError (Value α))}
    (acyclic : ∀ value ∈ values, value ≠ .error .cyclic) :
    collectValues values ≠ .error .cyclic := by
  induction values with
  | nil => simp [collectValues]
  | cons value values ih =>
    rw [List.forall_mem_cons] at acyclic
    obtain ⟨here, beside⟩ := acyclic
    cases value with
    | error error => simpa [collectValues] using here
    | ok value =>
      rw [collectValues]
      cases collected : collectValues values with
      | error error => simpa [Except.map, collected] using ih beside
      | ok values => simp [Except.map]

/-- Evaluating a node never finds that the node is cyclic. -/
theorem Grammar.evaluator_follows (grammar : Grammar α) (text input : Array String)
    (chart : Chart) : (grammar.evaluator text).Follows grammar input chart (fun _ => True)
      (.uniform (· ≠ .error .cyclic) (· ≠ .error .cyclic)) := by
  refine Visitor.follows_uniform ?_ ?_ ?_ ?_ chart
  · exact fun values calls acyclic => collectValues_ne_cyclic acyclic
  · intro offset lexeme token made calls _ _
    simp only [evaluator]
    cases text[offset]? <;> simp [Yields]
  · intro index production made calls acyclic
    cases made with
    | error error => simpa [evaluator, Yields] using acyclic
    | ok values =>
      simp only [evaluator, applyAction]
      split
      · split <;> simp [Yields]
      · split <;> simp [Yields]
  · simp [evaluator, Yields]

end Evaluate

section Outline

variable {α : Type}

theorem Grammar.outliner_follows (grammar : Grammar α) (text input : Array String)
    (chart : Chart) : (grammar.outliner text).Follows grammar input chart
      (fun _ => text ≠ input) (.uniform (· ≠ []) fun _ => True) := by
  refine Visitor.follows_uniform ?_ ?_ ?_ ?_ chart
  · simp [outliner, Yields]
  · intro offset lexeme token made state read _
    simp only [outliner]
    cases found : text[offset]? with
    | some lexeme => simp [Yields]
    | none =>
      rintro rfl
      rw [found] at read
      cases read
  · simp [outliner, Yields]
  · simp [outliner, Yields]

end Outline

namespace Forest

variable {α : Type} {grammar : Grammar α} {input : Array String} {start : Nat} {forest : Forest}

/-- The forest after one disambiguation for each of the preferences. -/
def disambiguateAll (forest : Forest) (preferences : List (Nat → Nat → Bool)) : Forest :=
  preferences.foldl (fun forest prefer => (forest.disambiguate prefer).1) forest

theorem root_disambiguateAll (forest : Forest) (preferences : List (Nat → Nat → Bool)) :
    (forest.disambiguateAll preferences).root = forest.root := by
  induction preferences generalizing forest with
  | nil => rfl
  | cons prefer preferences ih => exact ih (forest.disambiguate prefer).1

/-- The chart is sound, and the root stands for the rule. -/
structure Sound {α : Type} (grammar : Grammar α) (start : Nat) (input : Array String)
    (forest : Forest) : Prop where
  chart : forest.chart.Sound grammar input
  root : forest.chart.Holds forest.root (.rule start) 0

theorem Parsed.sound (parsed : forest.Parsed grammar start input) :
    forest.Sound grammar start input :=
  ⟨parsed.filled.sound, parsed.root⟩

theorem Sound.disambiguate (sound : forest.Sound grammar start input)
    (prefer : Nat → Nat → Bool) : (forest.disambiguate prefer).1.Sound grammar start input := by
  obtain ⟨resolution, resolved, progress, -⟩ := resolve_spec sound.chart sound.root trivial prefer
  rw [Forest.disambiguate, resolved]
  exact ⟨progress.sound sound.chart, progress.holds.mpr sound.root⟩

theorem Sound.disambiguateAll (sound : forest.Sound grammar start input)
    (preferences : List (Nat → Nat → Bool)) :
    (forest.disambiguateAll preferences).Sound grammar start input := by
  induction preferences generalizing forest with
  | nil => exact sound
  | cons prefer preferences ih => exact ih (sound.disambiguate prefer)

/-- A walk gives a value, unless the visitor breaks off. -/
theorem Sound.walk (sound : forest.Sound grammar start input) {σ ο δ ε : Type}
    (visitor : Visitor σ ο δ ε) (state : σ) :
    (∃ next value, forest.walk grammar visitor state = .ok (next, some value)) ∨
      ∃ stop, forest.walk grammar visitor state = .error stop ∧ visitor.Raises stop := by
  obtain ⟨stop, walked, raises⟩ | ⟨next, value, walked, -⟩ := walk_spec sound.chart sound.root
    (visitor.follows_raises grammar input forest.chart) state
  · exact .inr ⟨stop, walked, raises⟩
  · exact .inl ⟨next, value, walked⟩

theorem Sound.evaluate (sound : forest.Sound grammar start input) (text : Array String)
    (calls : Array (Call α)) : forest.evaluate grammar text ≠ .ok (calls, .error .cyclic) := by
  obtain ⟨stop, walked, -⟩ | ⟨next, value, walked, acyclic⟩ := walk_spec sound.chart sound.root
    (grammar.evaluator_follows text input forest.chart) #[]
  · rw [Forest.evaluate, walked]
    exact nofun
  · rw [Forest.evaluate, walked]
    intro cyclic
    cases cyclic
    exact acyclic rfl

theorem Sound.outline (sound : forest.Sound grammar start input) (text : Array String) :
    (∃ stop, forest.outline grammar text = .error stop ∧ text ≠ input) ∨
      ∃ lines, forest.outline grammar text = .ok lines ∧ lines ≠ "" := by
  obtain ⟨stop, walked, other⟩ | ⟨next, lines, walked, some⟩ := walk_spec sound.chart sound.root
    (grammar.outliner_follows text input forest.chart) ()
  · have failed : forest.outline grammar text = .error stop := by
      rw [Forest.outline, walked]
      rfl
    exact .inl ⟨stop, failed, other⟩
  · have shown : forest.outline grammar text = .ok (String.join (lines.map Line.render)) := by
      rw [Forest.outline, walked]
      rfl
    refine .inr ⟨_, shown, ?_⟩
    cases lines with
    | nil => exact absurd rfl some
    | cons line lines =>
      intro empty
      have shorter := congrArg String.length empty
      simp [Line.render] at shorter

/-- A parsed forest can always be walked, cyclic or not, and after any disambiguations: a walk gives
a value unless the visitor itself breaks off. In particular, evaluation never finds the forest
cyclic, and the forest is never printed as nothing. -/
theorem walk_succeeds {draft : Draft α} {range : IndexRange}
    (built : draft.build range = .ok grammar)
    (success : (grammar.parse start input).2 = .ok forest)
    (preferences : List (Nat → Nat → Bool)) :
    let after := forest.disambiguateAll preferences
    (∀ {σ ο δ ε : Type} (visitor : Visitor σ ο δ ε) (state : σ),
      (∃ next value, after.walk grammar visitor state = .ok (next, some value)) ∨
        ∃ stop, after.walk grammar visitor state = .error stop ∧ visitor.Raises stop) ∧
    (∀ text calls, after.evaluate grammar text ≠ .ok (calls, .error .cyclic)) ∧
    (∀ text, after.outline grammar text ≠ .ok "") ∧
    ∃ lines, after.outline grammar input = .ok lines := by
  have parsed := Grammar.parsed_of_parse (Draft.build_wellFormed built) success
  have sound : forest.Sound grammar start input := ⟨parsed.filled.sound, parsed.root⟩
  have sound := sound.disambiguateAll preferences
  refine ⟨sound.walk, sound.evaluate, fun text printed => ?_, ?_⟩
  · obtain ⟨stop, failed, -⟩ | ⟨lines, shown, some⟩ := sound.outline text
    · cases failed.symm.trans printed
    · cases shown.symm.trans printed
      exact some rfl
  · obtain ⟨stop, -, other⟩ | ⟨lines, shown, -⟩ := sound.outline input
    · exact absurd rfl other
    · exact ⟨lines, shown⟩

/-- The trees of the loop are counted and its forest is printed, before and after the loop has been
left out. -/
theorem walk_loops : ∃ forest, ((Draft.loops.number .bits8).parse 0 #["x"]).2 = .ok forest ∧
    ∀ preferences : List (Nat → Nat → Bool), ∃ count lines,
      (forest.disambiguateAll preferences).treeCount (Draft.loops.number .bits8) = some count ∧
      (forest.disambiguateAll preferences).outline (Draft.loops.number .bits8) #["x"] =
        .ok lines ∧ lines ≠ "" := by
  obtain ⟨forest, success⟩ := Grammar.exists_forest_iff.mpr (show
    ((Draft.loops.number .bits8).parse 0 #["x"]).2.toOption.isSome = true by decide +kernel)
  refine ⟨forest, success, fun preferences => ?_⟩
  obtain ⟨walked, -, shown, lines, printed⟩ :=
    Forest.walk_succeeds Draft.build_loops success preferences
  obtain ⟨next, count, counted⟩ | ⟨stop, -⟩ := walked counter ()
  · refine ⟨count, lines, by rw [treeCount, counted], printed, ?_⟩
    rintro rfl
    exact shown _ printed
  · exact stop.elim

end Forest

end ChartParser
