import ChartParser.Proofs.Traversal.Pruning

/-! What a search does to the state that it carries on: nothing but what it does at single nodes. So
whatever is kept at every node, from the configurations that the search goes through, holds when the
search ends. -/
namespace ChartParser.Traversal

variable {σ κ β γ ρ ε : Type} {traversal : Traversal σ κ β γ ρ ε} {marks : Marks}

/-- The state that a step leaves behind, unless it breaks off. -/
def Progress.state? : Progress σ κ β γ ρ ε → Option σ
  | .next config => some config.state
  | .done (.ok (state, _)) => some state
  | .done (.error _) => none

/-- A step changes the state only by what it does at a single node: it enters the next child of the
innermost open node, accepts the alternative of that node, or leaves it. -/
theorem step_state {config : Config σ κ β γ ρ} {after : σ}
    (left : (traversal.step config).state? = some after) :
    after = config.state ∨
    (∃ child ∈ config.child?, ∃ arrival,
      traversal.enter child config.state = .ok (after, arrival)) ∨
    ∃ frame around, config.stack = frame :: around ∧
      ((∃ alternative held, traversal.accept frame.child frame.held alternative frame.results
        config.state = .ok (after, held)) ∨
      ∃ result, traversal.leave frame.child frame.held config.state = .ok (after, result)) := by
  cases step : traversal.step config with
  | next next =>
    rw [step] at left
    obtain rfl := Option.some.inj left
    cases moves_of_step step with
    | rejects => exact .inl rfl
    | closes _ entered => exact .inr (.inl ⟨_, rfl, _, entered⟩)
    | opens _ entered => exact .inr (.inl ⟨_, rfl, _, entered⟩)
    | accepts accepted => exact .inr (.inr ⟨_, _, rfl, .inl ⟨_, _, accepted⟩⟩)
    | tries => exact .inl rfl
    | leaves leaves => exact .inr (.inr ⟨_, _, rfl, .inr ⟨_, leaves⟩⟩)
  | done outcome =>
    rw [step] at left
    cases outcome with
    | error stop => cases left
    | ok outcome =>
      obtain rfl := Option.some.inj left
      obtain ⟨-, rfl⟩ | ⟨frame, open', -, -, -, leaves⟩ := leaves_of_step step
      · exact .inl rfl
      · exact .inr (.inr ⟨frame, [], open', .inr ⟨_, leaves⟩⟩)

theorem run_of_step {config next : Config σ κ β γ ρ}
    (proceeds : traversal.step config = .next next) :
    traversal.run config = traversal.run next := by
  fun_cases run traversal config with
  | case1 other step => rw [Progress.next.inj (proceeds.symm.trans step)]
  | case2 outcome step => cases proceeds.symm.trans step

theorem Reaches.run_eq {root : κ} {state : σ} {room : Nat} {config : Config σ κ β γ ρ}
    (reached : traversal.Reaches marks root state room config) :
    traversal.run config = traversal.traverse room marks root state := by
  induction reached with
  | start entered => simp only [traverse, entered]
  | step _ proceeds ih => rw [← run_of_step proceeds, ih]

/-- What holds at the start, and is kept by every step of a search, holds in all configurations that
the search goes through. -/
theorem Reaches.keeps {root : κ} {state : σ} {room : Nat} (holds : Config σ κ β γ ρ → Prop)
    (starts : ∀ {next alternatives held left},
      traversal.enter root state = .ok (next, .opened alternatives held) →
      holds ⟨left, [.start root alternatives held], marks.insert (traversal.node root), next⟩)
    (steps : ∀ {config next}, traversal.Reaches marks root state room config → holds config →
      traversal.step config = .next next → holds next)
    {config : Config σ κ β γ ρ} (reached : traversal.Reaches marks root state room config) :
    holds config := by
  induction reached with
  | start entered => exact starts entered
  | step reached proceeds ih => exact steps reached (ih steps) proceeds

/-- A run ends with a step from a configuration that the search goes through, and in which
everything holds that the steps up to there keep. -/
theorem Reaches.last {root : κ} {state : σ} {room : Nat} (holds : Config σ κ β γ ρ → Prop)
    (steps : ∀ {config next}, traversal.Reaches marks root state room config → holds config →
      traversal.step config = .next next → holds next)
    {config : Config σ κ β γ ρ} (reached : traversal.Reaches marks root state room config)
    (valid : holds config) :
    ∃ last, traversal.Reaches marks root state room last ∧ holds last ∧
      traversal.step last = .done (traversal.run config) := by
  fun_induction run traversal config with
  | case1 config next step ih => exact ih (reached.step step) (steps reached valid step)
  | case2 config outcome step => exact ⟨config, reached, valid, step⟩

theorem Reaches.run_keeps {root : κ} {state : σ} {room : Nat} {holds : σ → Prop}
    (steps : ∀ {config after}, traversal.Reaches marks root state room config →
      holds config.state → (traversal.step config).state? = some after → holds after)
    {config : Config σ κ β γ ρ} (reached : traversal.Reaches marks root state room config)
    (valid : holds config.state) {outcome : σ × Option ρ}
    (ended : traversal.run config = .ok outcome) : holds outcome.1 := by
  obtain ⟨last, reached, valid, step⟩ := reached.last (fun config => holds config.state)
    (fun reached valid step => steps reached valid (by rw [step]; rfl)) valid
  refine steps reached valid ?_
  rw [step, ended]
  rfl

theorem traverse_keeps {root : κ} {state : σ} {room : Nat} {holds : σ → Prop}
    (valid : holds state)
    (enters : ∀ {after arrival}, traversal.enter root state = .ok (after, arrival) → holds after)
    (steps : ∀ {config after}, traversal.Reaches marks root state room config →
      holds config.state → (traversal.step config).state? = some after → holds after)
    {outcome : σ × Option ρ} (ended : traversal.traverse room marks root state = .ok outcome) :
    holds outcome.1 := by
  cases room with
  | zero =>
    obtain rfl := Except.ok.inj ended
    exact valid
  | succ room =>
    simp only [traverse] at ended
    split at ended
    · cases ended
    · rename_i entered
      obtain rfl := Except.ok.inj ended
      exact enters entered
    · rename_i entered
      exact Reaches.run_keeps steps (.start entered) (enters entered) ended

end ChartParser.Traversal
