import ChartParser.Proofs.Traversal.Invariant

namespace ChartParser

variable {σ κ β γ γ' ρ ρ' ε : Type}

/-- What entering a node leads to, without what is only carried along. -/
def Arrival.map (held : γ → γ') (result : ρ → ρ') : Arrival κ β γ ρ → Arrival κ β γ' ρ'
  | .closed value => .closed (value.map result)
  | .opened alternatives node => .opened alternatives (held node)

namespace Traversal

def forget {τ υ : Type} (plain : τ → υ) (computation : Except ε (σ × τ)) : Except ε (σ × υ) :=
  computation.map fun outcome => (outcome.1, plain outcome.2)

section Maps

variable (held : γ → γ') (result : ρ → ρ')

def Frame.map (frame : Frame κ β γ ρ) : Frame κ β γ' ρ' where
  child := frame.child
  held := held frame.held
  current := frame.current
  results := frame.results.map result
  pending := frame.pending
  rest := frame.rest

def Config.map (config : Config σ κ β γ ρ) : Config σ κ β γ' ρ' :=
  ⟨config.room, config.stack.map (Frame.map held result), config.marks, config.state⟩

def Progress.map : Progress σ κ β γ ρ ε → Progress σ κ β γ' ρ' ε
  | .next config => .next (config.map held result)
  | .done outcome => .done (forget (Option.map result) outcome)

theorem Frame.map_receive (frame : Frame κ β γ ρ) (value : Option ρ) :
    (frame.receive value).map held result = (frame.map held result).receive (value.map result) := by
  cases value with
  | none => rfl
  | some value => simp [Frame.map, Frame.receive]

end Maps

/-- At every single node, the one search does what the other one does, but for what it carries
along. -/
structure Projects (rich : Traversal σ κ β γ ρ ε) (plain : Traversal σ κ β γ' ρ' ε)
    (held : γ → γ') (result : ρ → ρ') : Prop where
  node : plain.node = rich.node
  enter : ∀ child state,
    plain.enter child state = forget (Arrival.map held result) (rich.enter child state)
  accept : ∀ child node alternative results state,
    plain.accept child (held node) alternative (results.map result) state =
      forget held (rich.accept child node alternative results state)
  leave : ∀ child node state,
    plain.leave child (held node) state = forget (Option.map result) (rich.leave child node state)

namespace Projects

variable {rich : Traversal σ κ β γ ρ ε} {plain : Traversal σ κ β γ' ρ' ε} {held : γ → γ'}
  {result : ρ → ρ'} (projects : rich.Projects plain held result)
include projects

private theorem descend (room : Nat) (marks : Marks) (state : σ) (frame : Frame κ β γ ρ)
    (around : List (Frame κ β γ ρ)) (child : κ) :
    plain.descend room marks state (frame.map held result) (around.map (Frame.map held result))
        child = (rich.descend room marks state frame around child).map held result := by
  cases room with
  | zero => rfl
  | succ room =>
    simp only [Traversal.descend, projects.node, projects.enter]
    split
    · rfl
    · cases rich.enter child state with
      | error stop => rfl
      | ok outcome =>
        obtain ⟨next, value | ⟨alternatives, node⟩⟩ := outcome
        · simp [forget, Except.map, Arrival.map, Progress.map, Config.map, Frame.map_receive]
        · rfl

private theorem ascend (room : Nat) (marks : Marks) (state : σ) (frame : Frame κ β γ ρ)
    (around : List (Frame κ β γ ρ)) :
    plain.ascend room marks state (frame.map held result) (around.map (Frame.map held result)) =
      (rich.ascend room marks state frame around).map held result := by
  have left := projects.leave frame.child frame.held state
  simp only [Traversal.ascend, Frame.map, projects.node, left]
  cases rich.leave frame.child frame.held state with
  | error stop => rfl
  | ok outcome =>
    cases around with
    | nil => rfl
    | cons parent around =>
      simp [forget, Except.map, Progress.map, Config.map, Frame.map_receive]

theorem step (config : Config σ κ β γ ρ) :
    plain.step (config.map held result) = (rich.step config).map held result := by
  obtain ⟨room, stack, marks, state⟩ := config
  cases stack with
  | nil => rfl
  | cons frame around =>
    obtain ⟨child, node, current, results, pending, rest⟩ := frame
    cases pending with
    | cons first pending =>
      exact projects.descend room marks state ⟨child, node, current, results, pending, rest⟩
        around first
    | nil =>
      cases current with
      | some alternative =>
        have accepted := projects.accept child node alternative results state
        simp only [Traversal.step, Config.map, List.map_cons, Frame.map, accepted]
        cases rich.accept child node alternative results state <;> rfl
      | none =>
        cases rest with
        | nil => exact projects.ascend room marks state ⟨child, node, none, results, [], []⟩ around
        | cons entry rest => rfl

theorem run (config : Config σ κ β γ ρ) :
    plain.run (config.map held result) = forget (Option.map result) (rich.run config) := by
  fun_induction Traversal.run rich config with
  | case1 config next proceeds ih =>
    have step := projects.step config
    rw [proceeds] at step
    rw [Traversal.run.eq_def, step]
    exact ih
  | case2 config outcome proceeds =>
    have step := projects.step config
    rw [proceeds] at step
    rw [Traversal.run.eq_def, step]
    rfl

theorem traverse (room : Nat) (marks : Marks) (child : κ) (state : σ) :
    plain.traverse room marks child state =
      forget (Option.map result) (rich.traverse room marks child state) := by
  cases room with
  | zero => rfl
  | succ room =>
    simp only [Traversal.traverse, projects.node, projects.enter]
    cases rich.enter child state with
    | error stop => rfl
    | ok outcome =>
      obtain ⟨next, value | ⟨alternatives, node⟩⟩ := outcome
      · rfl
      · exact projects.run ⟨room, [.start child alternatives node],
          marks.insert (rich.node child), next⟩

theorem reaches {marks : Marks} {root : κ} {state : σ} {room : Nat}
    {config : Config σ κ β γ' ρ'} (reached : plain.Reaches marks root state room config) :
    ∃ carrying, rich.Reaches marks root state room carrying ∧
      carrying.map held result = config := by
  induction reached with
  | @start next alternatives node room entered =>
    rw [projects.enter] at entered
    cases arrived : rich.enter root state with
    | error stop =>
      rw [arrived] at entered
      cases entered
    | ok outcome =>
      rw [arrived] at entered
      obtain ⟨next, value | ⟨alternatives, node⟩⟩ := outcome
      · cases entered
      · cases entered
        exact ⟨_, .start arrived, by rw [projects.node]; rfl⟩
  | step _ proceeds ih =>
    obtain ⟨carrying, reached, rfl⟩ := ih
    rw [projects.step] at proceeds
    cases stepped : rich.step carrying with
    | done outcome =>
      rw [stepped] at proceeds
      cases proceeds
    | next after =>
      rw [stepped] at proceeds
      cases proceeds
      exact ⟨after, reached.step stepped, rfl⟩

end Projects

end Traversal

end ChartParser
