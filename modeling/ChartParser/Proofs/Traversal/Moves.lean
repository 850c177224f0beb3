import ChartParser.Traversal.Stack

namespace ChartParser.Traversal

variable {σ κ β γ ρ ε : Type}

/-- The ways to go on. The innermost open node enters its next child, which is rejected, closed at
once, or opened inside. If there is no child to enter, it accepts the alternative that has been
searched, or tries the next one, or is left for the node around it. -/
inductive Moves (traversal : Traversal σ κ β γ ρ ε) :
    Config σ κ β γ ρ → Config σ κ β γ ρ → Prop
  | rejects {node : κ} (shut : room = 0 ∨ marks.contains (traversal.node child) = true) :
      Moves traversal
        ⟨room, ⟨node, held, current, results, child :: pending, rest⟩ :: around, marks, state⟩
        ⟨room, Frame.receive ⟨node, held, current, results, pending, rest⟩ none :: around, marks,
          state⟩
  | closes {node : κ} (free : marks.contains (traversal.node child) = false)
      (entered : traversal.enter child state = .ok (next, .closed result)) :
      Moves traversal
        ⟨room + 1, ⟨node, held, current, results, child :: pending, rest⟩ :: around, marks, state⟩
        ⟨room + 1, Frame.receive ⟨node, held, current, results, pending, rest⟩ result :: around,
          marks, next⟩
  | opens {node : κ} (free : marks.contains (traversal.node child) = false)
      (entered : traversal.enter child state = .ok (next, .opened alternatives inside)) :
      Moves traversal
        ⟨room + 1, ⟨node, held, current, results, child :: pending, rest⟩ :: around, marks, state⟩
        ⟨room, .start child alternatives inside ::
          ⟨node, held, current, results, pending, rest⟩ :: around,
          marks.insert (traversal.node child), next⟩
  | accepts {node : κ}
      (accepted : traversal.accept node held alternative results state = .ok (next, kept)) :
      Moves traversal
        ⟨room, ⟨node, held, some alternative, results, [], rest⟩ :: around, marks, state⟩
        ⟨room, ⟨node, kept, none, results, [], rest⟩ :: around, marks, next⟩
  | tries {node : κ} :
      Moves traversal
        ⟨room, ⟨node, held, none, results, [], (alternative, children) :: rest⟩ :: around, marks,
          state⟩
        ⟨room, ⟨node, held, some alternative, [], children, rest⟩ :: around, marks, state⟩
  | leaves {node : κ} (left : traversal.leave node held state = .ok (next, result)) :
      Moves traversal
        ⟨room, ⟨node, held, none, results, [], []⟩ :: parent :: around, marks, state⟩
        ⟨room + 1, parent.receive result :: around, marks.erase (traversal.node node), next⟩

variable {traversal : Traversal σ κ β γ ρ ε} {config next : Config σ κ β γ ρ}

/-- A step that the search goes on from is one of these moves. -/
theorem moves_of_step (proceeds : traversal.step config = .next next) :
    traversal.Moves config next := by
  obtain ⟨room, stack, marks, state⟩ := config
  cases stack with
  | nil => cases proceeds
  | cons frame around =>
    obtain ⟨node, held, current, results, pending, rest⟩ := frame
    cases pending with
    | cons child pending =>
      cases room with
      | zero =>
        cases proceeds
        exact .rejects (.inl rfl)
      | succ room =>
        simp only [step, descend] at proceeds
        split at proceeds
        · cases proceeds
          exact .rejects (.inr ‹_›)
        · rename_i free
          split at proceeds <;> cases proceeds
          · exact .closes (Bool.eq_false_iff.mpr free) ‹_›
          · exact .opens (Bool.eq_false_iff.mpr free) ‹_›
    | nil =>
      cases current with
      | some alternative =>
        simp only [step] at proceeds
        split at proceeds <;> cases proceeds
        exact .accepts ‹_›
      | none =>
        cases rest with
        | cons entry rest =>
          cases proceeds
          exact .tries
        | nil =>
          simp only [step, ascend] at proceeds
          split at proceeds
          · cases proceeds
          · cases around with
            | nil => cases proceeds
            | cons parent around =>
              cases proceeds
              exact .leaves ‹_›

theorem leaves_of_step {outcome : σ × Option ρ}
    (ended : traversal.step config = .done (.ok outcome)) :
    (config.stack = [] ∧ outcome = (config.state, none)) ∨
    ∃ frame, config.stack = [frame] ∧ frame.pending = [] ∧ frame.current = none ∧
      frame.rest = [] ∧ traversal.leave frame.child frame.held config.state = .ok outcome := by
  obtain ⟨room, stack, marks, state⟩ := config
  cases stack with
  | nil =>
    cases ended
    exact .inl ⟨rfl, rfl⟩
  | cons frame around =>
    obtain ⟨node, held, current, results, pending, rest⟩ := frame
    cases pending with
    | cons child pending =>
      cases room with
      | zero => cases ended
      | succ room =>
        simp only [step, descend] at ended
        split at ended
        · cases ended
        · split at ended <;> cases ended
    | nil =>
      cases current with
      | some alternative =>
        simp only [step] at ended
        split at ended <;> cases ended
      | none =>
        cases rest with
        | cons entry rest => cases ended
        | nil =>
          simp only [step, ascend] at ended
          split at ended
          · cases ended
          · cases around with
            | nil =>
              cases ended
              exact .inr ⟨_, rfl, rfl, rfl, rfl, ‹_›⟩
            | cons parent around => cases ended

end ChartParser.Traversal
