import ChartParser.Proofs.Traversal.Pruning

/-! The search by steps as a loop that knows no limit on the number of open nodes, and goes on until
all of them have been closed. With room for all nodes at the outset, the limit is never met, and so
the loop ends as the search does. -/
namespace ChartParser.Traversal

variable {σ κ β γ ρ ε : Type}

def Config.renew (config : Config σ κ β γ ρ) : Config σ κ β γ ρ := { config with room := 1 }

def Progress.renew : Progress σ κ β γ ρ ε → Progress σ κ β γ ρ ε
  | .next config => .next config.renew
  | .done outcome => .done outcome

/-- One turn of the loop, for which there is always room. -/
def turn (traversal : Traversal σ κ β γ ρ ε) (config : Config σ κ β γ ρ) : Progress σ κ β γ ρ ε :=
  (traversal.step config.renew).renew

/-- From this configuration, the loop ends with the outcome. -/
inductive Halts (traversal : Traversal σ κ β γ ρ ε) :
    Config σ κ β γ ρ → Except ε (σ × Option ρ) → Prop
  | done (turns : traversal.turn config = .done ending) : Halts traversal config ending
  | next (turns : traversal.turn config = .next next) (rest : Halts traversal next ending) :
      Halts traversal config ending

/-- The search of a node without a limit ends with the outcome: at once, if the node is not opened,
and otherwise with the end of the loop that starts at the open node. -/
inductive Concludes (traversal : Traversal σ κ β γ ρ ε) (marks : Marks) (root : κ) (state : σ) :
    Except ε (σ × Option ρ) → Prop
  | broken (entered : traversal.enter root state = .error stop) :
      Concludes traversal marks root state (.error stop)
  | closed (entered : traversal.enter root state = .ok (next, .closed result)) :
      Concludes traversal marks root state (.ok (next, result))
  | opened (entered : traversal.enter root state = .ok (next, .opened alternatives held))
      (halts : Halts traversal
        ⟨1, [.start root alternatives held], marks.insert (traversal.node root), next⟩ ending) :
      Concludes traversal marks root state ending

def after (traversal : Traversal σ κ β γ ρ ε) : Nat → Config σ κ β γ ρ → Option (Config σ κ β γ ρ)
  | 0, config => some config
  | count + 1, config =>
    match traversal.step config with
    | .next next => after traversal count next
    | .done _ => none

variable {traversal : Traversal σ κ β γ ρ ε} {contract : Contract σ κ β γ ρ ε}
  {holds : σ → Prop} {marks : Marks}

theorem Reaches.after {root : κ} {state : σ} {room count : Nat} {config last : Config σ κ β γ ρ}
    (reached : traversal.Reaches marks root state room config)
    (found : traversal.after count config = some last) :
    traversal.Reaches marks root state room last := by
  induction count generalizing config with
  | zero =>
    obtain rfl := Option.some.inj found
    exact reached
  | succ count ih =>
    rw [Traversal.after] at found
    split at found
    · rename_i next proceeds
      exact ih (reached.step proceeds) found
    · cases found

/-- How much room there is does not matter for the loop. -/
theorem Halts.renew {config : Config σ κ β γ ρ} {ending : Except ε (σ × Option ρ)}
    (halts : traversal.Halts config ending) : traversal.Halts config.renew ending := by
  cases halts with
  | done turns => exact .done turns
  | next turns rest => exact .next turns rest

private theorem descend_renew {room : Nat} {current : Marks} {state : σ} {frame : Frame κ β γ ρ}
    {around : List (Frame κ β γ ρ)} {child : κ}
    (space : current.contains (traversal.node child) = false → room ≠ 0) :
    (traversal.descend 1 current state frame around child).renew =
      (traversal.descend room current state frame around child).renew := by
  simp only [descend]
  cases room with
  | zero =>
    have open' : current.contains (traversal.node child) = true := by
      by_contra closed
      exact space (Bool.eq_false_iff.mpr closed) rfl
    rw [if_pos open']
    rfl
  | succ room =>
    simp only
    split
    · rfl
    · rcases traversal.enter child state with stop | ⟨next, result | ⟨alternatives, held⟩⟩ <;> rfl

/-- With room for a child that is not open, a step is a turn of the loop. -/
theorem turn_eq_step {config : Config σ κ β γ ρ}
    (space : ∀ child ∈ config.child?,
      config.marks.contains (traversal.node child) = false → config.room ≠ 0) :
    traversal.turn config = (traversal.step config).renew := by
  obtain ⟨room, stack, current, state⟩ := config
  cases stack with
  | nil => rfl
  | cons frame around =>
    obtain ⟨node, held, alternative, results, pending, rest⟩ := frame
    cases pending with
    | cons child pending => exact descend_renew (space child rfl)
    | nil =>
      cases alternative with
      | some alternative =>
        simp only [turn, Config.renew, step]
        rcases traversal.accept node held alternative results state with stop | ⟨next, after⟩
        · rfl
        · rfl
      | none =>
        cases rest with
        | cons entry rest => rfl
        | nil =>
          simp only [turn, Config.renew, step, ascend]
          rcases traversal.leave node held state with stop | ⟨next, result⟩
          · rfl
          · cases around <;> rfl

theorem halts_run {root : κ} {state : σ} {room : Nat}
    (space : ∀ {config : Config σ κ β γ ρ}, traversal.Reaches marks root state room config →
      ∀ child ∈ config.child?, config.marks.contains (traversal.node child) = false →
        config.room ≠ 0) {config : Config σ κ β γ ρ}
    (reached : traversal.Reaches marks root state room config) :
    traversal.Halts config (traversal.run config) := by
  fun_induction run traversal config with
  | case1 config next step ih =>
    have turns := turn_eq_step (space reached)
    rw [step] at turns
    exact .next turns (ih (reached.step step)).renew
  | case2 config outcome step =>
    have turns := turn_eq_step (space reached)
    rw [step] at turns
    exact .done turns

/-- Where everything asked for is a node, and there is room for all nodes, the search without a
limit ends, and with the same outcome. -/
theorem Keeps.concludes (keeps : traversal.Keeps contract)
    (marking : traversal.Marking holds marks) (unmarked : ∀ ref, marks.contains ref = false)
    (flagged : ∀ {child}, contract.asked child →
      (marks.flag? (traversal.node child)).isSome = true) {room : Nat}
    (roomy : ∀ path : List ItemRef, path.Nodup →
      (∀ ref ∈ path, (marks.flag? ref).isSome = true) → path.length ≤ room)
    {root : κ} {state : σ} (asked : contract.asked root) (valid : contract.state state)
    (started : holds state) :
    traversal.Concludes marks root state (traversal.traverse room marks root state) := by
  have space := roomy [traversal.node root] (List.nodup_singleton _) <| by
    intro ref listed
    rw [List.mem_singleton.mp listed]
    exact flagged asked
  cases room with
  | zero => cases space
  | succ room =>
    simp only [Traversal.traverse]
    cases entered : traversal.enter root state with
    | error stop => exact .broken entered
    | ok outcome =>
      obtain ⟨next, result | ⟨alternatives, held⟩⟩ := outcome
      · exact .closed entered
      · have reached : traversal.Reaches marks root state (room + 1) _ := .start entered
        refine .opened entered (halts_run ?_ reached).renew
        intro config reached child next closed
        exact keeps.room_ne_zero marking unmarked flagged roomy asked valid started reached next
          closed

end ChartParser.Traversal
