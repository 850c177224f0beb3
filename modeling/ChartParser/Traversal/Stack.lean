import ChartParser.Forest.Marks
import ChartParser.Traversal.Basic
import ChartParser.Traversal.Load

/-! Depth-first search by steps on a stack of open nodes, as deep forests need. Every step lightens
the load of the search, so that it comes to an end. -/
namespace ChartParser.Traversal

variable {σ κ β γ ρ ε : Type} (traversal : Traversal σ κ β γ ρ ε)

/-- An open node: the alternative being searched, the results of its children so far, its children
that have not been entered, and the alternatives that come after it. -/
structure Frame (κ β γ ρ : Type) where
  child : κ
  held : γ
  current : Option β
  results : List ρ
  pending : List κ
  rest : List (β × List κ)

namespace Frame

def start (child : κ) (alternatives : List (β × List κ)) (held : γ) : Frame κ β γ ρ :=
  ⟨child, held, none, [], [], alternatives⟩

/-- Hands the result of a child to the node around it. A failed child ends the alternative. -/
def receive (frame : Frame κ β γ ρ) : Option ρ → Frame κ β γ ρ
  | some result => { frame with results := frame.results ++ [result] }
  | none => { frame with current := none, results := [], pending := [] }

/-- The number of steps that the node itself will take at most. -/
def counter (frame : Frame κ β γ ρ) : Nat :=
  frame.pending.length + (if frame.current.isSome then 1 else 0) +
    (2 * frame.rest.length + (frame.rest.flatMap Prod.snd).length)

theorem counter_receive_le (frame : Frame κ β γ ρ) (result : Option ρ) :
    (frame.receive result).counter ≤ frame.counter := by
  cases result with
  | some result => exact Nat.le_refl _
  | none =>
    simp only [receive, counter, List.length_nil, Option.isSome_none]
    simp only [Bool.false_eq_true, ite_false]
    exact Nat.add_le_add_right (Nat.zero_le _) _

end Frame

/-- A search under way: the open nodes, the innermost first, with marks on them, and the number of
nodes that may still be opened inside. -/
structure Config (σ κ β γ ρ : Type) where
  room : Nat
  stack : List (Frame κ β γ ρ)
  marks : Marks
  state : σ

inductive Progress (σ κ β γ ρ ε : Type) where
  | next (config : Config σ κ β γ ρ)
  | done (outcome : Except ε (σ × Option ρ))

def descend (room : Nat) (marks : Marks) (state : σ) (frame : Frame κ β γ ρ)
    (around : List (Frame κ β γ ρ)) (child : κ) : Progress σ κ β γ ρ ε :=
  match room with
  | 0 => .next ⟨0, frame.receive none :: around, marks, state⟩
  | room + 1 =>
    if marks.contains (traversal.node child) then
      .next ⟨room + 1, frame.receive none :: around, marks, state⟩
    else
      match traversal.enter child state with
      | .error stop => .done (.error stop)
      | .ok (state, .closed result) =>
        .next ⟨room + 1, frame.receive result :: around, marks, state⟩
      | .ok (state, .opened alternatives held) =>
        .next ⟨room, .start child alternatives held :: frame :: around,
          marks.insert (traversal.node child), state⟩

def ascend (room : Nat) (marks : Marks) (state : σ) (frame : Frame κ β γ ρ)
    (around : List (Frame κ β γ ρ)) : Progress σ κ β γ ρ ε :=
  match traversal.leave frame.child frame.held state with
  | .error stop => .done (.error stop)
  | .ok (state, result) =>
    match around with
    | [] => .done (.ok (state, result))
    | parent :: around =>
      .next ⟨room + 1, parent.receive result :: around,
        marks.erase (traversal.node frame.child), state⟩

def step (config : Config σ κ β γ ρ) : Progress σ κ β γ ρ ε :=
  match config with
  | ⟨_, [], _, state⟩ => .done (.ok (state, none))
  | ⟨room, frame :: around, marks, state⟩ =>
    match frame.pending with
    | child :: pending =>
      traversal.descend room marks state { frame with pending } around child
    | [] =>
      match frame.current with
      | some alternative =>
        match traversal.accept frame.child frame.held alternative frame.results state with
        | .error stop => .done (.error stop)
        | .ok (state, held) =>
          .next ⟨room, { frame with held, current := none } :: around, marks, state⟩
      | none =>
        match frame.rest with
        | (alternative, pending) :: rest =>
          .next ⟨room, { frame with current := some alternative, results := [], pending, rest } ::
            around, marks, state⟩
        | [] => traversal.ascend room marks state frame around

def Config.load (config : Config σ κ β γ ρ) : Load :=
  ⟨config.room, config.stack.map Frame.counter⟩

private theorem load_descend {room : Nat} {marks : Marks} {state : σ}
    {frame before : Frame κ β γ ρ} {around : List (Frame κ β γ ρ)} {child : κ}
    {next : Config σ κ β γ ρ} (less : frame.counter < before.counter)
    (step : traversal.descend room marks state frame around child = .next next) :
    Load.Lighter next.load (Config.load ⟨room, before :: around, marks, state⟩) := by
  have received (result : Option ρ) : (frame.receive result).counter < before.counter :=
    Nat.lt_of_le_of_lt (frame.counter_receive_le result) less
  unfold descend at step
  split at step
  · cases step
    exact .spend (received none)
  · split at step
    · cases step
      exact .spend (received none)
    · split at step <;> cases step
      · exact .spend (received _)
      · exact .descend less

private theorem load_ascend {room : Nat} {marks : Marks} {state : σ} {frame : Frame κ β γ ρ}
    {around : List (Frame κ β γ ρ)} {next : Config σ κ β γ ρ}
    (step : traversal.ascend room marks state frame around = .next next) :
    Load.Lighter next.load (Config.load ⟨room, frame :: around, marks, state⟩) := by
  unfold ascend at step
  split at step
  · cases step
  · split at step <;> cases step
    exact .ascend (Frame.counter_receive_le _ _)

/-- A step leaves less work than there was. -/
theorem load_step {config next : Config σ κ β γ ρ} (step : traversal.step config = .next next) :
    Load.Lighter next.load config.load := by
  rcases config with ⟨room, _ | ⟨frame, around⟩, marks, state⟩
  · cases step
  · rcases frame with ⟨child, held, current, results, pending, rest⟩
    cases pending with
    | cons first pending => exact traversal.load_descend (by simp [Frame.counter]) step
    | nil =>
      cases current with
      | some alternative =>
        simp only [Traversal.step] at step
        split at step
        · cases step
        · cases step
          exact .spend (by simp [Frame.counter])
      | none =>
        cases rest with
        | cons alternative rest =>
          cases step
          refine .spend ?_
          simp only [Frame.counter, List.flatMap_cons, List.length_append, List.length_cons]
          simp
          omega
        | nil => exact traversal.load_ascend step

def run (config : Config σ κ β γ ρ) : Except ε (σ × Option ρ) :=
  match _ : traversal.step config with
  | .next next => run next
  | .done outcome => outcome
termination_by config.load
decreasing_by exact traversal.load_step ‹_›

def traverse (room : Nat) (marks : Marks) (child : κ) (state : σ) : Except ε (σ × Option ρ) :=
  match room with
  | 0 => .ok (state, none)
  | room + 1 =>
    match traversal.enter child state with
    | .error stop => .error stop
    | .ok (state, .closed result) => .ok (state, result)
    | .ok (state, .opened alternatives held) =>
      traversal.run ⟨room, [.start child alternatives held],
        marks.insert (traversal.node child), state⟩

end ChartParser.Traversal
