import ChartParser.Chart.Item

/-! Depth-first search of the nodes of a forest. A node offers alternatives, an alternative needs
all of its children, and a node that is being searched cannot be searched again below itself. Here
the search is given by recursion, which says what is done at which node and in what order. -/
namespace ChartParser

/-- What entering a node leads to: an immediate result, or alternatives with their children. -/
inductive Arrival (κ β γ ρ : Type) where
  | closed (result : Option ρ)
  | opened (alternatives : List (β × List κ)) (held : γ)

/-- What a search does at the nodes it meets: `σ` is the state it carries on, `κ` the way a child
is asked for, `β` an alternative, `γ` what an open node holds, `ρ` a result and `ε` a reason to
break off. No result means that the node, and with it the alternative that needs it, fails. -/
structure Traversal (σ κ β γ ρ ε : Type) where
  node : κ → ItemRef
  enter : κ → σ → Except ε (σ × Arrival κ β γ ρ)
  accept : κ → γ → β → List ρ → σ → Except ε (σ × γ)
  leave : κ → γ → σ → Except ε (σ × Option ρ)

namespace Traversal

variable {σ κ β γ ρ ε : Type} (traversal : Traversal σ κ β γ ρ ε)

/-- Visits children up to the first one that fails. -/
def visitChildren (visit : κ → σ → Except ε (σ × Option ρ)) :
    List κ → σ → Except ε (σ × Option (List ρ))
  | [], state => .ok (state, some [])
  | child :: children, state => do
    let (state, result) ← visit child state
    match result with
    | none => .ok (state, none)
    | some result =>
      let (state, results) ← visitChildren visit children state
      .ok (state, results.map (result :: ·))

/-- Visits the alternatives of an open node in order and accepts those that do not fail. -/
def visitAlternatives (visit : κ → σ → Except ε (σ × Option ρ)) (child : κ) :
    List (β × List κ) → γ → σ → Except ε (σ × γ)
  | [], held, state => .ok (state, held)
  | (alternative, children) :: rest, held, state => do
    let (state, results) ← visitChildren visit children state
    match results with
    | none => visitAlternatives visit child rest held state
    | some results =>
      let (state, held) ← traversal.accept child held alternative results state
      visitAlternatives visit child rest held state

/-- Searches a node by recursion. It fails if it is on the path that led to it, or if there is no
room for one more node on the path. -/
def visit (room : Nat) (path : List ItemRef) (child : κ) (state : σ) :
    Except ε (σ × Option ρ) :=
  match room with
  | 0 => .ok (state, none)
  | room + 1 =>
    if traversal.node child ∈ path then .ok (state, none)
    else do
      let (state, entry) ← traversal.enter child state
      match entry with
      | .closed result => .ok (state, result)
      | .opened alternatives held =>
        let (state, held) ← traversal.visitAlternatives
          (visit room (traversal.node child :: path)) child alternatives held state
        traversal.leave child held state

end Traversal

end ChartParser
