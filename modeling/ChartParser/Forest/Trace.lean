import ChartParser.Forest.Walk

namespace ChartParser

/-- One call of a visitor. The values in it are named by the places of the calls that gave them. -/
inductive WalkEvent where
  | derivation (children : List Nat)
  | lexeme (offset token derivation : Nat)
  | rule (index production derivation : Nat)
  | choices (node : ItemRef) (tag : Tag) (alternatives : List Nat)
  deriving DecidableEq

/-- Appends a call, and gives its place for a value. -/
def record (event : WalkEvent) (events : Array WalkEvent) :
    Except Empty (Array WalkEvent × Nat) :=
  .ok (events.push event, events.size)

def recorder : Visitor (Array WalkEvent) Nat Nat Empty where
  choices node tag alternatives := record (.choices node tag alternatives)
  derivation children := record (.derivation children)
  symbol node derivation :=
    match node with
    | .lexeme offset token => record (.lexeme offset token derivation)
    | .rule index production => record (.rule index production derivation)

/-- The calls on a walk of the forest, and the place of the one that gave the value of the root. -/
def Forest.trace {α : Type} (grammar : Grammar α) (forest : Forest) :
    Array WalkEvent × Option Nat :=
  match forest.walk grammar recorder #[] with
  | .ok outcome => outcome

end ChartParser
