import ChartParser.Forest.Basic
import ChartParser.Traversal.Stack

/-! Walking a forest from its root with a visitor, children before parents. The symbols before a
dot are never seen: their children are spliced into those of the rule that they belong to. -/
namespace ChartParser

/-- A completed node: a lexeme with the token that it was matched as, or a rule with the production
that matched it. -/
inductive SymbolNode where
  | lexeme (offset token : Nat)
  | rule (index production : Nat)
  deriving DecidableEq

/-- What is done at the nodes of a forest. `derivation` takes the values of the children of one
derivation in order. `symbol` then completes a node, and `choices` an ambiguous one. -/
structure Visitor (σ ο δ ε : Type) where
  choices : ItemRef → Tag → List δ → σ → Except ε (σ × ο)
  derivation : List ο → σ → Except ε (σ × δ)
  symbol : SymbolNode → δ → σ → Except ε (σ × ο)

/-- What walking a node gives: its value, or the values of the children of an intermediate node. -/
inductive Walked (ο : Type) where
  | node (value : ο)
  | spliced (values : List ο)

/-- What a node gives to the children of the rule above it. -/
def Walked.values {ο : Type} : Walked ο → List ο
  | node value => [value]
  | spliced values => values

/-- A child to walk, with the token that it has to be matched as if it is a lexeme. -/
structure WalkChild where
  ref : ItemRef
  token : Option Nat
  deriving DecidableEq

/-- A node being walked: what its only derivation gave, or what its alternatives gave. -/
structure WalkNode (ο δ : Type) where
  tag : Tag
  shape : Shape
  only : Option (Nat × List ο)
  alternatives : Array δ

namespace Grammar

variable {α : Type} (grammar : Grammar α)

def tokenAt (production place : Nat) : Option Nat :=
  match (grammar.symbols production)[place]? with
  | some (.token token) => some token
  | _ => none

/-- The children of a derivation. A left child that is a lexeme is the first symbol of the
production, and the right child is the symbol before the dot. -/
def walkChildren (tag : Tag) (derivation : Derivation) : List WalkChild :=
  let dot := match tag with
    | .dotted position => position.dot
    | _ => (grammar.symbols derivation.production).size
  let last := if dot = 0 then none else grammar.tokenAt derivation.production (dot - 1)
  derivation.left.toList.map (⟨·, grammar.tokenAt derivation.production 0⟩) ++
    derivation.right.toList.map (⟨·, last⟩)

end Grammar

namespace Visitor

variable {α σ ο δ ε : Type} (visitor : Visitor σ ο δ ε)

/-- Starts to walk a node. Lexemes and nodes without derivations are done at once. -/
def enter (grammar : Grammar α) (chart : Chart) (child : WalkChild) (state : σ) :
    Except ε (σ × Arrival WalkChild Derivation (WalkNode ο δ) (Walked ο)) :=
  match chart.item? child.ref with
  | none => .ok (state, .closed none)
  | some item =>
    match item.tag, child.token with
    | .lexeme _, none => .ok (state, .closed none)
    | .lexeme offset, some token => do
      let (state, derivation) ← visitor.derivation [] state
      let (state, value) ← visitor.symbol (.lexeme offset token) derivation state
      .ok (state, .closed (some (.node value)))
    | tag, _ =>
      if item.derivations.isEmpty then
        match item.shape with
        | .intermediate => .ok (state, .closed (some (.spliced [])))
        | _ => .ok (state, .closed none)
      else
        .ok (state, .opened
          (item.derivations.toList.map fun derivation =>
            (derivation, grammar.walkChildren tag derivation))
          ⟨tag, item.shape, none, #[]⟩)

def accept (node : WalkNode ο δ) (derivation : Derivation) (results : List (Walked ο))
    (state : σ) : Except ε (σ × WalkNode ο δ) :=
  let values := results.flatMap Walked.values
  match node.shape with
  | .ambiguous => do
    let (state, alternative) ← visitor.derivation values state
    .ok (state, { node with alternatives := node.alternatives.push alternative })
  | _ => .ok (state, { node with only := some (derivation.production, values) })

def leave (ref : ItemRef) (node : WalkNode ο δ) (state : σ) : Except ε (σ × Option (Walked ο)) :=
  match node.shape with
  | .ambiguous =>
    if node.alternatives.isEmpty then .ok (state, none)
    else do
      let (state, value) ← visitor.choices ref node.tag node.alternatives.toList state
      .ok (state, some (.node value))
  | .intermediate => .ok (state, node.only.map fun only => .spliced only.2)
  | .complete =>
    match node.tag, node.only with
    | .rule rule, some (production, values) => do
      let (state, derivation) ← visitor.derivation values state
      let (state, value) ← visitor.symbol (.rule rule production) derivation state
      .ok (state, some (.node value))
    | _, _ => .ok (state, none)

def traversal (grammar : Grammar α) (chart : Chart) :
    Traversal σ WalkChild Derivation (WalkNode ο δ) (Walked ο) ε where
  node := WalkChild.ref
  enter := visitor.enter grammar chart
  accept _ node derivation results state := visitor.accept node derivation results state
  leave child node state := visitor.leave child.ref node state

end Visitor

namespace Forest

variable {α σ ο δ ε : Type} (forest : Forest)

/-- Walks the forest. There is no value if every way to walk the root goes round a cycle. -/
def walk (grammar : Grammar α) (visitor : Visitor σ ο δ ε) (state : σ) :
    Except ε (σ × Option ο) := do
  let (state, walked) ← (visitor.traversal grammar forest.chart).traverse
    forest.itemCount forest.chart.marks ⟨forest.root, none⟩ state
  match walked with
  | some (.node value) => .ok (state, some value)
  | _ => .ok (state, none)

end Forest

end ChartParser
