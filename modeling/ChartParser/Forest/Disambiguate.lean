import ChartParser.Event
import ChartParser.Forest.Basic
import ChartParser.Forest.Compare
import ChartParser.Traversal.Stack

/-! Disambiguation: every ambiguous node below the root is reduced to its best derivation. A node
that has been resolved never changes again, and a derivation with a child that is being resolved
closes a cycle and is never chosen. -/
namespace ChartParser

/-- How far the nodes of a chart have been resolved. -/
structure Resolution where
  chart : Chart
  resolved : Marks
  collapsed : Nat

/-- A node being resolved: whether it has several derivations, and the best one so far. -/
structure Contest where
  several : Bool
  best : Option Derivation

namespace Resolution

variable (prefer : Nat → Nat → Bool) (depth : Nat)

/-- Starts to resolve a node. A node that has been resolved, or that has no derivation, is done. -/
def enter (ref : ItemRef) (resolution : Resolution) :
    Resolution × Arrival ItemRef Derivation Contest Unit :=
  if resolution.resolved.contains ref then (resolution, .closed (some ()))
  else
    let derivations := resolution.chart.derivations ref
    if derivations.isEmpty then
      ({ resolution with resolved := resolution.resolved.insert ref }, .closed (some ()))
    else
      (resolution, .opened
        (derivations.toList.map fun derivation => (derivation, derivation.children))
        ⟨1 < derivations.size, none⟩)

/-- A derivation whose children are resolved replaces the best one so far if it is better. -/
def accept (contest : Contest) (derivation : Derivation) (resolution : Resolution) : Contest :=
  match contest.best with
  | none => { contest with best := some derivation }
  | some best =>
    if resolution.chart.compare prefer depth derivation best = .gt then
      { contest with best := some derivation }
    else contest

/-- Leaves a node with its best derivation. If it has none, it is left as it is, and can be
resolved again from elsewhere. -/
def leave (ref : ItemRef) (contest : Contest) (resolution : Resolution) :
    Resolution × Option Unit :=
  match contest.best with
  | none => (resolution, none)
  | some best =>
    let resolution := if contest.several then
        { resolution with
          chart := resolution.chart.collapse ref best
          collapsed := resolution.collapsed + 1 }
      else resolution
    ({ resolution with resolved := resolution.resolved.insert ref }, some ())

def traversal : Traversal Resolution ItemRef Derivation Contest Unit Empty where
  node := id
  enter ref resolution := .ok (resolution.enter ref)
  accept _ contest derivation _ resolution :=
    .ok (resolution, resolution.accept prefer depth contest derivation)
  leave ref contest resolution := .ok (resolution.leave ref contest)

end Resolution

namespace Forest

variable (forest : Forest)

def resolve (prefer : Nat → Nat → Bool) : Resolution × Bool :=
  let count := forest.itemCount
  match (Resolution.traversal prefer count).traverse count forest.chart.marks forest.root
      ⟨forest.chart, forest.chart.marks, 0⟩ with
  | .ok (resolution, result) => (resolution, result.isSome)

/-- Leaves every node below the root with the derivation that the preference likes best, and
reports how many nodes that changed. -/
def disambiguate (prefer : Nat → Nat → Bool) : Forest × Event :=
  let root := forest.root
  let (resolution, _) := forest.resolve prefer
  (⟨resolution.chart, root⟩, .disambiguated resolution.collapsed)

end Forest

end ChartParser
