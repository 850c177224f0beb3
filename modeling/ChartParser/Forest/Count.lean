import ChartParser.Forest.Walk

namespace ChartParser

/-- A derivation has the product of the counts of its children, an ambiguous node the sum of the
counts of its alternatives. -/
def counter : Visitor Unit Nat Nat Empty where
  choices _ _ alternatives state := .ok (state, alternatives.foldl (· + ·) 0)
  derivation children state := .ok (state, children.foldl (· * ·) 1)
  symbol _ derivation state := .ok (state, derivation)

def Forest.treeCount {α : Type} (grammar : Grammar α) (forest : Forest) : Option Nat :=
  match forest.walk grammar counter () with
  | .ok (_, count) => count

/-- The number of parse trees in 64 bits, where it wraps around. -/
def Forest.treeCount64 {α : Type} (grammar : Grammar α) (forest : Forest) : Option UInt64 :=
  (forest.treeCount grammar).map UInt64.ofNat

end ChartParser
