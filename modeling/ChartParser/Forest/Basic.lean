import ChartParser.Chart.Basic
import ChartParser.Forest.Marks

/-! Parse forests: a chart with the item that covers the whole input. Items are the nodes. -/
namespace ChartParser

/-- The nodes are the items of the chart, and their derivations lead to the nodes below. -/
structure Forest where
  chart : Chart
  root : ItemRef

/-- The part a node plays when a forest is walked. A node with several derivations is ambiguous; of
the others, the symbols before a dot are intermediate, and lexemes and rules are complete. -/
inductive Shape where
  | ambiguous
  | intermediate
  | complete
  deriving DecidableEq

namespace Item

/-- Several derivations make a node ambiguous, whatever it has matched. -/
def shape (item : Item) : Shape :=
  if 1 < item.derivations.size then .ambiguous
  else match item.tag with
    | .dotted _ => .intermediate
    | _ => .complete

end Item

namespace Chart

variable (chart : Chart)

/-- Does a node with several derivations come up when all nodes below these are visited? -/
def reachesAmbiguity (seen : Marks) (pending : List ItemRef) : Bool :=
  match pending with
  | [] => false
  | ref :: pending =>
    if seen.isFree ref then
      let derivations := chart.derivations ref
      if 1 < derivations.size then true
      else
        reachesAmbiguity (seen.insert ref)
          (derivations.toList.flatMap Derivation.children ++ pending)
    else reachesAmbiguity seen pending
termination_by (seen.freeCount, pending.length)
decreasing_by
  · exact Prod.Lex.left _ _ (Marks.freeCount_insert_lt ‹_›)
  · exact Prod.Lex.right _ (Nat.lt_succ_self _)

/-- Marks for all items of the chart, none of them set. -/
def marks : Marks := Marks.clear (chart.sets.map fun set => set.items.size)

end Chart

namespace Forest

variable (forest : Forest)

/-- Is a node below the root ambiguous, or the root itself? -/
def isAmbiguous : Bool := forest.chart.reachesAmbiguity forest.chart.marks [forest.root]

def setCount : Nat := forest.chart.sets.size

def itemCount : Nat := forest.chart.itemCount

def debugText : String :=
  "Forest \x7b root: ItemIdx \x7b set: " ++ toString forest.root.set ++ ", item: " ++
    toString forest.root.place ++ " \x7d, sets_len: " ++ toString forest.setCount ++
    ", items_len: " ++ toString forest.itemCount ++ " \x7d"

end Forest

end ChartParser
