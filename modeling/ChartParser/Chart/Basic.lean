import ChartParser.Chart.ItemSet

namespace ChartParser

/-- The item sets of a parse. The set at an offset holds the items that end there. -/
structure Chart where
  sets : Array ItemSet

namespace Chart

variable (chart : Chart)

def item? (ref : ItemRef) : Option Item := chart.sets[ref.set]?.bind (·.items[ref.place]?)

def derivations (ref : ItemRef) : Array Derivation :=
  match chart.item? ref with
  | some item => item.derivations
  | none => #[]

variable {chart} in
theorem derivations_of_item {ref : ItemRef} {item : Item} (found : chart.item? ref = some item) :
    chart.derivations ref = item.derivations := by
  rw [derivations, found]

def sole? (ref : ItemRef) : Option Derivation := (chart.item? ref).bind (·.sole?)

def find? (tag : Tag) (start stop : Nat) : Option ItemRef :=
  chart.sets[stop]?.bind fun set => (set.find? tag start).map fun place => ⟨stop, place⟩

/-- All items, set by set. -/
def refs : List ItemRef :=
  chart.sets.toList.zipIdx.flatMap fun (set, offset) =>
    (List.range set.items.size).map fun place => ⟨offset, place⟩

def itemCount : Nat := chart.refs.length

def collapse (ref : ItemRef) (derivation : Derivation) : Chart :=
  ⟨chart.sets.modify ref.set fun set => set.collapse ref.place derivation⟩

end Chart

end ChartParser
