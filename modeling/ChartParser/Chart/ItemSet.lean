import ChartParser.Chart.Item
import Std.Data.TreeMap

/-! The items that end at one offset, in the order in which they were found, with indexes to look
them up. -/
namespace ChartParser

/-- The `index` holds the place of every item under its tag and start, `awaiting` the places of the
items whose next symbol is a given rule or exact token, and `awaitingClass` those of the items
whose next symbol is a token class. -/
structure ItemSet where
  items : Array Item
  index : Std.TreeMap (List Nat) Nat
  awaiting : Std.TreeMap (List Nat) (Array Nat)
  awaitingClass : Array Nat

def Symbol.key : Symbol → List Nat
  | rule index => [0, index]
  | token index => [1, index]

theorem Symbol.key_injective {first second : Symbol} (same : first.key = second.key) :
    first = second := by
  cases first <;> cases second <;> simp_all [key]

namespace ItemSet

variable {α : Type}

def empty : ItemSet := ⟨#[], ∅, ∅, #[]⟩

def keyOf (tag : Tag) (start : Nat) : List Nat := start :: tag.key

/-- The place of the item with this tag that starts at this offset. -/
def find? (set : ItemSet) (tag : Tag) (start : Nat) : Option Nat := set.index[keyOf tag start]?

/-- The places of the items that wait for this rule or exact token, in the order of the items. -/
def awaiters (set : ItemSet) (symbol : Symbol) : Array Nat :=
  set.awaiting.getD symbol.key #[]

/-- Notes what the item at a new place waits for. -/
def await (grammar : Grammar α) (set : ItemSet) (place : Nat) : Tag → ItemSet
  | .dotted position =>
    match grammar.next? position with
    | none => set
    | some symbol =>
      let isClass := match symbol with
        | .rule _ => false
        | .token token => grammar.isClass token
      if isClass then { set with awaitingClass := set.awaitingClass.push place }
      else
        { set with
          awaiting := set.awaiting.alter symbol.key fun places => (places.getD #[]).push place }
  | .lexeme _ => set
  | .rule _ => set

/-- The place of the item with this tag and start, which becomes the last one if it is new. -/
def insert (grammar : Grammar α) (set : ItemSet) (tag : Tag) (start : Nat) : Nat × ItemSet :=
  match set.find? tag start with
  | some place => (place, set)
  | none =>
    let place := set.items.size
    let set := { set with
      items := set.items.push ⟨tag, start, .none⟩
      index := set.index.insert (keyOf tag start) place }
    (place, set.await grammar place tag)

/-- Records one more way to build the item at a place. -/
def derive (set : ItemSet) (place : Nat) (derivation : Derivation) : ItemSet :=
  { set with
    items := set.items.modify place fun item => { item with ways := item.ways.add derivation } }

def collapse (set : ItemSet) (place : Nat) (derivation : Derivation) : ItemSet :=
  { set with
    items := set.items.modify place fun item =>
      { item with ways := item.ways.collapse derivation } }

end ItemSet

end ChartParser
