import ChartParser.Chart.Basic

/-! Filling the item set of one offset. The sets before it are finished and only read; every item
and every derivation goes to the set that is being filled. -/
namespace ChartParser

/-- What stays the same while a set is filled: the grammar, the sets before it, and the lexeme
between it and the last of those. There is no lexeme in front of the first set. -/
structure Setting (α : Type) where
  grammar : Grammar α
  finished : Array ItemSet
  lexeme : Option String

namespace Setting

variable {α : Type} (setting : Setting α)

def offset : Nat := setting.finished.size

/-- No set has more items than this: one lexeme, and one item for every start, rule and dot. -/
def capacity : Nat :=
  (setting.offset + 1) * (setting.grammar.rules.size + setting.grammar.symbolCount) + 1

/-- The set at an offset, `current` being the one that is filled. -/
def setAt (current : ItemSet) (offset : Nat) : ItemSet :=
  if offset = setting.offset then current else setting.finished.getD offset .empty

def item? (current : ItemSet) (ref : ItemRef) : Option Item :=
  (setting.setAt current ref.set).items[ref.place]?

/-- Adds the beginnings of all productions of a rule. An empty production is matched at once. -/
def predict (current : ItemSet) (rule : Nat) : ItemSet :=
  (setting.grammar.productionsOf rule).foldl
    (fun current production =>
      if setting.grammar.isComplete (.startOf production) then
        let (place, current) := current.insert setting.grammar (.rule rule) setting.offset
        current.derive place ⟨none, none, production⟩
      else
        (current.insert setting.grammar (.dotted (.startOf production)) setting.offset).2)
    current

/-- The left part of a derivation that goes on from this item. Before the first symbol there is
none, and after the first symbol it is what matched that symbol. -/
def leftPart (waiting : ItemRef) (item : Item) (position : Position) : Option ItemRef :=
  if position.dot = 0 then none
  else if position.dot = 1 then item.sole?.bind (·.right)
  else some waiting

/-- Moves the dot of a waiting item over the symbol that a completed item has matched. -/
def advance (current : ItemSet) (waiting completed : ItemRef) : ItemSet :=
  match setting.item? current waiting with
  | some item =>
    match item.tag with
    | .dotted position =>
      let next := setting.grammar.advance position
      let tag := if setting.grammar.isComplete next then
          .rule (setting.grammar.ruleOf position.production) else .dotted next
      let left := leftPart waiting item position
      let (place, current) := current.insert setting.grammar tag item.start
      current.derive place ⟨left, some completed, position.production⟩
    | _ => current
  | none => current

def advanceAll (current : ItemSet) (set : Nat) (places : Array Nat) (completed : ItemRef) :
    ItemSet :=
  places.foldl (fun current place => setting.advance current ⟨set, place⟩ completed) current

/-- Does the item at this place wait for a token that matches the lexeme? -/
def awaitsLexeme (current : ItemSet) (lexeme : String) (ref : ItemRef) : Bool :=
  match setting.item? current ref with
  | some ⟨.dotted position, _, _⟩ =>
    match setting.grammar.next? position with
    | some (.token token) => setting.grammar.tokenMatches token lexeme
    | _ => false
  | _ => false

/-- The places of the items in the set at `start` that wait for this lexeme: first those that wait
for the token of that name, then those that wait for a class that accepts it. -/
def lexemeAwaiters (current : ItemSet) (start : Nat) (lexeme : String) : Array Nat :=
  let exact := match setting.grammar.lexemeToken? lexeme with
    | some token => (setting.setAt current start).awaiters (.token token)
    | none => #[]
  let byClass := (setting.setAt current start).awaitingClass.filter fun place =>
    setting.awaitsLexeme current lexeme ⟨start, place⟩
  exact ++ byClass

/-- Advances the items that wait for what the item at a place has matched. -/
def complete (current : ItemSet) (place : Nat) (item : Item) : ItemSet :=
  match item.tag, setting.lexeme with
  | .rule rule, _ =>
    setting.advanceAll current item.start
      ((setting.setAt current item.start).awaiters (.rule rule)) ⟨setting.offset, place⟩
  | .lexeme _, some lexeme =>
    setting.advanceAll current item.start
      (setting.lexemeAwaiters current item.start lexeme) ⟨setting.offset, place⟩
  | _, _ => current

/-- Predicts the rule that the item at a place waits for, or completes the item. -/
def process (current : ItemSet) (place : Nat) : ItemSet :=
  match current.items[place]? with
  | some item =>
    match item.tag with
    | .dotted position =>
      match setting.grammar.next? position with
      | some (.rule rule) => setting.predict current rule
      | _ => current
    | _ => setting.complete current place item
  | none => current

/-- One pass over the items from a place on, those included that it adds. -/
def sweep (capacity : Nat) (current : ItemSet) (place : Nat) : ItemSet :=
  if place < current.items.size ∧ place < capacity then
    sweep capacity (setting.process current place) (place + 1)
  else current
termination_by capacity - place

/-- Passes over the set until one adds no item. Also counts the passes. -/
def saturate (capacity : Nat) (current : ItemSet) (passes : Nat) : ItemSet × Nat :=
  let before := current.items.size
  let swept := setting.sweep capacity current 0
  if grown : before < swept.items.size ∧ swept.items.size ≤ capacity then
    saturate capacity swept (passes + 1)
  else (swept, passes + 1)
termination_by capacity - current.items.size
decreasing_by exact Nat.sub_lt_sub_left (Nat.lt_of_lt_of_le grown.1 grown.2) grown.1

/-- The items that a set starts with: behind a lexeme that lexeme, and in front of the input the
productions of the start rule. -/
def seed (start : Nat) : ItemSet :=
  match setting.lexeme with
  | some _ =>
    (ItemSet.empty.insert setting.grammar (.lexeme (setting.offset - 1)) (setting.offset - 1)).2
  | none => setting.predict .empty start

/-- The full set, and the number of passes that it took. -/
def fill (start : Nat) : ItemSet × Nat :=
  setting.saturate setting.capacity (setting.seed start) 0

end Setting

end ChartParser
