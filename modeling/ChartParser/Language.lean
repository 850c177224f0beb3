import ChartParser.Forest.Bracketed
import ChartParser.Forest.Count

namespace ChartParser

/-- All sentences of a length, the first lexeme deciding their order. -/
def sentencesOfLength (alphabet : List String) : Nat → List (List String)
  | 0 => [[]]
  | length + 1 =>
    alphabet.flatMap fun lexeme => (sentencesOfLength alphabet length).map (lexeme :: ·)

/-- All sentences up to a length, the shorter ones first. -/
def sentences (alphabet : List String) (longest : Nat) : List (List String) :=
  (List.range (longest + 1)).flatMap (sentencesOfLength alphabet)

/-- What a grammar makes of a sentence: the size of the chart, the number of trees and the one tree
that disambiguation leaves; or why it is no sentence of the language. -/
inductive Verdict where
  | accepted (items : Nat) (trees : Option UInt64) (tree : Option String)
  | rejected (error : ParseError)

namespace Grammar

variable {α : Type} (grammar : Grammar α)

def judge (start : Nat) (prefer : Nat → Nat → Bool) (counted : Bool) (sentence : List String) :
    Array Event × Except Fault Verdict :=
  let input := sentence.toArray
  match grammar.parse start input with
  | (events, .error error) => (events, .ok (.rejected error))
  | (events, .ok forest) =>
    let items := forest.itemCount
    let trees := if counted then forest.treeCount64 grammar else none
    let (forest, event) := forest.disambiguate prefer
    (events.push event,
      (forest.bracketed grammar input).map fun tree => .accepted items trees tree)

end Grammar

end ChartParser
