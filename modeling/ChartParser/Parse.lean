import ChartParser.Chart.Fill
import ChartParser.Event
import ChartParser.Forest.Basic

/-! Parsing: the item sets are filled from left to right, until a lexeme is of no use or the input
ends. -/
namespace ChartParser

/-- Where and why the input cannot be parsed. -/
inductive ParseError where
  | unexpectedLexeme (offset : Nat)
  | unexpectedEnd (offset : Nat)
  deriving DecidableEq

namespace ParseError

/-- The first lexeme that could not be matched, or the length of the input. -/
def offset : ParseError → Nat
  | unexpectedLexeme offset => offset
  | unexpectedEnd offset => offset

def message : ParseError → String
  | unexpectedLexeme offset => "Parse error at lexeme " ++ toString offset
  | unexpectedEnd offset => "Parse error: unexpected end of input at lexeme " ++ toString offset

end ParseError

/-- How far the input has been read: the sets in front of, between and behind its lexemes, what has
been reported, and the lexeme that was of no use, if there was one. -/
structure Scan where
  sets : Array ItemSet
  events : Array Event
  stuck : Option Nat

namespace Grammar

variable {α : Type} (grammar : Grammar α) (start : Nat)

/-- Fills the set that comes after the finished ones. -/
def fillNext (finished : Array ItemSet) (lexeme : Option String) : ItemSet × Event :=
  let setting : Setting α := ⟨grammar, finished, lexeme⟩
  let (set, passes) := setting.fill start
  (set, .processedSet setting.offset set.items.size passes)

def scanNothing : Scan :=
  let (set, event) := grammar.fillNext start #[] none
  ⟨#[set], #[event], none⟩

/-- Reads one more lexeme, unless an earlier one was of no use. A set that holds nothing but its
lexeme shows that no item waits for that lexeme. -/
def scanLexeme (scan : Scan) (lexeme : String) : Scan :=
  match scan with
  | ⟨sets, events, some offset⟩ => ⟨sets, events, some offset⟩
  | ⟨sets, events, none⟩ =>
    let (set, event) := grammar.fillNext start sets (some lexeme)
    if set.items.size = 1 then
      let offset := sets.size - 1
      ⟨sets.push set, (events.push event).push (.unexpectedLexeme offset), some offset⟩
    else ⟨sets.push set, events.push event, none⟩

/-- Reads the whole input, or up to the first lexeme that nothing waits for. -/
def scan (input : Array String) : Scan :=
  input.foldl (grammar.scanLexeme start) (grammar.scanNothing start)

/-- Parses the input as a rule. The forest is rooted in the item of that rule over all of the
input. -/
def parse (input : Array String) : Array Event × Except ParseError Forest :=
  match grammar.scan start input with
  | ⟨_, events, some offset⟩ => (events, .error (.unexpectedLexeme offset))
  | ⟨sets, events, none⟩ =>
    let chart : Chart := ⟨sets⟩
    match chart.find? (.rule start) 0 input.size with
    | some root =>
      (events.push (.parseSucceeded chart.sets.size chart.itemCount), .ok ⟨chart, root⟩)
    | none => (events.push (.unexpectedEnd input.size), .error (.unexpectedEnd input.size))

end Grammar

end ChartParser
