namespace ChartParser

/-- How much a reader of the log has to want to know to see an event. -/
inductive Level where
  | debug
  | trace
  deriving DecidableEq

inductive Event where
  | processedSet (set items passes : Nat)
  | unexpectedLexeme (offset : Nat)
  | parseSucceeded (sets items : Nat)
  | unexpectedEnd (offset : Nat)
  | disambiguated (collapsed : Nat)
  deriving DecidableEq

namespace Event

/-- Sets are reported in passing, and the ends of parses and disambiguations for good. -/
def level : Event → Level
  | processedSet .. => .trace
  | _ => .debug

def message : Event → String
  | processedSet .. => "processed set"
  | unexpectedLexeme .. => "no item awaits lexeme"
  | parseSucceeded .. => "parse succeeded"
  | unexpectedEnd .. => "input ended before the start rule matched"
  | disambiguated .. => "disambiguated forest"

def fields : Event → List (String × Nat)
  | processedSet set items passes => [("set", set), ("items", items), ("passes", passes)]
  | unexpectedLexeme offset => [("laidx", offset)]
  | parseSucceeded sets items => [("sets", sets), ("items", items)]
  | unexpectedEnd offset => [("laidx", offset)]
  | disambiguated collapsed => [("collapsed", collapsed)]

end Event

end ChartParser
