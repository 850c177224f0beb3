import ChartParser.Grammar.Basic

namespace ChartParser.Grammar

variable {α : Type} (grammar : Grammar α)

def ruleName (rule : Nat) : String :=
  match grammar.rules[rule]? with
  | some rule => rule.name
  | none => ""

def tokenName (token : Nat) : String :=
  match grammar.tokens[token]? with
  | some token => token.name
  | none => ""

def symbolName : Symbol → String
  | .rule index => grammar.ruleName index
  | .token index => grammar.tokenName index

/-- A symbol in a printed production: its name between quotes, after a blank. -/
def symbolText (symbol : Symbol) : String := " \"" ++ grammar.symbolName symbol ++ "\""

/-- A production is printed as its rule, a colon and its symbols. -/
def productionText (production : Nat) : String :=
  grammar.ruleName (grammar.ruleOf production) ++ ":" ++
    String.join ((grammar.symbols production).toList.map grammar.symbolText)

/-- A position is printed as its production with a point where the dot is. -/
def positionText (position : Position) : String :=
  grammar.ruleName (grammar.ruleOf position.production) ++ ":" ++
    String.join ((grammar.symbols position.production).toList.zipIdx.map fun (symbol, place) =>
      (if place = position.dot then " ." else "") ++ grammar.symbolText symbol) ++
    (if grammar.isComplete position then " ." else "")

end ChartParser.Grammar
