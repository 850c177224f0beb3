import ChartParser.Grammar.Basic
import ChartParser.Text.Quoted

namespace ChartParser

def bracketedList (entries : List String) : String := "[" ++ ", ".intercalate entries ++ "]"

def Symbol.debugText : Symbol → String
  | rule index => "Rule(RIdx(" ++ toString index ++ "))"
  | token index => "Token(TIdx(" ++ toString index ++ "))"

/-- Names, start rule, symbols and priorities. -/
def Grammar.debugText {α : Type} (grammar : Grammar α) : String :=
  let rules := grammar.rules.toList.map fun rule => quoted rule.name
  let tokens := grammar.tokens.toList.map fun token => quoted token.name
  let productions := grammar.productions.toList
  "Grammar \x7b rule_names: " ++ bracketedList rules ++
    ", token_names: " ++ bracketedList tokens ++
    ", start_rule: RIdx(" ++ toString grammar.start ++ ")" ++
    ", prods: " ++ bracketedList (productions.map fun production =>
      bracketedList (production.symbols.toList.map Symbol.debugText)) ++
    ", prod_priorities: " ++ bracketedList (productions.map fun production =>
      toString production.priority) ++ " \x7d"

end ChartParser
