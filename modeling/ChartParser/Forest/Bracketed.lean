import ChartParser.Forest.Evaluate

namespace ChartParser

/-- A lexeme is written after its token, a rule as its production with the children in brackets,
and an ambiguous node as its alternatives between angles. -/
def bracketer (input : Array String) : Visitor Unit String String Fault where
  choices _ _ alternatives state := .ok (state, "<" ++ "|".intercalate alternatives ++ ">")
  derivation children state := .ok (state, " ".intercalate children)
  symbol node derivation state :=
    match node with
    | .lexeme offset token =>
      match input[offset]? with
      | some text => .ok (state, toString token ++ ":" ++ text)
      | none => .error (.missingLexeme offset)
    | .rule _ production => .ok (state, toString production ++ "(" ++ derivation ++ ")")

def Forest.bracketed {α : Type} (grammar : Grammar α) (input : Array String) (forest : Forest) :
    Except Fault (Option String) :=
  (forest.walk grammar (bracketer input) ()).map (·.2)

end ChartParser
