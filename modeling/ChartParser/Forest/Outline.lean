import ChartParser.Forest.Evaluate
import ChartParser.Grammar.Text

namespace ChartParser

/-- A line with the number of blanks in front of it. -/
structure Line where
  indent : Nat
  text : String
  deriving DecidableEq

def Line.indented (line : Line) : Line := { line with indent := line.indent + 1 }

/-- The line as text, with its end. -/
def Line.render (line : Line) : String :=
  "".pushn ' ' line.indent ++ line.text ++ "\n"

namespace Grammar

variable {α : Type} (grammar : Grammar α)

def choiceName (input : Array String) : Tag → String
  | .rule rule => grammar.ruleName rule
  | .dotted position => grammar.positionText position
  | .lexeme offset => input.getD offset ""

/-- Lists the children of a node below it, one blank further in. -/
def outliner (input : Array String) : Visitor Unit (List Line) (List Line) Fault where
  choices _ tag alternatives state :=
    .ok (state, ⟨0, "<choice " ++ grammar.choiceName input tag ++ ">"⟩ ::
      alternatives.flatMap fun lines => ⟨1, "<alt>"⟩ :: lines.map Line.indented)
  derivation children state := .ok (state, children.flatten.map Line.indented)
  symbol node derivation state :=
    match node with
    | .lexeme offset token =>
      match input[offset]? with
      | some text => .ok (state, [⟨0, grammar.tokenName token ++ " " ++ text⟩])
      | none => .error (.missingLexeme offset)
    | .rule rule _ => .ok (state, ⟨0, grammar.ruleName rule⟩ :: derivation)

end Grammar

def Forest.outline {α : Type} (grammar : Grammar α) (input : Array String) (forest : Forest) :
    Except Fault String := do
  let (_, lines) ← forest.walk grammar (grammar.outliner input) ()
  .ok (String.join ((lines.getD []).map Line.render))

end ChartParser
