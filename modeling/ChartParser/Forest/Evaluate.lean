import ChartParser.Forest.Disambiguate
import ChartParser.Forest.Preference
import ChartParser.Forest.Walk
import ChartParser.Parse

/-! Evaluating a forest with the actions of its grammar. A lexeme has its text for a value, and a
rule what the action of its production makes of the values of its symbols. -/
namespace ChartParser

inductive EvalError where
  | ambiguous (node : ItemRef)
  | noAction (production : Nat)
  | cyclic
  deriving DecidableEq

namespace EvalError

def message : EvalError → String
  | ambiguous node =>
    "Cannot evaluate ambiguous node ending at " ++ toString node.set ++ " (item " ++
      toString node.place ++ ")"
  | noAction production =>
    "Production " ++ toString production ++
      " has no action and does not produce exactly one value"
  | cyclic => "The forest has no acyclic derivation"

end EvalError

/-- What breaks off the work on a forest: an input that is shorter than the one parsed, or an
action that cannot handle its arguments. -/
inductive Fault where
  | missingLexeme (offset : Nat)
  | actionFailed (production : Nat)
  deriving DecidableEq

/-- An action that has been called, by its production, and its arguments. -/
structure Call (α : Type) where
  production : Nat
  arguments : List (Value α)

def collectValues {ε ν : Type} : List (Except ε ν) → Except ε (List ν)
  | [] => .ok []
  | .error error :: _ => .error error
  | .ok value :: rest => (collectValues rest).map (value :: ·)

namespace Grammar

variable {α : Type} (grammar : Grammar α)

/-- The value of a rule that this production matched. Without an action, a production passes on
the value of its only symbol. -/
def applyAction (production : Nat) (values : List (Value α)) (calls : Array (Call α)) :
    Except Fault (Array (Call α) × Except EvalError (Value α)) :=
  match grammar.action? production with
  | some action =>
    match action values with
    | some value => .ok (calls.push ⟨production, values⟩, .ok (.action value))
    | none => .error (.actionFailed production)
  | none =>
    match values with
    | [value] => .ok (calls, .ok value)
    | _ => .ok (calls, .error (.noAction production))

/-- Computes values and keeps the calls of actions. An ambiguous node has no value. -/
def evaluator (input : Array String) :
    Visitor (Array (Call α)) (Except EvalError (Value α)) (Except EvalError (List (Value α)))
      Fault where
  choices node _ _ calls := .ok (calls, .error (.ambiguous node))
  derivation children calls := .ok (calls, collectValues children)
  symbol node derivation calls :=
    match node with
    | .lexeme offset _ =>
      match input[offset]? with
      | some text => .ok (calls, .ok (.lexeme text))
      | none => .error (.missingLexeme offset)
    | .rule _ production =>
      match derivation with
      | .error error => .ok (calls, .error error)
      | .ok values => grammar.applyAction production values calls

end Grammar

/-- The value of the forest or the first error, with the calls of actions in their order. -/
def Forest.evaluate {α : Type} (grammar : Grammar α) (input : Array String) (forest : Forest) :
    Except Fault (Array (Call α) × Except EvalError (Value α)) := do
  let (calls, result) ← forest.walk grammar (grammar.evaluator input) #[]
  .ok (calls, result.getD (.error .cyclic))

inductive InputError where
  | parse (error : ParseError)
  | eval (error : EvalError)

/-- Parses the input as a rule, disambiguates by priority and evaluates. -/
def Grammar.parseActions {α : Type} (grammar : Grammar α) (start : Nat) (input : Array String) :
    Array Event × Except Fault (Array (Call α) × Except InputError (Value α)) :=
  match grammar.parse start input with
  | (events, .error error) => (events, .ok (#[], .error (.parse error)))
  | (events, .ok forest) =>
    let (forest, event) := forest.disambiguate (Preference.priority.prefers grammar)
    (events.push event,
      (forest.evaluate grammar input).map fun (calls, result) => (calls, result.mapError .eval))

end ChartParser
