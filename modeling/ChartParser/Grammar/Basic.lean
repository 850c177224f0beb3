import ChartParser.IndexRange

namespace ChartParser

/-- A symbol of a production: a rule or a token, by its number. -/
inductive Symbol where
  | rule (index : Nat)
  | token (index : Nat)
  deriving DecidableEq

/-- What an action works on: the text of a lexeme, or what an earlier action made. -/
inductive Value (α : Type) where
  | lexeme (text : String)
  | action (value : α)

/-- An action takes one value for each symbol of its production. It gives nothing when it cannot
handle its arguments. -/
abbrev Action (α : Type) := List (Value α) → Option α

/-- A rule and the numbers of its productions, in the order of their declaration. -/
structure Rule where
  name : String
  productions : Array Nat

/-- A token matches the lexemes equal to its name or, if it is a token class, those its predicate
accepts. -/
structure Token where
  name : String
  accepts : Option (String → Bool)

/-- One way to write a rule. -/
structure Production (α : Type) where
  rule : Nat
  symbols : Array Symbol
  priority : Int
  action : Option (Action α)

/-- A production with a dot: the symbols before the dot have been matched. -/
structure Position where
  production : Nat
  dot : Nat
  deriving DecidableEq

/-- A grammar over numbered symbols. Its index numbers are kept in `range`. -/
structure Grammar (α : Type) where
  range : IndexRange
  rules : Array Rule
  tokens : Array Token
  productions : Array (Production α)
  start : Nat

namespace Position

def startOf (production : Nat) : Position := ⟨production, 0⟩

end Position

namespace Token

def isClass (token : Token) : Bool := token.accepts.isSome

def recognizes (token : Token) (lexeme : String) : Bool :=
  match token.accepts with
  | some accepts => accepts lexeme
  | none => token.name == lexeme

end Token

namespace Grammar

variable {α : Type} (grammar : Grammar α)

/-- The number of rules, as it is kept. -/
def ruleCount : Nat := grammar.range.store grammar.rules.size

def tokenCount : Nat := grammar.range.store grammar.tokens.size

def productionCount : Nat := grammar.range.store grammar.productions.size

def ruleNumber? (name : String) : Option Nat :=
  (grammar.rules.findIdx? (·.name == name)).map grammar.range.store

/-- The number of the token with this name, be it a class or not. -/
def tokenNumber? (name : String) : Option Nat :=
  (grammar.tokens.findIdx? (·.name == name)).map grammar.range.store

/-- The token, not a class, whose name is exactly this lexeme. -/
def lexemeToken? (lexeme : String) : Option Nat :=
  (grammar.tokens.findIdx? fun token => !token.isClass && token.name == lexeme).map
    grammar.range.store

/-- Does a token of this number exist and match the lexeme? -/
def tokenMatches (token : Nat) (lexeme : String) : Bool :=
  match grammar.tokens[token]? with
  | some token => token.recognizes lexeme
  | none => false

def isClass (token : Nat) : Bool :=
  match grammar.tokens[token]? with
  | some token => token.isClass
  | none => false

def productionsOf (rule : Nat) : Array Nat :=
  match grammar.rules[rule]? with
  | some rule => rule.productions
  | none => #[]

def symbols (production : Nat) : Array Symbol :=
  match grammar.productions[production]? with
  | some production => production.symbols
  | none => #[]

/-- The number of symbols of a production, as it is kept. -/
def length (production : Nat) : Nat := grammar.range.store (grammar.symbols production).size

def ruleOf (production : Nat) : Nat :=
  match grammar.productions[production]? with
  | some production => production.rule
  | none => 0

def priority (production : Nat) : Int :=
  match grammar.productions[production]? with
  | some production => production.priority
  | none => 0

/-- Is the first production of strictly higher priority than the second? -/
def higherPriority (first second : Nat) : Bool := grammar.priority second < grammar.priority first

def action? (production : Nat) : Option (Action α) :=
  grammar.productions[production]?.bind (·.action)

/-- Have all symbols of the position's production been matched? -/
def isComplete (position : Position) : Bool := grammar.length position.production ≤ position.dot

/-- The symbol after the dot. -/
def next? (position : Position) : Option Symbol :=
  (grammar.symbols position.production)[position.dot]?

/-- Moves the dot over one symbol. A complete position stays as it is. -/
def advance (position : Position) : Position :=
  if grammar.isComplete position then position
  else { position with dot := grammar.range.store (position.dot + 1) }

/-- A position and those that follow it, at most so many, up to the first complete one. -/
def advances (position : Position) : Nat → List Position
  | 0 => [position]
  | count + 1 =>
    if grammar.isComplete position then [position]
    else position :: advances (grammar.advance position) count

def positions (production : Nat) : List Position :=
  grammar.advances (.startOf production) (grammar.length production)

def symbolCount : Nat :=
  (grammar.productions.toList.flatMap fun production => production.symbols.toList).length

end Grammar

end ChartParser
