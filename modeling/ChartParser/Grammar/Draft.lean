import ChartParser.Accumulation
import ChartParser.Grammar.Basic

/-! Writing a grammar down: productions and token classes are declared by name, in any order, and
then numbered. -/
namespace ChartParser

/-- A declared production: the name of its rule and the names of its symbols. -/
structure Declaration (α : Type) where
  name : String
  symbols : List String
  priority : Option Int
  action : Option (Action α)

structure TokenClass where
  name : String
  accepts : String → Bool

/-- Why the declarations make no grammar: four faults of the declarations, and four numbers that
may be too large for the index range. -/
inductive DraftError where
  | noRules
  | invalidStart (name : String)
  | duplicateClass (name : String)
  | classIsRule (name : String)
  | tooManyRules
  | tooManyTokens
  | tooManyProductions
  | productionTooLong
  deriving DecidableEq

namespace DraftError

def message : DraftError → String
  | noRules => "Grammar has no rules"
  | invalidStart name => "Start rule '" ++ name ++ "' does not appear in grammar"
  | duplicateClass name => "Token class '" ++ name ++ "' is declared more than once"
  | classIsRule name => "Token class '" ++ name ++ "' is also declared as a rule"
  | tooManyRules => "StorageT is not big enough to store this grammar's rules."
  | tooManyTokens => "StorageT is not big enough to store this grammar's tokens."
  | tooManyProductions => "StorageT is not big enough to store this grammar's productions."
  | productionTooLong =>
    "StorageT is not big enough to store the symbols of at least one of this grammar's productions."

end DraftError

/-- A grammar being written down. Class names are kept once each, and `repeated` is the first name
that was declared again. -/
structure Draft (α : Type) where
  start : String
  declarations : Array (Declaration α)
  classes : Array TokenClass
  repeated : Option String

/-- One declaration, of either kind. -/
inductive Entry (α : Type) where
  | production (declaration : Declaration α)
  | tokenClass (declared : TokenClass)

/-- Appends the names that are not yet in the list, each once, in the order of their first use. -/
def addNames (known : Array String) (names : List String) : Array String :=
  names.foldl pushNew known

namespace Draft

variable {α : Type}

def empty (start : String) : Draft α := ⟨start, #[], #[], none⟩

def declare (draft : Draft α) (declaration : Declaration α) : Draft α :=
  { draft with declarations := draft.declarations.push declaration }

/-- Declares a token class. A name declared again keeps its place and takes the later predicate. -/
def declareClass (draft : Draft α) (declared : TokenClass) : Draft α :=
  match draft.classes.findIdx? (·.name == declared.name) with
  | some place =>
    { draft with
      classes := draft.classes.setIfInBounds place declared
      repeated := draft.repeated.or (some declared.name) }
  | none => { draft with classes := draft.classes.push declared }

def enter (draft : Draft α) : Entry α → Draft α
  | .production declaration => draft.declare declaration
  | .tokenClass declared => draft.declareClass declared

/-- The draft that these declarations make, one after the other. -/
def ofEntries (start : String) (entries : List (Entry α)) : Draft α :=
  entries.foldl enter (empty start)

variable (draft : Draft α)

/-- The rule names: the left-hand sides, in the order of their first declaration. -/
def ruleNames : Array String :=
  addNames #[] (draft.declarations.toList.map (·.name))

/-- The token names: the names in productions that are no rule, in the order of their first use,
and then the classes that no production uses. -/
def tokenNames : Array String :=
  let rules := draft.ruleNames
  let used := draft.declarations.toList.foldl
    (fun known declaration =>
      addNames known (declaration.symbols.filter fun name => !rules.contains name)) #[]
  addNames used (draft.classes.toList.map (·.name))

/-- The first reason to refuse the declarations, whatever the index range. -/
def fault? : Option DraftError :=
  if draft.declarations.isEmpty then some .noRules
  else if !draft.ruleNames.contains draft.start then some (.invalidStart draft.start)
  else match draft.repeated with
    | some name => some (.duplicateClass name)
    | none => (draft.classes.find? fun declared => draft.ruleNames.contains declared.name).map
        fun declared => .classIsRule declared.name

/-- The first number that the index range cannot hold. -/
def overflow? (range : IndexRange) : Option DraftError :=
  if range.max < draft.ruleNames.size then some .tooManyRules
  else if range.max < draft.tokenNames.size then some .tooManyTokens
  else if range.max < draft.declarations.size then some .tooManyProductions
  else if draft.declarations.any fun declaration => range.max < declaration.symbols.length then
    some .productionTooLong
  else none

def numberOf (range : IndexRange) (names : Array String) (name : String) : Nat :=
  range.store ((names.findIdx? (· == name)).getD 0)

/-- The symbol that a name in a production stands for. -/
def resolve (range : IndexRange) (rules tokens : Array String) (name : String) : Symbol :=
  if rules.contains name then .rule (numberOf range rules name)
  else .token (numberOf range tokens name)

/-- The numbered grammar. A production without an explicit priority has a higher one than those
declared after it. -/
def number (range : IndexRange) : Grammar α :=
  let rules := draft.ruleNames
  let tokens := draft.tokenNames
  let count := draft.declarations.size
  { range
    rules := rules.map fun name =>
      ⟨name, (((draft.declarations.toList.zipIdx.filter (·.1.name == name)).map
        fun entry => range.store entry.2).toArray)⟩
    tokens := tokens.map fun name =>
      ⟨name, (draft.classes.find? (·.name == name)).map (·.accepts)⟩
    productions := draft.declarations.mapIdx fun place declaration =>
      { rule := numberOf range rules declaration.name
        symbols := (declaration.symbols.map (resolve range rules tokens)).toArray
        priority := declaration.priority.getD ((count - place : Nat) : Int)
        action := declaration.action }
    start := numberOf range rules draft.start }

/-- Checks the declarations and numbers them. -/
def build (range : IndexRange) : Except DraftError (Grammar α) :=
  match draft.fault? with
  | some fault => .error fault
  | none =>
    match draft.overflow? range with
    | some overflow => .error overflow
    | none => .ok (draft.number range)

end Draft

end ChartParser
