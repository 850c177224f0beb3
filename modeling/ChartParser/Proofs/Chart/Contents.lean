import ChartParser.Chart.Basic
import ChartParser.Proofs.Chart.Indexed
import ChartParser.Proofs.Grammar.Tree

namespace ChartParser

/-- What an item has matched when its dot has moved over one more symbol. -/
def Grammar.tagBehind {α : Type} (grammar : Grammar α) (position : Position) : Tag :=
  if position.dot + 1 = (grammar.symbols position.production).size then
    .rule (grammar.ruleOf position.production)
  else .dotted ⟨position.production, position.dot + 1⟩

def Grammar.matchedBy {α : Type} (grammar : Grammar α) (production : Nat) : Tag → List Symbol
  | .dotted position => (grammar.symbols production).toList.take position.dot
  | .rule _ => (grammar.symbols production).toList
  | .lexeme _ => []

/-- Can an item with this tag be built by the production? -/
def Tag.Serves {α : Type} (grammar : Grammar α) (production : Nat) : Tag → Prop
  | .dotted position => production = position.production
  | .rule index => grammar.ruleOf production = index
  | .lexeme _ => False

/-- The trees that an item of the production stands for, if its derivation stands for these: they
are put together when the production is complete. -/
def Tag.wrap (production : Nat) (children : List Tree) : Tag → List Tree
  | .dotted _ => children
  | .rule _ => [.rule production children]
  | .lexeme _ => []

def Tag.Advanced : Tag → Prop
  | .dotted position => position.dot ≠ 0
  | .lexeme _ => True
  | .rule _ => True

namespace Chart

def Holds (chart : Chart) (ref : ItemRef) (tag : Tag) (start : Nat) : Prop :=
  ∃ item, chart.item? ref = some item ∧ item.tag = tag ∧ item.start = start

/-- Nothing is lost from one chart to the other. -/
structure Extends (chart larger : Chart) : Prop where
  holds : ∀ {ref tag start}, chart.Holds ref tag start → larger.Holds ref tag start
  derivations : ∀ {ref derivation}, derivation ∈ chart.derivations ref →
    derivation ∈ larger.derivations ref

/-- The item has matched the symbol, from `start` to the offset of its set. -/
inductive Covers {α : Type} (chart : Chart) (grammar : Grammar α) (input : Array String)
    (ref : ItemRef) : Symbol → Nat → Prop
  | rule (held : chart.Holds ref (.rule index) start) :
      Covers chart grammar input ref (.rule index) start
  | token (held : chart.Holds ref (.lexeme start) start) (next : ref.set = start + 1)
      (read : input[start]? = some lexeme) (matched : grammar.tokenMatches index lexeme = true) :
      Covers chart grammar input ref (.token index) start

/-- The left part of a derivation that goes on from a waiting item: nothing before the first
symbol, the item of the first symbol before the second, and the waiting item itself later. -/
inductive LeftPart {α : Type} (chart : Chart) (grammar : Grammar α) (input : Array String)
    (waiting : ItemRef) (position : Position) (start : Nat) : Option ItemRef → Prop
  | nothing (dot : position.dot = 0) : LeftPart chart grammar input waiting position start none
  | first (dot : position.dot = 1)
      (symbol : (grammar.symbols position.production)[0]? = some opening)
      (covers : chart.Covers grammar input ref opening start) (same : ref.set = waiting.set) :
      LeftPart chart grammar input waiting position start (some ref)
  | waiting (dot : 2 ≤ position.dot) :
      LeftPart chart grammar input waiting position start (some waiting)

/-- The ways to build an item with this tag and span: an empty production, or an item that waits
for a symbol and an item next to it that has matched the symbol. -/
inductive Splits {α : Type} (chart : Chart) (grammar : Grammar α) (input : Array String) :
    Tag → Nat → Nat → Derivation → Prop
  | empty (known : production < grammar.productions.size)
      (bare : grammar.symbols production = #[]) :
      Splits chart grammar input (.rule (grammar.ruleOf production)) offset offset
        ⟨none, none, production⟩
  | step (held : chart.Holds waiting (.dotted position) start)
      (next : grammar.next? position = some symbol)
      (covers : chart.Covers grammar input completed symbol waiting.set)
      (left : chart.LeftPart grammar input waiting position start part) :
      Splits chart grammar input (grammar.tagBehind position) start completed.set
        ⟨part, some completed, position.production⟩

/-- The trees that items stand for: a lexeme, the children of a prefix, or a production with its
children, each item by any one of its derivations. -/
inductive Unfolds (chart : Chart) : List ItemRef → List Tree → Prop
  | nil : Unfolds chart [] []
  | lexeme (held : chart.Holds ref (.lexeme offset) start) (rest : Unfolds chart nodes trees) :
      Unfolds chart (ref :: nodes) (.lexeme offset :: trees)
  | dotted (held : chart.Holds ref (.dotted position) start)
      (member : derivation ∈ chart.derivations ref)
      (inner : Unfolds chart derivation.children children) (rest : Unfolds chart nodes trees) :
      Unfolds chart (ref :: nodes) (children ++ trees)
  | rule (held : chart.Holds ref (.rule index) start)
      (member : derivation ∈ chart.derivations ref)
      (inner : Unfolds chart derivation.children children) (rest : Unfolds chart nodes trees) :
      Unfolds chart (ref :: nodes) (.rule derivation.production children :: trees)

/-- What an item has matched, whether that is a symbol or the beginning of a production. -/
inductive Matches {α : Type} (chart : Chart) (grammar : Grammar α) (input : Array String)
    (ref : ItemRef) : List Symbol → Nat → Prop
  | symbol (covers : chart.Covers grammar input ref symbol start) :
      Matches chart grammar input ref [symbol] start
  | dotted (held : chart.Holds ref (.dotted position) start) (advanced : position.dot ≠ 0) :
      Matches chart grammar input ref
        ((grammar.symbols position.production).toList.take position.dot) start

/-- The tags and spans that items can have. -/
inductive Placed {α : Type} (grammar : Grammar α) : Tag → Nat → Nat → Prop
  | lexeme : Placed grammar (.lexeme offset) offset (offset + 1)
  | dotted (known : position.production < grammar.productions.size)
      (short : position.dot < (grammar.symbols position.production).size)
      (ordered : start ≤ stop) (fresh : position.dot = 0 → start = stop) :
      Placed grammar (.dotted position) start stop
  | rule (known : index < grammar.rules.size) (ordered : start ≤ stop) :
      Placed grammar (.rule index) start stop

/-- Every item and every derivation of the chart is justified by others. -/
structure Sound {α : Type} (grammar : Grammar α) (input : Array String) (chart : Chart) : Prop where
  indexed : ∀ {set}, set ∈ chart.sets → set.Indexed grammar
  distinct : ∀ {set}, set ∈ chart.sets → set.Distinct
  placed : ∀ {ref tag start}, chart.Holds ref tag start → Placed grammar tag start ref.set
  derived : ∀ {ref tag start derivation}, chart.Holds ref tag start →
    derivation ∈ chart.derivations ref →
    chart.Splits grammar input tag start ref.set derivation
  grounded : ∀ {ref tag start}, chart.Holds ref tag start → tag.Advanced →
    ∃ trees, chart.Unfolds [ref] trees

section Monotone

variable {α : Type} {grammar : Grammar α} {input : Array String} {chart larger : Chart}

theorem Extends.refl (chart : Chart) : chart.Extends chart := ⟨id, id⟩

theorem Extends.trans {largest : Chart} (first : chart.Extends larger)
    (second : larger.Extends largest) : chart.Extends largest :=
  ⟨fun held => second.holds (first.holds held),
    fun member => second.derivations (first.derivations member)⟩

section Items

variable (more : ∀ {ref tag start}, chart.Holds ref tag start → larger.Holds ref tag start)
include more

theorem Covers.mono {ref : ItemRef} {symbol : Symbol} {start : Nat}
    (covers : chart.Covers grammar input ref symbol start) :
    larger.Covers grammar input ref symbol start := by
  cases covers with
  | rule held => exact .rule (more held)
  | token held next read matched => exact .token (more held) next read matched

theorem LeftPart.mono {waiting : ItemRef} {position : Position}
    {start : Nat} {part : Option ItemRef}
    (left : chart.LeftPart grammar input waiting position start part) :
    larger.LeftPart grammar input waiting position start part := by
  cases left with
  | nothing dot => exact .nothing dot
  | first dot symbol covers same => exact .first dot symbol (covers.mono more) same
  | waiting dot => exact .waiting dot

theorem Splits.mono {tag : Tag} {start stop : Nat}
    {derivation : Derivation} (split : chart.Splits grammar input tag start stop derivation) :
    larger.Splits grammar input tag start stop derivation := by
  cases split with
  | empty known bare => exact .empty known bare
  | step held next covers left =>
    exact .step (more held) next (covers.mono more) (left.mono more)

end Items

theorem Unfolds.mono (more : chart.Extends larger) {nodes : List ItemRef} {trees : List Tree}
    (unfolds : chart.Unfolds nodes trees) : larger.Unfolds nodes trees := by
  induction unfolds with
  | nil => exact .nil
  | lexeme held _ ih => exact .lexeme (more.holds held) ih
  | dotted held member _ _ inner rest =>
    exact .dotted (more.holds held) (more.derivations member) inner rest
  | rule held member _ _ inner rest =>
    exact .rule (more.holds held) (more.derivations member) inner rest

end Monotone

end Chart

end ChartParser
