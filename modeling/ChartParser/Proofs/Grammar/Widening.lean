import ChartParser.Parse
import ChartParser.Proofs.Grammar.WellFormed
import Mathlib.Logic.Function.Iterate

/-! A grammar whose numbers are kept in another range. As long as both ranges hold all of its
numbers, the grammar answers the same, and every parse is the same, event by event and item by
item. -/
namespace ChartParser

/-- The range holds the numbers of rules, tokens and productions, and the lengths of these. -/
structure Grammar.Within {α : Type} (grammar : Grammar α) (range : IndexRange) : Prop where
  rules : grammar.rules.size ≤ range.max
  tokens : grammar.tokens.size ≤ range.max
  productions : grammar.productions.size ≤ range.max
  symbols : ∀ production, (grammar.symbols production).size ≤ range.max

/-- The same grammar, with its numbers kept in another range. -/
def Grammar.keptIn {α : Type} (grammar : Grammar α) (range : IndexRange) : Grammar α :=
  { grammar with range }

def Setting.keptIn {α : Type} (setting : Setting α) (range : IndexRange) : Setting α :=
  { setting with grammar := setting.grammar.keptIn range }

namespace Grammar

variable {α : Type} {grammar : Grammar α} {range wider : IndexRange}

theorem within_keptIn {other : IndexRange} :
    (grammar.keptIn other).Within range ↔ grammar.Within range :=
  ⟨fun ⟨rules, tokens, productions, symbols⟩ => ⟨rules, tokens, productions, symbols⟩,
    fun ⟨rules, tokens, productions, symbols⟩ => ⟨rules, tokens, productions, symbols⟩⟩

section Counts

variable (within : grammar.Within grammar.range)
include within

theorem Within.ruleCount_eq : grammar.ruleCount = grammar.rules.size :=
  IndexRange.store_of_le within.rules

theorem Within.tokenCount_eq : grammar.tokenCount = grammar.tokens.size :=
  IndexRange.store_of_le within.tokens

theorem Within.productionCount_eq : grammar.productionCount = grammar.productions.size :=
  IndexRange.store_of_le within.productions

theorem Within.length_eq (production : Nat) :
    grammar.length production = (grammar.symbols production).size :=
  IndexRange.store_of_le (within.symbols production)

theorem Within.advance_eq (position : Position) : grammar.advance position =
    if (grammar.symbols position.production).size ≤ position.dot then position
    else ⟨position.production, position.dot + 1⟩ := by
  simp only [advance, isComplete, within.length_eq, decide_eq_true_eq]
  split
  · rfl
  · have fits := within.symbols position.production
    rw [IndexRange.store_of_le (by omega)]

/-- Moving the dot from the front goes through all places up to the length and stays there. -/
theorem Within.iterate_advance (production count : Nat) :
    grammar.advance^[count] (.startOf production) =
      ⟨production, min count (grammar.length production)⟩ := by
  rw [within.length_eq]
  induction count with
  | zero => simp [Position.startOf]
  | succ count ih =>
    rw [Function.iterate_succ_apply', ih, within.advance_eq]
    dsimp only
    by_cases complete : (grammar.symbols production).size ≤ count
    · have stays : min count (grammar.symbols production).size =
          min (count + 1) (grammar.symbols production).size := by omega
      rw [if_pos (by omega), stays]
    · have moves : min count (grammar.symbols production).size + 1 =
          min (count + 1) (grammar.symbols production).size := by omega
      rw [if_neg (by omega), moves]

end Counts

private theorem store_findIdx {β : Type} {values : Array β} (fits : values.size ≤ range.max)
    (test : β → Bool) : (values.findIdx? test).map range.store = values.findIdx? test := by
  cases found : values.findIdx? test with
  | none => rfl
  | some place =>
    have inside := (Array.findIdx?_eq_some_iff_getElem.mp found).1
    rw [Option.map_some, IndexRange.store_of_le (by omega)]

section Queries

variable (within : grammar.Within grammar.range) (within' : grammar.Within wider)
include within within'

theorem isComplete_keptIn (position : Position) :
    (grammar.keptIn wider).isComplete position = grammar.isComplete position := by
  have kept : (grammar.keptIn wider).Within (grammar.keptIn wider).range := within_keptIn.mpr within'
  simp only [isComplete, kept.length_eq, within.length_eq]
  rfl

theorem advance_keptIn (position : Position) :
    (grammar.keptIn wider).advance position = grammar.advance position := by
  have kept : (grammar.keptIn wider).Within (grammar.keptIn wider).range := within_keptIn.mpr within'
  rw [kept.advance_eq, within.advance_eq]
  rfl

theorem lexemeToken_keptIn (lexeme : String) :
    (grammar.keptIn wider).lexemeToken? lexeme = grammar.lexemeToken? lexeme :=
  (store_findIdx within'.tokens _).trans (store_findIdx within.tokens _).symm

theorem ruleNumber_keptIn (name : String) :
    (grammar.keptIn wider).ruleNumber? name = grammar.ruleNumber? name :=
  (store_findIdx within'.rules _).trans (store_findIdx within.rules _).symm

theorem tokenNumber_keptIn (name : String) :
    (grammar.keptIn wider).tokenNumber? name = grammar.tokenNumber? name :=
  (store_findIdx within'.tokens _).trans (store_findIdx within.tokens _).symm

end Queries

end Grammar

namespace Setting

variable {α : Type} {setting : Setting α} {wider : IndexRange}
  (within : setting.grammar.Within setting.grammar.range)
  (within' : setting.grammar.Within wider)
include within within'

theorem predict_keptIn (current : ItemSet) (rule : Nat) :
    (setting.keptIn wider).predict current rule = setting.predict current rule := by
  simp only [predict, keptIn, Grammar.isComplete_keptIn within within']
  rfl

theorem advance_keptIn (current : ItemSet) (waiting completed : ItemRef) :
    (setting.keptIn wider).advance current waiting completed =
      setting.advance current waiting completed := by
  simp only [advance, keptIn, Grammar.advance_keptIn within within',
    Grammar.isComplete_keptIn within within']
  rfl

theorem advanceAll_keptIn (current : ItemSet) (set : Nat) (places : Array Nat)
    (completed : ItemRef) : (setting.keptIn wider).advanceAll current set places completed =
      setting.advanceAll current set places completed := by
  simp only [advanceAll, advance_keptIn within within']

theorem lexemeAwaiters_keptIn (current : ItemSet) (start : Nat) (lexeme : String) :
    (setting.keptIn wider).lexemeAwaiters current start lexeme =
      setting.lexemeAwaiters current start lexeme := by
  simp only [lexemeAwaiters, keptIn, Grammar.lexemeToken_keptIn within within']
  rfl

theorem complete_keptIn (current : ItemSet) (place : Nat) (item : Item) :
    (setting.keptIn wider).complete current place item = setting.complete current place item := by
  simp only [complete, advanceAll_keptIn within within', lexemeAwaiters_keptIn within within']
  rfl

theorem process_keptIn (current : ItemSet) (place : Nat) :
    (setting.keptIn wider).process current place = setting.process current place := by
  simp only [process, predict_keptIn within within', complete_keptIn within within']
  rfl

theorem sweep_keptIn (capacity : Nat) (current : ItemSet) (place : Nat) :
    (setting.keptIn wider).sweep capacity current place = setting.sweep capacity current place := by
  fun_induction sweep setting capacity current place with
  | case1 current place guard ih => rw [sweep, if_pos guard, process_keptIn within within', ih]
  | case2 current place guard => rw [sweep, if_neg guard]

theorem saturate_keptIn (capacity : Nat) (current : ItemSet) (passes : Nat) :
    (setting.keptIn wider).saturate capacity current passes =
      setting.saturate capacity current passes := by
  fun_induction saturate setting capacity current passes with
  | case1 current passes before swept grown ih =>
    rw [saturate, sweep_keptIn within within']
    exact (dif_pos grown).trans ih
  | case2 current passes before swept guard =>
    rw [saturate, sweep_keptIn within within']
    exact dif_neg guard

variable (setting) in
theorem fill_keptIn (start : Nat) : (setting.keptIn wider).fill start = setting.fill start := by
  have seed : (setting.keptIn wider).seed start = setting.seed start := by
    simp only [Setting.seed, predict_keptIn within within']
    rfl
  rw [fill, saturate_keptIn within within', seed]
  rfl

end Setting

namespace Grammar

variable {α : Type} {grammar : Grammar α} {wider : IndexRange}
  (within : grammar.Within grammar.range) (within' : grammar.Within wider) (start : Nat)
include within within'

theorem fillNext_keptIn (finished : Array ItemSet) (lexeme : Option String) :
    (grammar.keptIn wider).fillNext start finished lexeme =
      grammar.fillNext start finished lexeme := by
  have same := Setting.fill_keptIn ⟨grammar, finished, lexeme⟩ within within' start
  simp only [Setting.keptIn] at same
  simp only [fillNext, same]
  rfl

theorem scan_keptIn (input : Array String) :
    (grammar.keptIn wider).scan start input = grammar.scan start input := by
  have step : (grammar.keptIn wider).scanLexeme start = grammar.scanLexeme start := by
    funext scan lexeme
    simp only [scanLexeme, fillNext_keptIn within within']
  simp only [scan, scanNothing, fillNext_keptIn within within', step]

/-- The range in which the numbers are kept does not show in any parse. -/
theorem parse_keptIn (input : Array String) :
    (grammar.keptIn wider).parse start input = grammar.parse start input := by
  simp only [parse, scan_keptIn within within']

end Grammar

end ChartParser
