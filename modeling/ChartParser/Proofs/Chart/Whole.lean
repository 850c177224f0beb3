import ChartParser.Proofs.Chart.Journal
import ChartParser.Proofs.LexemeScan

/-! The operations of a parse on the whole chart. Items are read wherever they are, and every item
and every derivation is written to the set that its reference names, be it finished or not. A parse
that keeps the finished sets apart from the one that it fills does the same. -/
namespace ChartParser

namespace Chart

variable {α : Type} (grammar : Grammar α) (input : Array String) (chart : Chart)

def setAt (offset : Nat) : ItemSet := chart.sets.getD offset .empty

def put (tag : Tag) (start stop : Nat) (derivation : Option Derivation) : Chart :=
  let place := ((chart.setAt stop).insert grammar tag start).1
  let entered := chart.perform grammar (.enter tag start stop)
  match derivation with
  | none => entered
  | some derivation => entered.perform grammar (.record ⟨stop, place⟩ derivation)

def predict (set rule : Nat) : Chart :=
  (grammar.productionsOf rule).foldl
    (fun chart production =>
      if grammar.isComplete (.startOf production) then
        chart.put grammar (.rule rule) set set (some ⟨none, none, production⟩)
      else chart.put grammar (.dotted (.startOf production)) set set none)
    chart

/-- Moves the dot of a waiting item over the symbol that a completed item has matched. The item that
this gives is written to the set of the completed one. -/
def advance (waiting completed : ItemRef) : Chart :=
  match chart.item? waiting with
  | some item =>
    match item.tag with
    | .dotted position =>
      let next := grammar.advance position
      let tag := if grammar.isComplete next then
          .rule (grammar.ruleOf position.production) else .dotted next
      chart.put grammar tag item.start completed.set
        (some ⟨Setting.leftPart waiting item position, some completed, position.production⟩)
    | _ => chart
  | none => chart

def advanceAll (set : Nat) (places : Array Nat) (completed : ItemRef) : Chart :=
  places.foldl (fun chart place => chart.advance grammar ⟨set, place⟩ completed) chart

def awaitsLexeme (lexeme : String) (ref : ItemRef) : Bool :=
  match chart.item? ref with
  | some ⟨.dotted position, _, _⟩ =>
    match grammar.next? position with
    | some (.token token) => grammar.tokenMatches token lexeme
    | _ => false
  | _ => false

/-- Advances the items that wait for a lexeme: those that wait for the token of that name, and then,
looking at each of them in turn, those that wait for a class that accepts it. -/
def advanceLexeme (lexeme : String) (start : Nat) (completed : ItemRef) : Chart :=
  let chart := match grammar.lexemeToken? lexeme with
    | some token =>
      chart.advanceAll grammar start ((chart.setAt start).awaiters (.token token)) completed
    | none => chart
  (chart.setAt start).awaitingClass.foldl
    (fun chart place =>
      if chart.awaitsLexeme grammar lexeme ⟨start, place⟩ then
        chart.advance grammar ⟨start, place⟩ completed
      else chart)
    chart

/-- Predicts the rule that an item waits for, or advances the items that wait for what it has
matched. -/
def process (ref : ItemRef) : Chart :=
  match chart.item? ref with
  | some item =>
    match item.tag with
    | .dotted position =>
      match grammar.next? position with
      | some (.rule rule) => chart.predict grammar ref.set rule
      | _ => chart
    | .rule rule =>
      chart.advanceAll grammar item.start ((chart.setAt item.start).awaiters (.rule rule)) ref
    | .lexeme offset =>
      match input[offset]? with
      | some lexeme => chart.advanceLexeme grammar lexeme item.start ref
      | none => chart
  | none => chart

end Chart

namespace Setting

variable {α : Type} {setting : Setting α} {current : ItemSet} {goal : Nat}
  {input : Array String}

theorem setAt_chart (setting : Setting α) (current : ItemSet) (offset : Nat) :
    (setting.chart current).setAt offset = setting.setAt current offset := by
  rw [Chart.setAt, setAt, Array.getD_eq_getD_getElem?, sets_chart]
  split
  · rfl
  · rw [Array.getD_eq_getD_getElem?]

/-- Entering an item at the offset of the set that is filled only writes to that set. -/
theorem put_chart (setting : Setting α) (current : ItemSet) (tag : Tag) (start : Nat)
    (derivation : Option Derivation) :
    (setting.chart current).put setting.grammar tag start setting.offset derivation =
      setting.chart (current.put setting.grammar tag start derivation) := by
  have here : (setting.chart current).setAt setting.offset = current := by
    rw [setAt_chart, setAt, if_pos rfl]
  cases derivation with
  | none => exact perform_enter setting current tag start
  | some derivation =>
    simp only [Chart.put, here, perform_enter, perform_record]
    rfl

theorem predict_chart (setting : Setting α) (current : ItemSet) (rule : Nat) :
    (setting.chart current).predict setting.grammar setting.offset rule =
      setting.chart (setting.predict current rule) := by
  simp only [Chart.predict, predict, ← Array.foldl_toList]
  refine List.foldl_hom setting.chart fun current production => ?_
  rw [put_chart, put_chart]
  split <;> rfl

theorem advance_chart (setting : Setting α) (current : ItemSet) (waiting : ItemRef)
    {completed : ItemRef} (here : completed.set = setting.offset) :
    (setting.chart current).advance setting.grammar waiting completed =
      setting.chart (setting.advance current waiting completed) := by
  simp only [Chart.advance, advance, item_eq]
  cases (setting.chart current).item? waiting with
  | none => rfl
  | some item =>
    cases tagged : item.tag with
    | lexeme offset => simp only [tagged]
    | rule index => simp only [tagged]
    | dotted position =>
      simp only [tagged, here, put_chart]
      rfl

theorem advanceAll_chart (setting : Setting α) (current : ItemSet) (set : Nat)
    (places : Array Nat) {completed : ItemRef} (here : completed.set = setting.offset) :
    (setting.chart current).advanceAll setting.grammar set places completed =
      setting.chart (setting.advanceAll current set places completed) := by
  simp only [Chart.advanceAll, advanceAll, ← Array.foldl_toList]
  exact List.foldl_hom setting.chart fun current place =>
    advance_chart setting current ⟨set, place⟩ here

theorem awaitsLexeme_chart (setting : Setting α) (current : ItemSet) (lexeme : String)
    (ref : ItemRef) : (setting.chart current).awaitsLexeme setting.grammar lexeme ref =
      setting.awaitsLexeme current lexeme ref := by
  rw [awaitsLexeme, item_eq]
  rfl

theorem awaitsLexeme_finished (setting : Setting α) (current other : ItemSet) {start : Nat}
    (earlier : start ≠ setting.offset) (lexeme : String) (place : Nat) :
    setting.awaitsLexeme current lexeme ⟨start, place⟩ =
      setting.awaitsLexeme other lexeme ⟨start, place⟩ := by
  simp only [awaitsLexeme, item?, setAt, if_neg earlier]

/-- The classes may as well be looked at one by one while items are advanced, as none of these is
written to the set in which they wait. -/
theorem advanceLexeme_chart (setting : Setting α) (current : ItemSet) (lexeme : String)
    {start : Nat} (earlier : start ≠ setting.offset) {completed : ItemRef}
    (here : completed.set = setting.offset) :
    (setting.chart current).advanceLexeme setting.grammar lexeme start completed =
      setting.chart (setting.advanceAll current start
        (setting.lexemeAwaiters current start lexeme) completed) := by
  have finished (other : ItemSet) : (setting.chart other).setAt start =
      setting.setAt current start := by
    rw [setAt_chart, setAt, setAt, if_neg earlier, if_neg earlier]
  -- the classes are looked at when the exact token has been dealt with
  have classes (first : ItemSet) : (setting.setAt current start).awaitingClass.foldl
      (fun chart place =>
        if chart.awaitsLexeme setting.grammar lexeme ⟨start, place⟩ then
          chart.advance setting.grammar ⟨start, place⟩ completed
        else chart) (setting.chart first) =
      setting.chart (setting.advanceAll first start
        ((setting.setAt current start).awaitingClass.filter fun place =>
          setting.awaitsLexeme current lexeme ⟨start, place⟩) completed) := by
    rw [advanceAll, ← Array.foldl_toList, ← Array.foldl_toList, Array.toList_filter,
      List.foldl_filter]
    refine List.foldl_hom setting.chart fun next place => ?_
    rw [awaitsLexeme_chart, awaitsLexeme_finished setting next current earlier,
      advance_chart setting next ⟨start, place⟩ here]
    split <;> rfl
  simp only [Chart.advanceLexeme, lexemeAwaiters]
  cases setting.grammar.lexemeToken? lexeme with
  | none => simp only [finished, classes, Array.empty_append]
  | some token =>
    simp only [finished, advanceAll_chart setting current start _ here, classes]
    simp only [advanceAll, Array.foldl_append]

theorem process_chart (reads : setting.Reads input)
    (filling : setting.Filling goal input current) (place : Nat) :
    (setting.chart current).process setting.grammar input ⟨setting.offset, place⟩ =
      setting.chart (setting.process current place) := by
  have here : (setting.chart current).item? ⟨setting.offset, place⟩ = current.items[place]? := by
    rw [Chart.item?, sets_chart_offset, Option.bind_some]
  unfold Chart.process process
  rw [here]
  cases found : current.items[place]? with
  | none => rfl
  | some item =>
    cases tagged : item.tag with
    | dotted position =>
      simp only [tagged]
      cases setting.grammar.next? position with
      | none => rfl
      | some symbol =>
        cases symbol with
        | token token => rfl
        | rule rule => exact predict_chart setting current rule
    | rule rule =>
      simp only [tagged, complete, setAt_chart]
      exact advanceAll_chart setting current item.start _ rfl
    | lexeme offset =>
      obtain ⟨start, next⟩ := filling.lexeme found tagged
      have inside : offset < input.size := by
        have inside := reads.inside
        omega
      have read := reads.behind next
      rw [Array.getElem?_eq_getElem inside] at read
      simp only [tagged, complete, read, Array.getElem?_eq_getElem inside]
      exact advanceLexeme_chart setting current input[offset] (by omega) rfl

end Setting

end ChartParser
