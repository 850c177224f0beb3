import ChartParser.Parse
import ChartParser.Proofs.Chart.Fill
import ChartParser.Proofs.Chart.Operations

/-! The operations of a parse, in the order in which it makes them. Each function that fills a set
has its list of operations, and making these leads to what the function gives. -/
namespace ChartParser

namespace Setting

variable {α : Type} (setting : Setting α)

/-- Enters an item, and records the derivation that comes with it, if there is one. -/
def entryOps (current : ItemSet) (tag : Tag) (start : Nat) (derivation : Option Derivation) :
    List Operation :=
  .enter tag start setting.offset ::
    derivation.toList.map fun derivation => .record (setting.entry current tag start) derivation

/-- The operations of steps that are made for one value after the other. -/
def eachOps {β : Type} (step : ItemSet → β → ItemSet) (ops : ItemSet → β → List Operation) :
    ItemSet → List β → List Operation
  | _, [] => []
  | current, value :: rest => ops current value ++ eachOps step ops (step current value) rest

def openingOps (current : ItemSet) (production : Nat) : List Operation :=
  if (setting.grammar.symbols production).size = 0 then
    setting.entryOps current (.rule (setting.grammar.ruleOf production)) setting.offset
      (some ⟨none, none, production⟩)
  else setting.entryOps current (.dotted (.startOf production)) setting.offset none

def predictOps (current : ItemSet) (rule : Nat) : List Operation :=
  eachOps setting.opening setting.openingOps current (setting.grammar.productionsOf rule).toList

def advanceOps (current : ItemSet) (waiting completed : ItemRef) : List Operation :=
  match setting.item? current waiting with
  | some item =>
    match item.tag with
    | .dotted position =>
      let next := setting.grammar.advance position
      let tag := if setting.grammar.isComplete next then
          .rule (setting.grammar.ruleOf position.production) else .dotted next
      setting.entryOps current tag item.start
        (some ⟨leftPart waiting item position, some completed, position.production⟩)
    | _ => []
  | none => []

def advanceAllOps (current : ItemSet) (set : Nat) (places : Array Nat) (completed : ItemRef) :
    List Operation :=
  eachOps (fun current place => setting.advance current ⟨set, place⟩ completed)
    (fun current place => setting.advanceOps current ⟨set, place⟩ completed) current places.toList

def completeOps (current : ItemSet) (place : Nat) (item : Item) : List Operation :=
  match item.tag, setting.lexeme with
  | .rule rule, _ =>
    setting.advanceAllOps current item.start
      ((setting.setAt current item.start).awaiters (.rule rule)) ⟨setting.offset, place⟩
  | .lexeme _, some lexeme =>
    setting.advanceAllOps current item.start
      (setting.lexemeAwaiters current item.start lexeme) ⟨setting.offset, place⟩
  | _, _ => []

def processOps (current : ItemSet) (place : Nat) : List Operation :=
  match current.items[place]? with
  | some item =>
    match item.tag with
    | .dotted position =>
      match setting.grammar.next? position with
      | some (.rule rule) => setting.predictOps current rule
      | _ => []
    | _ => setting.completeOps current place item
  | none => []

def sweepOps (capacity : Nat) (current : ItemSet) (place : Nat) : List Operation :=
  if place < current.items.size ∧ place < capacity then
    setting.processOps current place ++
      sweepOps capacity (setting.process current place) (place + 1)
  else []
termination_by capacity - place

def saturateOps (capacity : Nat) (current : ItemSet) : List Operation :=
  let before := current.items.size
  let swept := setting.sweep capacity current 0
  setting.sweepOps capacity current 0 ++
    if _ : before < swept.items.size ∧ swept.items.size ≤ capacity then
      saturateOps capacity swept
    else []
termination_by capacity - current.items.size
decreasing_by
  rename_i grown
  exact Nat.sub_lt_sub_left (Nat.lt_of_lt_of_le grown.1 grown.2) grown.1

def seedOps (start : Nat) : List Operation :=
  match setting.lexeme with
  | some _ => setting.entryOps .empty (.lexeme (setting.offset - 1)) (setting.offset - 1) none
  | none => setting.predictOps .empty start

def fillOps (start : Nat) : List Operation :=
  .openSet :: (setting.seedOps start ++ setting.saturateOps setting.capacity (setting.seed start))

end Setting

namespace Grammar

variable {α : Type} (grammar : Grammar α) (start : Nat)

def scanOps : Scan → List String → List Operation
  | _, [] => []
  | scan, lexeme :: rest =>
    (match scan.stuck with
      | some _ => []
      | none => Setting.fillOps ⟨grammar, scan.sets, some lexeme⟩ start) ++
        scanOps (grammar.scanLexeme start scan lexeme) rest

/-- All operations of a parse, be it successful or not. -/
def operations (input : Array String) : List Operation :=
  Setting.fillOps ⟨grammar, #[], none⟩ start ++
    grammar.scanOps start (grammar.scanNothing start) input.toList

end Grammar

namespace Setting

open Chart

variable {α : Type} {setting : Setting α} {current : ItemSet}

private theorem modify_push {β : Type} (values : Array β) (value : β) (change : β → β) :
    (values.push value).modify values.size change = values.push (change value) := by
  refine Array.ext_getElem? fun place => ?_
  simp only [Array.getElem?_modify, Array.getElem?_push]
  by_cases last : place = values.size
  · simp [last]
  · simp [last, Ne.symm last]

theorem perform_enter (setting : Setting α) (current : ItemSet) (tag : Tag) (start : Nat) :
    (setting.chart current).perform setting.grammar (.enter tag start setting.offset) =
      setting.chart (current.insert setting.grammar tag start).2 :=
  congrArg Chart.mk (modify_push setting.finished current _)

theorem perform_record (setting : Setting α) (current : ItemSet) (place : Nat)
    (derivation : Derivation) : (setting.chart current).perform setting.grammar
      (.record ⟨setting.offset, place⟩ derivation) =
        setting.chart (current.derive place derivation) :=
  congrArg Chart.mk (modify_push setting.finished current _)

/-- What a step of filling a set does is what its operations do. -/
abbrev Makes (setting : Setting α) (current : ItemSet) (operations : List Operation)
    (next : ItemSet) : Prop :=
  (setting.chart current).Performs setting.grammar operations (setting.chart next)

theorem makes_entry (consistent : (setting.chart current).Consistent setting.grammar) {tag : Tag}
    (start : Nat) {derivation : Option Derivation}
    (short : ∀ position, tag = .dotted position →
      position.dot < (setting.grammar.symbols position.production).size)
    (known : ∀ entered ∈ derivation, ∀ child ∈ entered.children,
      ((setting.chart current).item? child).isSome = true) :
    setting.Makes current (setting.entryOps current tag start derivation)
      (current.put setting.grammar tag start derivation) := by
  have fits : Operation.Fits setting.grammar (setting.chart current)
      (.enter tag start setting.offset) := ⟨by simp [chart, offset], short⟩
  have entered := perform_enter setting current tag start
  cases derivation with
  | none => exact ⟨⟨fits, trivial⟩, entered⟩
  | some derivation =>
    have indexed := consistent.indexed (Array.mem_of_getElem? (sets_chart_offset setting current))
    have held : ((setting.chart current).perform setting.grammar
        (.enter tag start setting.offset)).Holds (setting.entry current tag start) tag start :=
      consistent.holds_enter.mpr
        (.inr ⟨rfl, rfl, rfl, current, sets_chart_offset setting current, rfl⟩)
    refine ⟨⟨fits, ⟨holds_iff_item.mp ⟨_, _, held⟩, fun child listed =>
      consistent.item_perform (known derivation rfl child listed)⟩, trivial⟩, ?_⟩
    exact (congrArg (perform setting.grammar · _) entered).trans
      (perform_record setting _ _ derivation)

theorem Makes.refl (current : ItemSet) : setting.Makes current [] current := Performs.refl _

/-- Steps for one value after the other, where something is known that no step changes. -/
theorem makes_each {β : Type} {step : ItemSet → β → ItemSet}
    {ops : ItemSet → β → List Operation} {values : List β} (known : ItemSet → Prop)
    (consistent : (setting.chart current).Consistent setting.grammar) (first : known current)
    (each : ∀ {current}, (setting.chart current).Consistent setting.grammar → known current →
      ∀ value ∈ values, setting.Makes current (ops current value) (step current value) ∧
        known (step current value)) :
    setting.Makes current (eachOps step ops current values) (values.foldl step current) := by
  induction values generalizing current with
  | nil => exact .refl current
  | cons value rest ih =>
    obtain ⟨makes, later⟩ := each consistent first value List.mem_cons_self
    exact makes.append (ih (makes.consistent consistent) later fun consistent known other member =>
      each consistent known other (List.mem_cons_of_mem value member))

theorem known_leftPart (consistent : (setting.chart current).Consistent setting.grammar)
    {waiting child : ItemRef} {item : Item} {position : Position}
    (found : (setting.chart current).item? waiting = some item)
    (left : leftPart waiting item position = some child) :
    ((setting.chart current).item? child).isSome = true := by
  unfold leftPart at left
  split at left
  · cases left
  · split at left
    · obtain ⟨derivation, sole, right⟩ := Option.bind_eq_some_iff.mp left
      have only : item.derivations = #[derivation] := Derivations.sole_eq_some_iff.mp sole
      have member : derivation ∈ (setting.chart current).derivations waiting := by
        simp [derivations_of_item found, only]
      exact consistent.known member child (by simp [Derivation.children, right])
    · cases left
      rw [found]
      rfl

theorem makes_opening (consistent : (setting.chart current).Consistent setting.grammar)
    (production : Nat) : setting.Makes current (setting.openingOps current production)
      (setting.opening current production) := by
  unfold openingOps opening
  split
  · refine makes_entry consistent _ (by simp) ?_
    rintro _ ⟨⟩ child listed
    cases listed
  · rename_i inhabited
    refine makes_entry consistent _ ?_ nofun
    rintro position ⟨⟩
    exact Nat.pos_of_ne_zero inhabited

variable (valid : setting.grammar.WellFormed)
include valid

theorem makes_predict (consistent : (setting.chart current).Consistent setting.grammar)
    (rule : Nat) :
    setting.Makes current (setting.predictOps current rule) (setting.predict current rule) := by
  rw [predict_eq valid]
  exact makes_each (fun _ => True) consistent trivial
    fun consistent _ production _ => ⟨makes_opening consistent production, trivial⟩

theorem makes_advance (consistent : (setting.chart current).Consistent setting.grammar)
    (waiting : ItemRef) {completed : ItemRef}
    (known : ((setting.chart current).item? completed).isSome = true) :
    setting.Makes current (setting.advanceOps current waiting completed)
      (setting.advance current waiting completed) := by
  simp only [advanceOps, advance, item_eq]
  cases found : (setting.chart current).item? waiting with
  | none => exact .refl current
  | some item =>
    cases tagged : item.tag with
    | lexeme offset => simpa only [tagged] using .refl current
    | rule index => simpa only [tagged] using .refl current
    | dotted position =>
      simp only [tagged]
      refine makes_entry consistent item.start ?_ ?_
      · intro next tag
        split at tag
        · cases tag
        · rename_i incomplete
          cases tag
          simpa [valid.isComplete_iff] using incomplete
      · rintro _ ⟨⟩ child listed
        rcases List.mem_append.mp listed with left | right
        · exact known_leftPart consistent found (Option.mem_toList.mp left)
        · obtain rfl := Option.some.inj (Option.mem_toList.mp right)
          exact known

theorem makes_advanceAll (consistent : (setting.chart current).Consistent setting.grammar)
    (set : Nat) (places : Array Nat) {completed : ItemRef}
    (known : ((setting.chart current).item? completed).isSome = true) :
    setting.Makes current (setting.advanceAllOps current set places completed)
      (setting.advanceAll current set places completed) := by
  rw [advanceAll, ← Array.foldl_toList]
  refine makes_each (fun current =>
    ((setting.chart current).item? completed).isSome = true) consistent known ?_
  intro current consistent known place _
  have makes := makes_advance valid consistent ⟨set, place⟩ known
  exact ⟨makes, makes.item consistent known⟩

theorem makes_complete (consistent : (setting.chart current).Consistent setting.grammar)
    {place : Nat} {item : Item} (found : current.items[place]? = some item) :
    setting.Makes current (setting.completeOps current place item)
      (setting.complete current place item) := by
  have known : ((setting.chart current).item? ⟨setting.offset, place⟩).isSome = true :=
    holds_iff_item.mp ⟨_, _, holds_here.mpr ⟨item, found, rfl, rfl⟩⟩
  unfold completeOps complete
  cases item.tag with
  | rule rule => exact makes_advanceAll valid consistent _ _ known
  | dotted position => exact .refl current
  | lexeme offset =>
    cases setting.lexeme with
    | none => exact .refl current
    | some lexeme => exact makes_advanceAll valid consistent _ _ known

theorem makes_process (consistent : (setting.chart current).Consistent setting.grammar)
    (place : Nat) : setting.Makes current (setting.processOps current place)
      (setting.process current place) := by
  unfold processOps process
  cases found : current.items[place]? with
  | none => exact .refl current
  | some item =>
    have completes := makes_complete valid consistent found
    dsimp only
    cases item.tag with
    | rule rule => exact completes
    | lexeme offset => exact completes
    | dotted position =>
      dsimp only
      cases setting.grammar.next? position with
      | none => exact .refl current
      | some symbol =>
        cases symbol with
        | token token => exact .refl current
        | rule rule => exact makes_predict valid consistent rule

theorem makes_sweep (consistent : (setting.chart current).Consistent setting.grammar)
    (capacity place : Nat) : setting.Makes current (setting.sweepOps capacity current place)
      (setting.sweep capacity current place) := by
  fun_induction sweep setting capacity current place with
  | case1 current place guard ih =>
    rw [sweepOps, if_pos guard]
    have first := makes_process valid consistent place
    exact first.append (ih (first.consistent consistent))
  | case2 current place guard =>
    rw [sweepOps, if_neg guard]
    exact .refl current

theorem makes_saturate (consistent : (setting.chart current).Consistent setting.grammar)
    (capacity passes : Nat) : setting.Makes current (setting.saturateOps capacity current)
      (setting.saturate capacity current passes).1 := by
  fun_induction saturate setting capacity current passes with
  | case1 current passes before swept grown ih =>
    rw [saturateOps, dif_pos grown]
    have first := makes_sweep valid consistent capacity 0
    exact first.append (ih (first.consistent consistent))
  | case2 current passes before swept guard =>
    rw [saturateOps, dif_neg guard, List.append_nil]
    exact makes_sweep valid consistent capacity 0

theorem makes_seed (consistent : (setting.chart .empty).Consistent setting.grammar) (start : Nat) :
    setting.Makes .empty (setting.seedOps start) (setting.seed start) := by
  unfold seedOps seed
  cases setting.lexeme with
  | none => exact makes_predict valid consistent start
  | some lexeme =>
    refine makes_entry consistent _ ?_ ?_
    · exact fun _ tag => absurd tag (by simp)
    · exact fun _ entered => absurd entered (by simp)

variable (setting) in
theorem performs_fill (consistent : (Chart.mk setting.finished).Consistent setting.grammar)
    (start : Nat) : (Chart.mk setting.finished).Performs setting.grammar (setting.fillOps start)
      (setting.chart (setting.fill start).1) := by
  have opened : (Chart.mk setting.finished).Performs setting.grammar [.openSet]
      (setting.chart .empty) := ⟨⟨trivial, trivial⟩, rfl⟩
  have consistent := opened.consistent consistent
  have seeded := makes_seed valid consistent start
  exact opened.append (seeded.append
    (makes_saturate valid (seeded.consistent consistent) setting.capacity 0))

end Setting

namespace Grammar

variable {α : Type} {grammar : Grammar α} (valid : grammar.WellFormed) (start : Nat)
include valid

theorem performs_scanLexeme {scan : Scan}
    (consistent : (Chart.mk scan.sets).Consistent grammar) (lexeme : String) :
    (Chart.mk scan.sets).Performs grammar (match scan.stuck with
        | some _ => []
        | none => Setting.fillOps ⟨grammar, scan.sets, some lexeme⟩ start)
      (Chart.mk (grammar.scanLexeme start scan lexeme).sets) := by
  obtain ⟨sets, events, stuck⟩ := scan
  cases stuck with
  | some offset => exact Chart.Performs.refl _
  | none =>
    have filled := Setting.performs_fill ⟨grammar, sets, some lexeme⟩ valid consistent start
    have same : (grammar.scanLexeme start ⟨sets, events, none⟩ lexeme).sets =
        sets.push (Setting.fill ⟨grammar, sets, some lexeme⟩ start).1 := by
      simp only [scanLexeme, fillNext]
      exact (apply_ite Scan.sets _ _ _).trans (ite_self _)
    rw [same]
    exact filled

theorem performs_scan (input : Array String) : Chart.Performs grammar ⟨#[]⟩
    (grammar.operations start input) ⟨(grammar.scan start input).sets⟩ := by
  have reading (lexemes : List String) (scan : Scan)
      (consistent : (Chart.mk scan.sets).Consistent grammar) :
      (Chart.mk scan.sets).Performs grammar (grammar.scanOps start scan lexemes)
        (Chart.mk (lexemes.foldl (grammar.scanLexeme start) scan).sets) := by
    induction lexemes generalizing scan with
    | nil => exact Chart.Performs.refl _
    | cons lexeme rest ih =>
      have first := performs_scanLexeme valid start consistent lexeme
      exact first.append (ih _ (first.consistent consistent))
  have nothing := Chart.consistent_nothing grammar
  have first := Setting.performs_fill ⟨grammar, #[], none⟩ valid nothing start
  have rest := reading input.toList (grammar.scanNothing start) (first.consistent nothing)
  rw [scan, ← Array.foldl_toList]
  exact first.append rest

end Grammar

end ChartParser
