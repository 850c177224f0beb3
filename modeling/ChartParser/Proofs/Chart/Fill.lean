import ChartParser.Proofs.Chart.Enter
import ChartParser.Proofs.Chart.Handled

/-! Filling an item set: every step keeps the chart sound, and when a pass over the set adds no
item, every item of the set has been handled. -/
namespace ChartParser

theorem ItemSet.awaited_iff {α : Type} {grammar : Grammar α} {set : ItemSet} {place : Nat}
    {symbol : Symbol} : set.awaited? grammar place = some symbol ↔
      ∃ position start, set.HoldsAt place (.dotted position) start ∧
        grammar.next? position = some symbol := by
  simp only [awaited?, HoldsAt, Option.bind_eq_some_iff]
  constructor
  · intro awaited
    obtain ⟨⟨tag, start, derivations⟩, found, waits⟩ := awaited
    cases tag with
    | dotted position => exact ⟨position, start, ⟨_, found, rfl, rfl⟩, waits⟩
    | lexeme => cases waits
    | rule => cases waits
  · intro held
    obtain ⟨position, start, ⟨item, found, tag, -⟩, waits⟩ := held
    refine ⟨item, found, ?_⟩
    rw [tag]
    exact waits

namespace Setting

variable {α : Type}

/-- The setting is that of a set of this input. -/
structure Reads (setting : Setting α) (input : Array String) : Prop where
  valid : setting.grammar.WellFormed
  inside : setting.offset ≤ input.size
  outset : setting.offset = 0 → setting.lexeme = none
  behind : ∀ {offset}, setting.offset = offset + 1 → setting.lexeme = input[offset]?

/-- What holds all along while a set is filled, the input being parsed as the goal. -/
structure Filling (setting : Setting α) (goal : Nat) (input : Array String) (current : ItemSet) :
    Prop where
  sound : (setting.chart current).Sound setting.grammar input
  rooted : (setting.chart current).Rooted setting.grammar
  expecting : (setting.chart current).Expecting setting.grammar goal input

/-- A step of filling a set loses nothing. -/
structure Step (setting : Setting α) (goal : Nat) (input : Array String)
    (current next : ItemSet) : Prop where
  filling : setting.Filling goal input next
  more : (setting.chart current).Extends (setting.chart next)
  size_le : current.items.size ≤ next.items.size

variable {setting : Setting α} {goal : Nat} {input : Array String} {current next : ItemSet}

theorem Step.refl (filling : setting.Filling goal input current) :
    setting.Step goal input current current :=
  ⟨filling, .refl _, Nat.le_refl _⟩

theorem Step.trans {last : ItemSet} (first : setting.Step goal input current next)
    (second : setting.Step goal input next last) : setting.Step goal input current last :=
  ⟨second.filling, first.more.trans second.more, first.size_le.trans second.size_le⟩

theorem Filling.indexed (filling : setting.Filling goal input current) :
    current.Indexed setting.grammar :=
  filling.sound.indexed (Array.mem_of_getElem? (sets_chart_offset setting current))

theorem holds_here {place start : Nat} {tag : Tag} :
    (setting.chart current).Holds ⟨setting.offset, place⟩ tag start ↔
      current.HoldsAt place tag start := by
  simp [Chart.holds_iff, sets_chart_offset]

theorem Step.same (step : setting.Step goal input current next)
    (size : next.items.size = current.items.size) (offset : Nat) :
    (setting.chart current).SameUpTo (setting.chart next) offset := by
  refine ⟨step.more, ?_⟩
  intro ref tag start _ held
  by_cases here : ref.set = setting.offset
  · obtain ⟨set, place⟩ := ref
    obtain rfl : set = setting.offset := here
    obtain ⟨item, found, -⟩ := holds_here.mp held
    have inside := (Array.getElem?_eq_some_iff.mp found).1
    rw [size] at inside
    have old : (setting.chart current).Holds ⟨setting.offset, place⟩ current.items[place].tag
        current.items[place].start :=
      holds_here.mpr ⟨_, Array.getElem?_eq_getElem inside, rfl, rfl⟩
    obtain ⟨rfl, rfl⟩ := held.unique (step.more.holds old)
    exact old
  · rw [Chart.holds_iff, sets_chart, if_neg here] at held ⊢
    exact held

section Predict

def opening (setting : Setting α) (current : ItemSet) (production : Nat) : ItemSet :=
  if (setting.grammar.symbols production).size = 0 then
    current.put setting.grammar (.rule (setting.grammar.ruleOf production)) setting.offset
      (some ⟨none, none, production⟩)
  else current.put setting.grammar (.dotted (.startOf production)) setting.offset none

/-- A production being predicted. The other productions of its rule may still be missing. -/
private structure Opened (setting : Setting α) (input : Array String) (current next : ItemSet)
    (rule : Nat) (productions : List Nat) : Prop where
  sound : (setting.chart next).Sound setting.grammar input
  more : (setting.chart current).Extends (setting.chart next)
  size_le : current.items.size ≤ next.items.size
  begun : ∀ production ∈ productions,
    (setting.chart next).Begun setting.grammar production setting.offset
  added : ∀ {ref tag start}, (setting.chart next).Holds ref tag start →
    (setting.chart current).Holds ref tag start ∨
      (tag.owner? setting.grammar = some rule ∧ start = setting.offset)

private theorem opened_opening (valid : setting.grammar.WellFormed)
    (sound : (setting.chart current).Sound setting.grammar input) {production : Nat}
    (known : production < setting.grammar.productions.size) :
    setting.Opened input current (setting.opening current production)
      (setting.grammar.ruleOf production) [production] := by
  have indexed := sound.indexed (Array.mem_of_getElem? (sets_chart_offset setting current))
  unfold opening
  split
  · rename_i bare
    have bare : setting.grammar.symbols production = #[] := Array.eq_empty_of_size_eq_zero bare
    refine ⟨sound.put valid (.split (.empty known bare)), extends_put indexed _ _ _,
      ItemSet.size_le_put _ _ _ _ _, ?_, ?_⟩
    · simp only [List.mem_singleton, forall_eq]
      exact .empty bare rfl ((holds_put indexed).mpr (.inr ⟨rfl, rfl, rfl⟩))
        ((mem_derivations_put indexed).mpr (.inr ⟨rfl, rfl⟩))
    · intro ref tag start held
      rcases (holds_put indexed).mp held with old | ⟨-, rfl, rfl⟩
      · exact .inl old
      · exact .inr ⟨rfl, rfl⟩
  · rename_i inhabited
    have inhabited := Nat.pos_of_ne_zero inhabited
    refine ⟨sound.put valid (.opening known inhabited), extends_put indexed _ _ _,
      ItemSet.size_le_put _ _ _ _ _, ?_, ?_⟩
    · simp only [List.mem_singleton, forall_eq]
      exact .opening inhabited rfl ((holds_put indexed).mpr (.inr ⟨rfl, rfl, rfl⟩))
    · intro ref tag start held
      rcases (holds_put indexed).mp held with old | ⟨-, rfl, rfl⟩
      · exact .inl old
      · exact .inr ⟨rfl, rfl⟩

private theorem opened_foldl (valid : setting.grammar.WellFormed)
    (sound : (setting.chart current).Sound setting.grammar input) (rule : Nat)
    (productions : List Nat) (known : ∀ production ∈ productions,
      production < setting.grammar.productions.size ∧ setting.grammar.ruleOf production = rule) :
    setting.Opened input current (productions.foldl setting.opening current) rule productions := by
  induction productions generalizing current with
  | nil => exact ⟨sound, .refl _, Nat.le_refl _, by simp, .inl⟩
  | cons production rest ih =>
    obtain ⟨inside, rfl⟩ := known production (by simp)
    have first := opened_opening valid sound inside
    have later := ih first.sound fun other member => known other (by simp [member])
    refine ⟨later.sound, first.more.trans later.more, first.size_le.trans later.size_le, ?_, ?_⟩
    · intro other member
      rcases List.mem_cons.mp member with rfl | member
      · exact (first.begun _ (List.mem_singleton_self _)).mono later.more
      · exact later.begun other member
    · intro ref tag start held
      rcases later.added held with held | new
      · exact first.added held
      · exact .inr new

theorem predict_eq (valid : setting.grammar.WellFormed) (current : ItemSet) (rule : Nat) :
    setting.predict current rule =
      (setting.grammar.productionsOf rule).toList.foldl setting.opening current := by
  have same {productions : List Nat}
      (owned : ∀ production ∈ productions, setting.grammar.ruleOf production = rule) :
      productions.foldl (fun current production =>
        if setting.grammar.isComplete (.startOf production) then
          (current.insert setting.grammar (.rule rule) setting.offset).2.derive
            (current.insert setting.grammar (.rule rule) setting.offset).1 ⟨none, none, production⟩
        else (current.insert setting.grammar (.dotted (.startOf production)) setting.offset).2)
        current = productions.foldl setting.opening current := by
    refine List.foldl_ext _ _ _ fun current production member => ?_
    simp only [opening, ItemSet.put, owned production member, valid.isComplete_iff,
      Position.startOf, Nat.le_zero]
  rw [predict, ← Array.foldl_toList]
  exact same fun production member =>
    (valid.mem_productionsOf.mp (Array.mem_toList_iff.mp member)).2

/-- Prediction begins all productions of an expected rule at the offset of the set. -/
theorem predict_spec (reads : setting.Reads input) (filling : setting.Filling goal input current)
    {rule : Nat}
    (expects : setting.grammar.Expects goal (input.toList.take setting.offset) [.rule rule]) :
    setting.Step goal input current (setting.predict current rule) ∧
      (setting.chart (setting.predict current rule)).Predicted setting.grammar rule
        setting.offset := by
  rw [predict_eq reads.valid]
  have opened := opened_foldl reads.valid filling.sound rule
    (setting.grammar.productionsOf rule).toList fun production member =>
      reads.valid.mem_productionsOf.mp (Array.mem_toList_iff.mp member)
  have predicted : (setting.chart ((setting.grammar.productionsOf rule).toList.foldl
      setting.opening current)).Predicted setting.grammar rule setting.offset :=
    fun production known same => opened.begun production
      (Array.mem_toList_iff.mpr (reads.valid.mem_productionsOf.mpr ⟨known, same⟩))
  refine ⟨⟨⟨opened.sound, ?_, ?_⟩, opened.more, opened.size_le⟩, predicted⟩
  · intro ref tag start other held owner
    rcases opened.added held with old | ⟨owned, rfl⟩
    · exact (filling.rooted old owner).mono opened.more
    · obtain rfl := Option.some.inj (owned.symm.trans owner)
      exact predicted
  · intro ref tag start other held owner
    rcases opened.added held with old | ⟨owned, rfl⟩
    · exact filling.expecting old owner
    · obtain rfl := Option.some.inj (owned.symm.trans owner)
      exact expects

end Predict

section Complete

/-- Moving a dot enters the item behind the symbol, with a derivation of which the left part is what
the position calls for. -/
theorem advance_eq_put (valid : setting.grammar.WellFormed) {waiting : ItemRef} {item : Item}
    (found : (setting.chart current).item? waiting = some item) {position : Position}
    (tag : item.tag = .dotted position) {symbol : Symbol}
    (next : setting.grammar.next? position = some symbol) (completed : ItemRef) :
    setting.advance current waiting completed =
      current.put setting.grammar (setting.grammar.tagBehind position) item.start
        (some ⟨leftPart waiting item position, some completed, position.production⟩) := by
  have short : position.dot < (setting.grammar.symbols position.production).size :=
    (Array.getElem?_eq_some_iff.mp next).1
  have complete : setting.grammar.isComplete ⟨position.production, position.dot + 1⟩ = true ↔
      position.dot + 1 = (setting.grammar.symbols position.production).size := by
    rw [valid.isComplete_iff]
    simp only
    omega
  rw [advance, item_eq, found]
  simp only [tag, valid.advance_eq short, complete]
  rfl

theorem leftPart_first {waiting : ItemRef} {item : Item} {position : Position}
    {derivation : Derivation} (found : (setting.chart current).item? waiting = some item)
    (dot : position.dot = 1)
    (sole : (setting.chart current).derivations waiting = #[derivation]) :
    leftPart waiting item position = derivation.right := by
  rw [Chart.derivations_of_item found] at sole
  rw [leftPart, if_neg (by omega), if_pos dot, Item.sole?, Derivations.sole_eq_some_iff.mpr sole,
    Option.bind_some]

/-- The way that a completed item is used with a waiting one is recorded. -/
theorem advance_spec (reads : setting.Reads input) (filling : setting.Filling goal input current)
    {waiting completed : ItemRef} {position : Position} {start : Nat} {symbol : Symbol}
    (held : (setting.chart current).Holds waiting (.dotted position) start)
    (next : setting.grammar.next? position = some symbol)
    (covers : (setting.chart current).Covers setting.grammar input completed symbol waiting.set)
    (here : completed.set = setting.offset) :
    setting.Step goal input current (setting.advance current waiting completed) ∧
      (setting.chart (setting.advance current waiting completed)).Joined setting.grammar input
        waiting position start completed := by
  have valid := reads.valid
  have indexed := filling.indexed
  obtain ⟨item, found, tag, rfl⟩ := held
  have held : (setting.chart current).Holds waiting (.dotted position) item.start :=
    ⟨item, found, tag, rfl⟩
  -- the left part that is recorded is the one that the position calls for
  have left : (setting.chart current).LeftPart setting.grammar input waiting position item.start
      (leftPart waiting item position) := by
    by_cases dot : position.dot = 1
    · obtain ⟨ref, opening, sole, same, first, opens⟩ := filling.sound.sole_first dot held
      rw [leftPart_first found dot sole]
      exact .first dot first opens same
    · unfold leftPart
      split
      · exact .nothing ‹_›
      · exact .waiting (by omega)
  have split := Chart.Splits.step held next covers left
  have advanced := advance_eq_put valid found tag next completed
  have justified : (setting.chart current).Justified setting.grammar input
      (setting.grammar.tagBehind position) item.start setting.offset
      (some ⟨leftPart waiting item position, some completed, position.production⟩) :=
    here ▸ .split split
  have more := extends_put indexed (setting.grammar.tagBehind position) item.start
    (some ⟨leftPart waiting item position, some completed, position.production⟩)
  rw [advanced]
  have owner : (setting.grammar.tagBehind position).owner? setting.grammar =
      Tag.owner? setting.grammar (.dotted position) := by
    obtain ⟨-, tag⟩ | ⟨-, tag⟩ := Chart.tagBehind_cases setting.grammar position
    · rw [tag]
      rfl
    · rw [tag]
      rfl
  refine ⟨⟨⟨filling.sound.put valid justified, ?_, ?_⟩, more, ItemSet.size_le_put _ _ _ _ _⟩, ?_⟩
  · intro ref tag' start' rule held' owned
    rcases (holds_put indexed).mp held' with old | ⟨rfl, rfl, rfl⟩
    · exact (filling.rooted old owned).mono more
    · exact (filling.rooted held (owner.symm.trans owned)).mono more
  · intro ref tag' start' rule held' owned
    rcases (holds_put indexed).mp held' with old | ⟨rfl, rfl, rfl⟩
    · exact filling.expecting old owned
    · exact filling.expecting held (owner.symm.trans owned)
  · exact ⟨setting.entry current _ _, _, here.symm, (holds_put indexed).mpr (.inr ⟨rfl, rfl, rfl⟩),
      left.mono more.holds, (mem_derivations_put indexed).mpr (.inr ⟨rfl, rfl⟩)⟩

/-- The items at these places of a set wait for what the completed item has matched. -/
def Waiting (setting : Setting α) (input : Array String) (current : ItemSet) (set : Nat)
    (completed : ItemRef) (place : Nat) : Prop :=
  ∃ position start symbol, (setting.chart current).Holds ⟨set, place⟩ (.dotted position) start ∧
    setting.grammar.next? position = some symbol ∧
    (setting.chart current).Covers setting.grammar input completed symbol set

theorem Waiting.mono {set place : Nat} {completed : ItemRef}
    (more : (setting.chart current).Extends (setting.chart next))
    (waiting : setting.Waiting input current set completed place) :
    setting.Waiting input next set completed place := by
  obtain ⟨position, start, symbol, held, waits, covers⟩ := waiting
  exact ⟨position, start, symbol, more.holds held, waits, covers.mono more.holds⟩

theorem foldl_advance (reads : setting.Reads input)
    (filling : setting.Filling goal input current) {set : Nat} {completed : ItemRef}
    (here : completed.set = setting.offset) (places : List Nat)
    (waiting : ∀ place ∈ places, setting.Waiting input current set completed place) :
    let next := places.foldl
      (fun current place => setting.advance current ⟨set, place⟩ completed) current
    setting.Step goal input current next ∧ ∀ place ∈ places, ∀ {position start},
      (setting.chart current).Holds ⟨set, place⟩ (.dotted position) start →
      (setting.chart next).Joined setting.grammar input ⟨set, place⟩ position start completed := by
  induction places generalizing current with
  | nil => exact ⟨.refl filling, by simp⟩
  | cons place rest ih =>
    obtain ⟨position, start, symbol, held, waits, covers⟩ := waiting place (by simp)
    obtain ⟨first, joined⟩ := advance_spec reads filling held waits covers here
    obtain ⟨later, others⟩ := ih first.filling fun other member =>
      (waiting other (by simp [member])).mono first.more
    refine ⟨first.trans later, ?_⟩
    intro other member position' start' held'
    rcases List.mem_cons.mp member with rfl | member
    · obtain ⟨tags, rfl⟩ := held.unique held'
      cases tags
      exact joined.mono later.more
    · exact others other member (first.more.holds held')

/-- Advancing all items that wait for what an item has matched leaves none of them behind. -/
theorem advanceAll_spec (reads : setting.Reads input) (filling : setting.Filling goal input current)
    {completed : ItemRef} {tag : Tag} {start : Nat} {places : Array Nat}
    (held : (setting.chart current).Holds completed tag start)
    (here : completed.set = setting.offset)
    (listed : ∀ {place}, place ∈ places ↔ ∃ position first symbol,
      (setting.chart current).Holds ⟨start, place⟩ (.dotted position) first ∧
      setting.grammar.next? position = some symbol ∧
      (setting.chart current).Covers setting.grammar input completed symbol start) :
    let next := setting.advanceAll current start places completed
    setting.Step goal input current next ∧ (next.items.size = current.items.size →
      ∀ {waiting position first symbol},
      (setting.chart next).Holds waiting (.dotted position) first →
      setting.grammar.next? position = some symbol →
      (setting.chart next).Covers setting.grammar input completed symbol waiting.set →
      (setting.chart next).Joined setting.grammar input waiting position first completed) := by
  have folded := foldl_advance reads filling here places.toList fun place member =>
    listed.mp (Array.mem_toList_iff.mp member)
  rw [Array.foldl_toList] at folded
  refine ⟨folded.1, ?_⟩
  intro size waiting position first symbol held' waits covers
  have same := folded.1.same size (max waiting.set completed.set)
  have old := same.back (le_max_left _ _) held'
  have covers := same.covers (le_max_right _ _) covers
  obtain ⟨tag', held'', -⟩ := Chart.Sound.advanced_of_covers covers
  obtain ⟨-, begun⟩ := held.unique held''
  obtain ⟨set, place⟩ := waiting
  obtain rfl : start = set := begun
  exact folded.2 place (Array.mem_toList_iff.mpr
    (listed.mpr ⟨position, first, symbol, old, waits, covers⟩)) old

theorem exists_set (current : ItemSet) {offset : Nat} (ordered : offset ≤ setting.offset) :
    ∃ set, (setting.chart current).sets[offset]? = some set := by
  have inside : offset < (setting.chart current).sets.size := by
    simp only [chart, Array.size_push]
    exact Nat.lt_succ_of_le ordered
  exact ⟨_, Array.getElem?_eq_getElem inside⟩

theorem mem_awaiters_rule (filling : setting.Filling goal input current) {start index place : Nat}
    (ordered : start ≤ setting.offset) :
    place ∈ (setting.setAt current start).awaiters (.rule index) ↔ ∃ position first,
      (setting.chart current).Holds ⟨start, place⟩ (.dotted position) first ∧
      setting.grammar.next? position = some (.rule index) := by
  obtain ⟨set, found⟩ := exists_set current ordered
  rw [setAt_eq found, (filling.sound.indexed (Array.mem_of_getElem? found)).mem_awaiters,
    ItemSet.awaited_iff]
  simp [Chart.holds_iff, found, Symbol.isClassToken]

theorem awaitsLexeme_iff {lexeme : String} {ref : ItemRef} :
    setting.awaitsLexeme current lexeme ref = true ↔ ∃ position first token,
      (setting.chart current).Holds ref (.dotted position) first ∧
      setting.grammar.next? position = some (.token token) ∧
      setting.grammar.tokenMatches token lexeme = true := by
  rw [awaitsLexeme, item_eq]
  constructor
  · intro waits
    split at waits
    · rename_i position first derivations found
      split at waits
      · exact ⟨position, first, _, ⟨_, found, rfl, rfl⟩, ‹_›, waits⟩
      · cases waits
    · cases waits
  · intro awaiting
    obtain ⟨position, first, token, held, waits, matched⟩ := awaiting
    obtain ⟨⟨tag, start, derivations⟩, found, rfl, rfl⟩ := held
    simp only [found, waits, matched]

/-- The look-ups by name and by class together find all items that wait for a lexeme. -/
theorem mem_lexemeAwaiters (reads : setting.Reads input)
    (filling : setting.Filling goal input current) {start place : Nat} {lexeme : String}
    (ordered : start ≤ setting.offset) :
    place ∈ setting.lexemeAwaiters current start lexeme ↔ ∃ position first token,
      (setting.chart current).Holds ⟨start, place⟩ (.dotted position) first ∧
      setting.grammar.next? position = some (.token token) ∧
      setting.grammar.tokenMatches token lexeme = true := by
  obtain ⟨set, found⟩ := exists_set current ordered
  have indexed := filling.sound.indexed (Array.mem_of_getElem? found)
  have waiting {token : Nat} : set.awaited? setting.grammar place = some (.token token) ↔
      ∃ position first, (setting.chart current).Holds ⟨start, place⟩ (.dotted position) first ∧
        setting.grammar.next? position = some (.token token) := by
    rw [ItemSet.awaited_iff]
    simp [Chart.holds_iff, found]
  rw [lexemeAwaiters, setAt_eq found, Array.mem_append, Array.mem_filter, awaitsLexeme_iff,
    indexed.mem_awaitingClass]
  constructor
  · rintro (exact | ⟨-, byClass⟩)
    · split at exact
      · rename_i token named
        obtain ⟨position, first, held, waits⟩ := waiting.mp (indexed.mem_awaiters.mp exact).1
        exact ⟨position, first, token, held, waits, (reads.valid.lexemeToken_iff.mp named).2⟩
      · simp at exact
    · exact byClass
  · intro awaiting
    obtain ⟨position, first, token, held, waits, matched⟩ := awaiting
    have awaited := waiting.mpr ⟨position, first, held, waits⟩
    cases isClass : setting.grammar.isClass token with
    | false =>
      left
      rw [reads.valid.lexemeToken_iff.mpr ⟨isClass, matched⟩]
      exact indexed.mem_awaiters.mpr ⟨awaited, isClass⟩
    | true => exact .inr ⟨⟨token, awaited, isClass⟩, position, first, token, held, waits, matched⟩

/-- The places of the items that wait for what an item has matched. Items that have not come to
their end match nothing, and no lexeme is in front of the first set. -/
def awaitersOf (setting : Setting α) (current : ItemSet) (item : Item) : Array Nat :=
  match item.tag, setting.lexeme with
  | .rule rule, _ => (setting.setAt current item.start).awaiters (.rule rule)
  | .lexeme _, some lexeme => setting.lexemeAwaiters current item.start lexeme
  | _, _ => #[]

theorem complete_eq (setting : Setting α) (current : ItemSet) (place : Nat) (item : Item) :
    setting.complete current place item = setting.advanceAll current item.start
      (setting.awaitersOf current item) ⟨setting.offset, place⟩ := by
  unfold complete awaitersOf
  cases item.tag with
  | rule rule => rfl
  | dotted position => rfl
  | lexeme offset => cases setting.lexeme <;> rfl

theorem mem_awaitersOf (reads : setting.Reads input) (filling : setting.Filling goal input current)
    {completed : Nat} {item : Item} (found : current.items[completed]? = some item) {place : Nat} :
    place ∈ setting.awaitersOf current item ↔ ∃ position first symbol,
      (setting.chart current).Holds ⟨item.start, place⟩ (.dotted position) first ∧
      setting.grammar.next? position = some symbol ∧
      (setting.chart current).Covers setting.grammar input ⟨setting.offset, completed⟩ symbol
        item.start := by
  obtain ⟨tag, start, derivations⟩ := item
  have held : (setting.chart current).Holds ⟨setting.offset, completed⟩ tag start :=
    holds_here.mpr ⟨_, found, rfl, rfl⟩
  have placed := filling.sound.placed held
  cases tag with
  | dotted position =>
    refine ⟨fun member => absurd member (Array.not_mem_empty _), fun awaiting => ?_⟩
    obtain ⟨position, first, symbol, -, -, covers⟩ := awaiting
    cases covers with
    | rule held' => cases (held.unique held').1
    | token held' => cases (held.unique held').1
  | rule index =>
    cases placed with
    | rule known ordered =>
      refine (mem_awaiters_rule filling ordered).trans ⟨fun awaiting => ?_, fun awaiting => ?_⟩
      · obtain ⟨position, first, held', waits⟩ := awaiting
        exact ⟨position, first, _, held', waits, .rule held⟩
      · obtain ⟨position, first, symbol, held', waits, covers⟩ := awaiting
        cases covers with
        | rule held'' =>
          cases (held.unique held'').1
          exact ⟨position, first, held', waits⟩
        | token held'' => cases (held.unique held'').1
  | lexeme offset =>
    obtain ⟨rfl, next⟩ : offset = start ∧ setting.offset = start + 1 := by
      generalize setting.offset = stop at placed
      cases placed with
      | lexeme => exact ⟨rfl, rfl⟩
    have behind := reads.behind next
    cases read : setting.lexeme with
    | none =>
      simp only [awaitersOf, read]
      refine ⟨fun member => absurd member (Array.not_mem_empty _), fun awaiting => ?_⟩
      obtain ⟨position, first, symbol, -, -, covers⟩ := awaiting
      cases covers with
      | rule held' => cases (held.unique held').1
      | token held' _ read' =>
        rw [← behind, read] at read'
        cases read'
    | some lexeme =>
      simp only [awaitersOf, read]
      rw [read] at behind
      refine (mem_lexemeAwaiters reads filling (by omega)).trans
        ⟨fun awaiting => ?_, fun awaiting => ?_⟩
      · obtain ⟨position, first, token, held', waits, matched⟩ := awaiting
        exact ⟨position, first, _, held', waits, .token held next behind.symm matched⟩
      · obtain ⟨position, first, symbol, held', waits, covers⟩ := awaiting
        cases covers with
        | rule held'' => cases (held.unique held'').1
        | token held'' _ read' matched =>
          obtain rfl := Option.some.inj (behind.trans read')
          exact ⟨position, first, _, held', waits, matched⟩

/-- Completing an item joins it with all items that wait for what it has matched, unless this adds
an item, which may be another one to join it with. -/
theorem complete_spec (reads : setting.Reads input) (filling : setting.Filling goal input current)
    {place : Nat} {item : Item} (found : current.items[place]? = some item) :
    let next := setting.complete current place item
    setting.Step goal input current next ∧ (next.items.size = current.items.size →
      ∀ {waiting position first symbol},
      (setting.chart next).Holds waiting (.dotted position) first →
      setting.grammar.next? position = some symbol →
      (setting.chart next).Covers setting.grammar input ⟨setting.offset, place⟩ symbol
        waiting.set →
      (setting.chart next).Joined setting.grammar input waiting position first
        ⟨setting.offset, place⟩) := by
  rw [complete_eq]
  exact advanceAll_spec reads filling (holds_here.mpr ⟨item, found, rfl, rfl⟩) rfl
    (mem_awaitersOf reads filling found)

end Complete

theorem process_spec (reads : setting.Reads input) (filling : setting.Filling goal input current)
    {place : Nat} (inside : place < current.items.size) :
    let next := setting.process current place
    setting.Step goal input current next ∧ (next.items.size = current.items.size →
      (setting.chart next).Handled setting.grammar input ⟨setting.offset, place⟩) := by
  have found := Array.getElem?_eq_getElem inside
  generalize current.items[place] = item at found
  have held : (setting.chart current).Holds ⟨setting.offset, place⟩ item.tag item.start :=
    holds_here.mpr ⟨_, found, rfl, rfl⟩
  have completed (goes : setting.process current place = setting.complete current place item)
      (plain : ∀ position, item.tag ≠ .dotted position) :
      setting.Step goal input current (setting.process current place) ∧
        ((setting.process current place).items.size = current.items.size →
          (setting.chart (setting.process current place)).Handled setting.grammar input
            ⟨setting.offset, place⟩) := by
    obtain ⟨step, joins⟩ := complete_spec reads filling found
    rw [goes]
    refine ⟨step, fun size => ⟨joins size, ?_⟩⟩
    intro position start index held' _
    exact absurd ((step.more.holds held).unique held').1 (plain position)
  cases tag : item.tag with
  | dotted position =>
    rw [tag] at held
    have alone {next : ItemSet} (step : setting.Step goal input current next)
        (predicts : ∀ {index}, setting.grammar.next? position = some (.rule index) →
          (setting.chart next).Predicted setting.grammar index setting.offset) :
        (setting.chart next).Handled setting.grammar input ⟨setting.offset, place⟩ := by
      have held := step.more.holds held
      constructor
      · intro waiting position' first symbol _ _ covers
        cases covers with
        | rule held' => cases (held.unique held').1
        | token held' => cases (held.unique held').1
      · intro position' start index held' waits
        cases (held.unique held').1
        exact predicts waits
    cases waits : setting.grammar.next? position with
    | none =>
      have stays : setting.process current place = current := by
        simp [process, found, tag, waits]
      rw [stays]
      exact ⟨.refl filling, fun _ => alone (.refl filling) (by simp [waits])⟩
    | some symbol =>
      cases symbol with
      | token token =>
        have stays : setting.process current place = current := by
          simp [process, found, tag, waits]
        rw [stays]
        exact ⟨.refl filling, fun _ => alone (.refl filling) (by simp [waits])⟩
      | rule index =>
        have goes : setting.process current place = setting.predict current index := by
          simp [process, found, tag, waits]
        rw [goes]
        have expects := Chart.Expecting.next filling.sound filling.expecting held waits
        obtain ⟨step, predicted⟩ := predict_spec reads filling expects
        refine ⟨step, fun _ => alone step ?_⟩
        intro other same
        rw [waits] at same
        cases same
        exact predicted
  | rule index => exact completed (by simp [process, found, tag]) (by simp [tag])
  | lexeme offset => exact completed (by simp [process, found, tag]) (by simp [tag])

end Setting

end ChartParser
