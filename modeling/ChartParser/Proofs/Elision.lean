import ChartParser.Proofs.Chart.Rounds
import ChartParser.Proofs.ChartInvariant
import ChartParser.Proofs.RecursiveWalk

/-! The left parts of derivations. Behind the first symbol of a production, a derivation refers to
what has matched that symbol and not to the item in between. No child is lost in this way, at any
point of any parse. -/
namespace ChartParser

namespace Chart

section Elided

variable {α : Type} {grammar : Grammar α} {input : Array String} {chart last : Chart}

/-- The item behind the first symbol of a production has one derivation. It refers to the item that
has matched the symbol over the same span, and to nothing before that. -/
structure Opens (chart : Chart) (grammar : Grammar α) (input : Array String) (waiting : ItemRef)
    (production start : Nat) (opening : ItemRef) : Prop where
  sole : chart.derivations waiting = #[⟨none, some opening, production⟩]
  covers : ∃ symbol, (grammar.symbols production)[0]? = some symbol ∧
    chart.Covers grammar input opening symbol start
  same : opening.set = waiting.set
  only : ∀ {other symbol}, (grammar.symbols production)[0]? = some symbol →
    chart.Covers grammar input other symbol start → other.set = waiting.set → other = opening

theorem Sound.opens (sound : chart.Sound grammar input) {waiting : ItemRef} {position : Position}
    {start : Nat} (dot : position.dot = 1)
    (held : chart.Holds waiting (.dotted position) start) :
    ∃ opening, chart.Opens grammar input waiting position.production start opening := by
  obtain ⟨opening, symbol, sole, same, first, covers⟩ := sound.sole_first dot held
  refine ⟨opening, sole, ⟨symbol, first, covers⟩, same, fun first' covers' same' => ?_⟩
  obtain rfl := Option.some.inj (first.symm.trans first')
  exact sound.covers_unique covers' covers (same'.trans same.symm)

theorem Opens.opening_eq {waiting opening later : ItemRef} {production start : Nat}
    (opens : chart.Opens grammar input waiting production start opening)
    (more : chart.Extends last)
    (opens' : last.Opens grammar input waiting production start later) : later = opening := by
  have member : (⟨none, some opening, production⟩ : Derivation) ∈ chart.derivations waiting := by
    simp [opens.sole]
  have kept := more.derivations member
  rw [opens'.sole, Array.mem_singleton] at kept
  simpa using congrArg Derivation.right kept.symm

theorem Opens.between {middle : Chart} {waiting opening : ItemRef} {production start : Nat}
    (opens : chart.Opens grammar input waiting production start opening)
    (final : last.Opens grammar input waiting production start opening)
    (more : ∀ {ref tag start}, chart.Holds ref tag start → middle.Holds ref tag start)
    (less : ∀ {ref tag start}, middle.Holds ref tag start → last.Holds ref tag start)
    (same : middle.derivations waiting = chart.derivations waiting) :
    middle.Opens grammar input waiting production start opening := by
  obtain ⟨symbol, first, covers⟩ := opens.covers
  exact ⟨same.trans opens.sole, ⟨symbol, first, covers.mono more⟩, opens.same,
    fun first covers => final.only first (covers.mono less)⟩

theorem Splits.left_dotted {tag : Tag} {start stop : Nat}
    {derivation : Derivation} (split : chart.Splits grammar input tag start stop derivation)
    {left : ItemRef} (part : derivation.left = some left) {position : Position} {first : Nat}
    (held : chart.Holds left (.dotted position) first) : 2 ≤ position.dot := by
  cases split with
  | empty => cases part
  | step held' next covers waits =>
    obtain rfl : _ = some left := part
    cases waits with
    | first dot symbol opens same =>
      cases opens with
      | rule held'' => cases (held.unique held'').1
      | token held'' => cases (held.unique held'').1
    | waiting dot =>
      cases (held.unique held').1
      exact dot

theorem length_matchedBy_tagBehind {position : Position} {symbol : Symbol}
    (next : grammar.next? position = some symbol) :
    (grammar.matchedBy position.production (grammar.tagBehind position)).length =
      position.dot + 1 := by
  have short := (Array.getElem?_eq_some_iff.mp next).1
  rw [matchedBy_tagBehind next, List.length_append, List.length_take, Array.length_toList,
    Nat.min_eq_left (Nat.le_of_lt short), List.length_singleton]

/-- A derivation has no left part exactly if one symbol has been matched, or none. -/
theorem Splits.left_none_iff {tag : Tag} {start stop : Nat} {derivation : Derivation}
    (split : chart.Splits grammar input tag start stop derivation) :
    derivation.left = none ↔ (grammar.matchedBy derivation.production tag).length ≤ 1 := by
  cases split with
  | empty known bare => simp [Grammar.matchedBy, bare]
  | @step waiting position start symbol completed part held next covers left =>
    rw [length_matchedBy_tagBehind next]
    cases left with
    | nothing dot => simp [dot]
    | first dot => simp [dot]
    | waiting dot =>
      simp only [reduceCtorEq, false_iff]
      omega

end Elided

section Spliced

variable {α : Type} {grammar : Grammar α} {input : Array String} {chart : Chart}

/-- The items for the symbols before a dot from which a derivation goes on, and from which these
go on in turn. -/
inductive Prefixes (chart : Chart) : Derivation → ItemRef → Prop
  | left (left : derivation.left = some ref) (held : chart.Holds ref (.dotted position) start) :
      Prefixes chart derivation ref
  | before (left : derivation.left = some ref) (held : chart.Holds ref (.dotted position) start)
      (member : earlier ∈ chart.derivations ref) (further : Prefixes chart earlier other) :
      Prefixes chart derivation other

/-- The lexemes and rules that nodes stand for, in a row. An item for the symbols before a dot
stands for those of its only derivation. -/
inductive Splices (chart : Chart) : List ItemRef → List ItemRef → Prop
  | nil : Splices chart [] []
  | symbol (held : chart.Holds ref tag start) (whole : ∀ position, tag ≠ .dotted position)
      (rest : Splices chart nodes children) : Splices chart (ref :: nodes) (ref :: children)
  | spliced (held : chart.Holds ref (.dotted position) start)
      (sole : chart.derivations ref = #[derivation])
      (inner : Splices chart derivation.children front) (rest : Splices chart nodes children) :
      Splices chart (ref :: nodes) (front ++ children)

theorem Splices.unique {nodes children others : List ItemRef}
    (splices : chart.Splices nodes children) (again : chart.Splices nodes others) :
    children = others := by
  induction splices generalizing others with
  | nil =>
    cases again
    rfl
  | symbol held whole _ ih =>
    cases again with
    | symbol _ _ rest => rw [ih rest]
    | spliced held' => exact absurd (held.unique held').1 (whole _)
  | spliced held sole _ _ ih ih' =>
    cases again with
    | symbol held' whole => exact absurd (held'.unique held).1 (whole _)
    | spliced _ sole' inner rest =>
      obtain rfl := by simpa using sole.symm.trans sole'
      rw [ih inner, ih' rest]

theorem Covers.splices {ref : ItemRef} {symbol : Symbol} {start : Nat}
    (covers : chart.Covers grammar input ref symbol start) {nodes children : List ItemRef}
    (rest : chart.Splices nodes children) : chart.Splices (ref :: nodes) (ref :: children) := by
  cases covers with
  | rule held => exact .symbol held nofun rest
  | token held => exact .symbol held nofun rest

/-- As long as no item on its left is ambiguous, a derivation stands for one item for every symbol
that has been matched, in order. -/
theorem Splits.splices (sound : chart.Sound grammar input) {tag : Tag} {start stop : Nat}
    {derivation : Derivation} (split : chart.Splits grammar input tag start stop derivation)
    (clear : ∀ {before}, chart.Prefixes derivation before →
      (chart.derivations before).size ≤ 1) :
    ∃ children, chart.Splices derivation.children children ∧
      List.Forall₂ (fun child symbol => ∃ start, chart.Covers grammar input child symbol start)
        children (grammar.matchedBy derivation.production tag) := by
  -- the items on the left have matched fewer symbols
  induction length : (grammar.matchedBy derivation.production tag).length using
    Nat.strong_induction_on generalizing tag start stop derivation with
  | h count ih =>
    cases split with
    | empty known bare => exact ⟨[], .nil, by simp [Grammar.matchedBy, bare]⟩
    | @step waiting position start symbol completed part held next covers left =>
      rw [length_matchedBy_tagBehind next] at length
      rw [matchedBy_tagBehind next]
      cases left with
      | nothing dot =>
        refine ⟨[completed], covers.splices .nil, ?_⟩
        simpa [dot] using ⟨_, covers⟩
      | @first opening ref dot first opens same =>
        refine ⟨[ref, completed], opens.splices (covers.splices .nil), ?_⟩
        rw [take_first dot first]
        exact .cons ⟨_, opens⟩ (.cons ⟨_, covers⟩ .nil)
      | waiting dot =>
        have advanced : Tag.Advanced (.dotted position) := Nat.ne_of_gt (Nat.lt_of_succ_lt dot)
        obtain ⟨trees, unfolds⟩ := sound.grounded held advanced
        obtain ⟨earlier, member, -⟩ := unfolds.unwrap held (by simp)
        have sole := sole_of_mem member (Nat.not_lt.mpr (clear (.left rfl held)))
        have split := sound.derived held member
        have same : earlier.production = position.production := (split.production sound).2
        have fewer : (grammar.matchedBy earlier.production (.dotted position)).length < count := by
          rw [← length, Grammar.matchedBy, List.length_take]
          omega
        obtain ⟨front, inner, each⟩ := ih _ fewer split
          (fun further => clear (.before rfl held member further)) rfl
        rw [Grammar.matchedBy, same] at each
        exact ⟨front ++ [completed], .spliced held sole inner (covers.splices .nil),
          List.rel_append each (.cons ⟨_, covers⟩ .nil)⟩

end Spliced

end Chart

namespace Setting

variable {α : Type} {setting : Setting α} {goal : Nat} {input : Array String}
  {current : ItemSet} {waiting completed : ItemRef}

/-- In the course of filling the set, the dot of the waiting item is moved over what the completed
item has matched, the set being like this: the loop processes the completed item, and has moved the
dots of the items in front of the waiting one. -/
inductive Advances (setting : Setting α) (goal : Nat) : ItemSet → ItemRef → ItemRef → Prop
  | next {round : Round} {item : Item} {earlier later : List Nat} {place : Nat}
      (comes : setting.Comes goal round)
      (found : round.current.items[round.place]? = some item)
      (listed : (setting.awaitersOf round.current item).toList = earlier ++ place :: later) :
      Advances setting goal
        (earlier.foldl (fun current place =>
          setting.advance current ⟨item.start, place⟩ ⟨setting.offset, round.place⟩) round.current)
        ⟨item.start, place⟩ ⟨setting.offset, round.place⟩

theorem process_eq_foldl {place awaiter : Nat} {item : Item}
    (found : current.items[place]? = some item)
    (member : awaiter ∈ setting.awaitersOf current item) :
    setting.process current place =
      (setting.awaitersOf current item).toList.foldl (fun current other =>
        setting.advance current ⟨item.start, other⟩ ⟨setting.offset, place⟩) current := by
  have completes : setting.process current place = setting.complete current place item := by
    unfold process
    rw [found]
    cases tag : item.tag with
    | dotted position =>
      simp only [awaitersOf, tag] at member
      exact absurd member (Array.not_mem_empty _)
    | rule index => simp only [tag]
    | lexeme offset => simp only [tag]
  rw [completes, complete_eq, advanceAll, Array.foldl_toList]

/-- Whenever a dot is moved, the item waits for what the completed one has matched, and what the
chart holds afterwards stays in it until the set is full. -/
theorem Advances.spec (reads : setting.Reads input) (filling : setting.Filling goal input .empty)
    (advances : setting.Advances goal current waiting completed) :
    setting.Filling goal input current ∧ completed.set = setting.offset ∧
      setting.Waiting input current waiting.set completed waiting.place ∧
      (setting.chart (setting.advance current waiting completed)).Extends
        (setting.chart (setting.fill goal).1) := by
  cases advances with
  | @next round item earlier later place comes found listed =>
    have filling' := comes.filling reads filling
    have waits : ∀ other ∈ earlier ++ place :: later, setting.Waiting input round.current
        item.start ⟨setting.offset, round.place⟩ other := by
      rw [← listed]
      exact fun other member =>
        (mem_awaitersOf reads filling' found).mp (Array.mem_toList_iff.mp member)
    rw [List.forall_mem_append, List.forall_mem_cons] at waits
    obtain ⟨first, -⟩ := foldl_advance reads filling' rfl earlier waits.1
    have waiting := waits.2.1.mono first.more
    refine ⟨first.filling, rfl, waiting, ?_⟩
    obtain ⟨position, start, symbol, held, next, covers⟩ := waiting
    obtain ⟨second, -⟩ := advance_spec reads first.filling held next covers rfl
    obtain ⟨third, -⟩ := foldl_advance reads second.filling rfl later
      fun other member => (waits.2.2 other member).mono (first.trans second).more
    -- the dots of the later items are moved in the same turn, and then the loop goes on
    have inside := (Array.getElem?_eq_some_iff.mp found).1
    have settles := (comes.settles reads filling).turn.1 _ (if_pos inside)
    have member : place ∈ setting.awaitersOf round.current item := by
      rw [← Array.mem_toList_iff, listed]
      exact List.mem_append_right _ List.mem_cons_self
    have processed := process_eq_foldl found member
    rw [listed, List.foldl_append, List.foldl_cons] at processed
    have last := settles.step reads (processed ▸ third.filling)
    rw [processed] at last
    exact third.more.trans last.more

end Setting

namespace Visitor

variable {α σ ο δ ε : Type} {visitor : Visitor σ ο δ ε} {grammar : Grammar α} {chart : Chart}
  {active : Marks}

theorem walkNode_whole {child : WalkChild} {state next : σ} {walked : Walked ο} {tag : Tag}
    {start : Nat} (held : chart.Holds child.ref tag start)
    (walks : visitor.walkNode grammar chart active child state = .ok (next, some walked))
    (whole : ∀ position, tag ≠ .dotted position) : walked.values.length = 1 := by
  have completed {node : SymbolNode} {values : List ο} {middle : σ}
      (completes : visitor.completeNode node values middle = .ok (next, some walked)) :
      walked.values.length = 1 := by
    obtain ⟨_, _, _, -, -, rfl⟩ := completeNode_inv completes
    rfl
  cases tag with
  | dotted position => exact absurd rfl (whole position)
  | lexeme offset =>
    obtain ⟨token, completes⟩ := walkNode_lexeme held walks rfl
    exact completed completes
  | rule index =>
    by_cases several : 1 < (chart.derivations child.ref).size
    · obtain ⟨_, _, _, -, rfl⟩ := walkNode_several held walks nofun several
      rfl
    · by_cases bare : chart.derivations child.ref = #[]
      · have opened := walkNode_opened held walks nofun
        rw [bare] at opened
        cases opened
      · obtain ⟨derivation, member⟩ := Array.exists_mem_of_ne_empty _ bare
        obtain ⟨middle, values, -, finished⟩ :=
          walkNode_sole held walks nofun (Chart.sole_of_mem member several)
        exact completed finished

/-- Walking nodes gives one value for every lexeme and every rule that they stand for. -/
theorem walkSequence_length {nodes children : List ItemRef}
    (splices : chart.Splices nodes children) {asked : List WalkChild}
    (refs : asked.map WalkChild.ref = nodes) {state next : σ} {values : List ο}
    (walks : walkSequence (visitor.walkNode grammar chart active) asked state =
      .ok (next, some values)) : values.length = children.length := by
  induction splices generalizing active asked state next values with
  | nil =>
    obtain rfl := List.map_eq_nil_iff.mp refs
    cases walks
    rfl
  | symbol held whole _ ih =>
    obtain ⟨child, rest, middle, walked, others, rfl, refs', first, later, rfl⟩ :=
      walkSequence_inv refs walks
    rw [List.length_append, walkNode_whole held first whole, ih refs' later, List.length_cons,
      Nat.add_comm]
  | @spliced ref position start derivation front nodes children held sole inner rest ih ih' =>
    obtain ⟨child, rest, middle, walked, others, rfl, refs', first, later, rfl⟩ :=
      walkSequence_inv refs walks
    obtain ⟨_, values, below, finished⟩ := walkNode_sole held first nofun sole
    cases finished
    rw [List.length_append, List.length_append, ih' refs' later]
    exact congrArg (· + _) (ih (Chart.refs_walkChildren grammar _ _) below)

end Visitor

namespace Grammar

variable {α : Type} {grammar : Grammar α} {input : Array String} {start : Nat}

theorem Prepared.opens {setting : Setting α} {sets : Array ItemSet}
    (prepared : grammar.Prepared start input sets setting)
    (sound : (Chart.mk sets).Sound grammar input) {current : ItemSet}
    {waiting completed : ItemRef} (advances : setting.Advances start current waiting completed) :
    ∃ position first, (setting.chart current).Holds waiting (.dotted position) first ∧
      (position.dot = 1 → ∃ opening,
        (∀ chart ∈ [setting.chart current, setting.chart (current.put grammar
            (grammar.tagBehind position) first none), ⟨sets⟩],
          chart.Opens grammar input waiting position.production first opening) ∧
        setting.advance current waiting completed = current.put grammar
          (grammar.tagBehind position) first
          (some ⟨some opening, some completed, position.production⟩)) := by
  obtain ⟨filling, here, ⟨position, first, symbol, held, next, covers⟩, more⟩ :=
    advances.spec prepared.reads prepared.filling
  obtain rfl := prepared.grammar
  refine ⟨position, first, held, fun dot => ?_⟩
  have more := more.trans prepared.more
  have indexed := filling.indexed
  obtain ⟨item, found, tag, rfl⟩ := held
  have held : (setting.chart current).Holds waiting (.dotted position) item.start :=
    ⟨item, found, tag, rfl⟩
  have moved := Setting.advance_eq_put prepared.reads.valid found tag next completed
  rw [moved] at more
  have kept := (Setting.extends_put indexed _ _ _).trans more
  obtain ⟨opening, opens⟩ := filling.sound.opens dot held
  obtain ⟨later, final⟩ := sound.opens dot (kept.holds held)
  obtain rfl := opens.opening_eq kept final
  have entered : (setting.chart (current.put setting.grammar (setting.grammar.tagBehind position)
      item.start none)).Opens setting.grammar input waiting position.production item.start
      later := by
    refine opens.between final (fun held => ?_) (fun held => ?_)
      (Setting.derivations_put_none indexed _ _ _)
    · exact (Setting.holds_put indexed).mpr (.inl held)
    · exact more.holds ((Setting.holds_put indexed).mpr ((Setting.holds_put indexed).mp held))
  rw [Setting.leftPart_first found dot opens.sole] at moved
  refine ⟨later, fun chart listed => ?_, moved⟩
  simp only [List.mem_cons, List.not_mem_nil, or_false] at listed
  rcases listed with rfl | rfl | rfl
  · exact opens
  · exact entered
  · exact final

theorem extends_replay (valid : grammar.WellFormed) (start : Nat) (input : Array String)
    {done : List Operation} (before : done <+: grammar.operations start input) :
    (Chart.replay grammar done).Extends ⟨(grammar.scan start input).sets⟩ := by
  have performs := performs_scan valid start input
  obtain ⟨rest, whole⟩ := before
  rw [← whole] at performs
  obtain ⟨fits, further⟩ := Chart.fitting_append.mp performs.fitting
  rw [← performs.result, Chart.performAll_append]
  exact ((Chart.consistent_nothing grammar).performAll fits).extends_performAll further

/-- The left part of a derivation loses no child. Whenever a parse, be it successful or not, moves a
dot behind a first symbol, the waiting item has one derivation, which refers to the item that has
matched that symbol over the same span, and to nothing else. It is the same one when the next item
has been entered, and still in the chart that the parse ends with, and what it refers to becomes the
left part. So, at every point of a parse, left parts with a dot have matched two symbols or more,
and a derivation has no left part exactly if one symbol has been matched, or none. As long as no
item on its left is ambiguous, a derivation stands for exactly one item for every symbol that has
been matched, in order, and walking it gives as many values. -/
theorem left_parts_exact {draft : Draft α} {range : IndexRange}
    (built : draft.build range = .ok grammar) (start : Nat) (input : Array String) :
    let last : Chart := ⟨(grammar.scan start input).sets⟩
    (∀ setting ∈ grammar.settings start input, ∀ current waiting completed,
      setting.Advances start current waiting completed → ∃ position first,
        (setting.chart current).Holds waiting (.dotted position) first ∧
        (position.dot = 1 → ∃ opening,
          (∀ chart ∈ [setting.chart current, setting.chart (current.put grammar
              (grammar.tagBehind position) first none), last],
            chart.Opens grammar input waiting position.production first opening) ∧
          setting.advance current waiting completed = current.put grammar
            (grammar.tagBehind position) first
            (some ⟨some opening, some completed, position.production⟩))) ∧
    (∀ done, done <+: grammar.operations start input → ∀ ref tag first derivation,
      (Chart.replay grammar done).Holds ref tag first →
      derivation ∈ (Chart.replay grammar done).derivations ref →
        (∀ left ∈ derivation.left, ∀ position begin,
          (Chart.replay grammar done).Holds left (.dotted position) begin → 2 ≤ position.dot) ∧
        (derivation.left = none ↔
          (grammar.matchedBy derivation.production tag).length ≤ 1)) ∧
    (Chart.replay grammar (grammar.operations start input) = last ∧
      ∀ forest, (grammar.parse start input).2 = .ok forest → forest.chart = last) ∧
    ∀ ref tag first derivation, last.Holds ref tag first → derivation ∈ last.derivations ref →
      (∀ before, last.Prefixes derivation before → (last.derivations before).size ≤ 1) →
      ∃ children, (∀ others, last.Splices derivation.children others ↔ others = children) ∧
        List.Forall₂ (fun child symbol => ∃ start, last.Covers grammar input child symbol start)
          children (grammar.matchedBy derivation.production tag) ∧
        children.length = (grammar.matchedBy derivation.production tag).length ∧
        ∀ {σ ο δ ε : Type} (visitor : Visitor σ ο δ ε) active state next values,
          Visitor.walkSequence (visitor.walkNode grammar last active)
            (grammar.walkChildren tag derivation) state = .ok (next, some values) →
          values.length = (grammar.matchedBy derivation.production tag).length := by
  intro last
  have valid := Draft.build_wellFormed built
  have sound : last.Sound grammar input := (scanned_scan valid start input).filled.sound
  refine ⟨fun setting listed current waiting completed advances => ?_,
    fun done before ref tag first derivation held member => ?_,
    ⟨(performs_scan valid start input).result, fun forest success => ?_⟩,
    fun ref tag first derivation held member clear => ?_⟩
  · exact ((prepared_settings valid start input).1 setting listed).opens sound advances
  · have more := extends_replay valid start input before
    have split := sound.derived (more.holds held) (more.derivations member)
    exact ⟨fun left part position begin dotted => split.left_dotted part (more.holds dotted),
      split.left_none_iff⟩
  · exact (parse_ok_iff.mp success).2.1
  · obtain ⟨children, splices, each⟩ :=
      (sound.derived held member).splices sound fun further => clear _ further
    refine ⟨children, fun others => ⟨fun again => again.unique splices, ?_⟩, each,
      each.length_eq, ?_⟩
    · rintro rfl
      exact splices
    · intro σ ο δ ε visitor active state next values walks
      rw [← each.length_eq]
      exact Visitor.walkSequence_length splices (Chart.refs_walkChildren grammar _ _) walks

/-- Behind a sum, the plus is matched next, and the item in between is left out. The sum of two then
stands for three items, one of them being found further on the left. -/
theorem left_parts_sums :
    let grammar := Draft.sums.number .bits8
    let last : Chart := ⟨(grammar.scan 0 #["x", "+", "x"]).sets⟩
    (∃ setting ∈ grammar.settings 0 #["x", "+", "x"],
      setting.Advances 0 (setting.seed 0) ⟨1, 2⟩ ⟨2, 0⟩ ∧
      setting.advance (setting.seed 0) ⟨1, 2⟩ ⟨2, 0⟩ = (setting.seed 0).put grammar
        (.dotted ⟨0, 2⟩) 0 (some ⟨some ⟨1, 1⟩, some ⟨2, 0⟩, 0⟩)) ∧
    ∃ children, last.Splices [⟨2, 1⟩, ⟨3, 1⟩] children ∧ children.length = 3 := by
  intro grammar last
  obtain ⟨calls, -, -, spliced⟩ := left_parts_exact Draft.build_sums 0 #["x", "+", "x"]
  constructor
  · have checked : (grammar.settings 0 #["x", "+", "x"])[2]?.bind (fun setting =>
        (setting.seed 0).items[0]?.map fun item => (setting.offset, item.start,
          (setting.awaitersOf (setting.seed 0) item).toList,
          ((setting.chart (setting.seed 0)).item? ⟨1, 2⟩).map fun item =>
            (item.tag, item.start))) = some (2, 1, [2], some (.dotted ⟨0, 1⟩, 0)) := by
      decide +kernel
    obtain ⟨setting, at', checked⟩ := Option.bind_eq_some_iff.mp checked
    obtain ⟨item, found, checked⟩ := Option.map_eq_some_iff.mp checked
    simp only [Prod.mk.injEq, Option.map_eq_some_iff] at checked
    obtain ⟨here, began, listed, other, found', tag, first⟩ := checked
    have member := List.mem_of_getElem? at'
    have comes : setting.Comes 0 (setting.firstRound 0) := Relation.ReflTransGen.refl
    have awaiting : (setting.awaitersOf (setting.firstRound 0).current item).toList =
        [] ++ 2 :: [] := listed
    have advances : setting.Advances 0 (setting.seed 0) ⟨item.start, 2⟩ ⟨setting.offset, 0⟩ :=
      .next comes found awaiting
    rw [began, here] at advances
    obtain ⟨position, begin, held, opens⟩ := calls setting member _ _ _ advances
    obtain ⟨tags, rfl⟩ := held.unique ⟨other, found', tag, first⟩
    cases tags
    obtain ⟨opening, each, moved⟩ := opens rfl
    have opened := (each last (.tail _ (.tail _ (.head _)))).sole
    have sole : last.derivations ⟨1, 2⟩ = #[⟨none, some ⟨1, 1⟩, 0⟩] := by decide +kernel
    obtain rfl : ItemRef.mk 1 1 = opening := by simpa using sole.symm.trans opened
    exact ⟨setting, member, advances, moved⟩
  · have few : ∀ ref ∈ last.refs, (last.derivations ref).size ≤ 1 := by decide +kernel
    have whole : (last.item? ⟨3, 2⟩).map (fun item => (item.tag, item.start)) =
        some (.rule 0, 0) := by decide +kernel
    obtain ⟨item, found, parts⟩ := Option.map_eq_some_iff.mp whole
    simp only [Prod.mk.injEq] at parts
    obtain ⟨tag, first⟩ := parts
    have member : (⟨some ⟨2, 1⟩, some ⟨3, 1⟩, 0⟩ : Derivation) ∈ last.derivations ⟨3, 2⟩ := by
      decide +kernel
    obtain ⟨children, splices, -, length, -⟩ := spliced ⟨3, 2⟩ (.rule 0) 0 _
      ⟨item, found, tag, first⟩ member fun before _ => Chart.size_le_of_refs few before
    exact ⟨children, (splices children).mpr rfl, length⟩

end Grammar

end ChartParser
