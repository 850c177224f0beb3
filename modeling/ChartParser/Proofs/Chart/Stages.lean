import ChartParser.Proofs.Chart.Rounds
import ChartParser.Proofs.Chart.Whole

/-! The parse as one loop on the whole chart, with nothing that keeps it from writing to sets that
are finished. Its turns are those of the loops that fill one set after the other. -/
namespace ChartParser

open Relation

/-- Where the loop stands: the chart, the number of items that its last set had when the pass began,
and the place there that comes next. -/
structure Stage where
  chart : Chart
  before : Nat
  place : Nat

def Stage.last (stage : Stage) : Nat := stage.chart.sets.size - 1

def Stage.size (stage : Stage) : Nat := (stage.chart.setAt stage.last).items.size

def Stage.begin (chart : Chart) : Stage :=
  ⟨chart, (chart.setAt (chart.sets.size - 1)).items.size, 0⟩

namespace Grammar

variable {α : Type} (grammar : Grammar α) (start : Nat) (input : Array String)

/-- The first set is opened, and the rule to be parsed is predicted in it. -/
def outset : Stage := .begin ((Chart.mk #[.empty]).predict grammar 0 start)

/-- One turn of the loop. The next item of the last set is processed; or if there is none, another
pass over the set begins, unless this one has added nothing. When the set is full, the loop ends if
nothing waits for its lexeme or if there are no more lexemes, and otherwise the next lexeme is
entered into a new set. -/
def proceed (stage : Stage) : Option Stage :=
  if stage.place < stage.size then
    some { stage with
      chart := stage.chart.process grammar input ⟨stage.last, stage.place⟩
      place := stage.place + 1 }
  else if stage.size ≠ stage.before then some (.begin stage.chart)
  else if stage.last ≠ 0 ∧ stage.size = 1 then none
  else if stage.last < input.size then
    some (.begin ((stage.chart.perform grammar .openSet).perform grammar
      (.enter (.lexeme stage.last) stage.last (stage.last + 1))))
  else none

def Goes (stage : Stage) : Prop :=
  ReflTransGen (fun stage next => grammar.proceed input stage = some next)
    (grammar.outset start) stage

end Grammar

namespace Setting

variable {α : Type} {setting : Setting α} {goal : Nat} {input : Array String}

section Loop

def stage (setting : Setting α) (round : Round) : Stage :=
  ⟨setting.chart round.current, round.before, round.place⟩

variable {round next : Round}

theorem last_stage (setting : Setting α) (round : Round) :
    (setting.stage round).last = setting.offset := by
  simp [Stage.last, stage, chart, offset]

theorem setAt_last (setting : Setting α) (round : Round) :
    (setting.stage round).chart.setAt (setting.stage round).last = round.current := by
  rw [last_stage, stage, setAt_chart, setAt, if_pos rfl]

theorem size_stage (setting : Setting α) (round : Round) :
    (setting.stage round).size = round.current.items.size :=
  congrArg (·.items.size) (setAt_last setting round)

theorem begin_chart (setting : Setting α) (current : ItemSet) (passes : Nat) :
    Stage.begin (setting.chart current) =
      setting.stage ⟨current, current.items.size, 0, passes⟩ :=
  congrArg (Stage.mk _ · 0) (size_stage setting ⟨current, current.items.size, 0, passes⟩)

/-- The setting of the set behind the next lexeme, `current` being the last full set. -/
def behind (setting : Setting α) (current : ItemSet) (lexeme : String) : Setting α :=
  ⟨setting.grammar, setting.finished.push current, some lexeme⟩

theorem begin_lexeme (setting : Setting α) (current : ItemSet) (lexeme : String) (goal : Nat) :
    Stage.begin (((setting.chart current).perform setting.grammar .openSet).perform setting.grammar
        (.enter (.lexeme setting.offset) setting.offset (setting.offset + 1))) =
      (setting.behind current lexeme).stage ((setting.behind current lexeme).firstRound goal) := by
  have next : (setting.behind current lexeme).offset = setting.offset + 1 :=
    Array.size_push current
  have entered := perform_enter (setting.behind current lexeme) .empty (.lexeme setting.offset)
    setting.offset
  have seeded : (setting.behind current lexeme).seed goal =
      (ItemSet.empty.insert setting.grammar (.lexeme setting.offset) setting.offset).2 := by
    change (ItemSet.empty.insert setting.grammar
      (.lexeme ((setting.behind current lexeme).offset - 1))
      ((setting.behind current lexeme).offset - 1)).2 = _
    rw [next, Nat.add_sub_cancel]
  rw [next] at entered
  rw [firstRound, seeded, ← begin_chart]
  exact congrArg Stage.begin entered

/-- As long as the set is not full, a turn of the loop is one of filling the set. -/
theorem proceed_turn (reads : setting.Reads input)
    (filling : setting.Filling goal input round.current) (turns : setting.turn round = some next) :
    setting.grammar.proceed input (setting.stage round) = some (setting.stage next) := by
  unfold turn at turns
  unfold Grammar.proceed
  rw [size_stage, last_stage]
  change (if round.place < round.current.items.size then _
    else if round.current.items.size ≠ round.before then _ else _) = _
  split at turns
  · rename_i inside
    obtain rfl := Option.some.inj turns
    rw [if_pos inside]
    exact congrArg (some ∘ (Stage.mk · round.before (round.place + 1)))
      (process_chart reads filling round.place)
  · rename_i outside
    split at turns
    · cases turns
    · rename_i grown
      obtain rfl := Option.some.inj turns
      rw [if_neg outside, if_pos grown]
      exact congrArg some (begin_chart setting round.current _)

/-- When the set is full, the loop goes on with the next lexeme, if there is one and the last one
was of use. -/
theorem proceed_full (goal : Nat) (input : Array String) (full : setting.turn round = none) :
    setting.grammar.proceed input (setting.stage round) =
      if setting.offset ≠ 0 ∧ round.current.items.size = 1 then none
      else input[setting.offset]?.map fun lexeme =>
        (setting.behind round.current lexeme).stage
          ((setting.behind round.current lexeme).firstRound goal) := by
  unfold turn at full
  unfold Grammar.proceed
  rw [size_stage, last_stage]
  change (if round.place < round.current.items.size then _
    else if round.current.items.size ≠ round.before then _ else _) = _
  split at full
  · cases full
  · rename_i outside
    split at full
    · rename_i same
      rw [if_neg outside, if_neg (not_not.mpr same)]
      congr 1
      split
      · rename_i inside
        rw [Array.getElem?_eq_getElem inside, Option.map_some]
        exact congrArg some (begin_lexeme setting round.current input[setting.offset] goal)
      · rename_i outside
        rw [Array.getElem?_eq_none (Nat.not_lt.mp outside)]
        rfl
    · cases full

theorem Settles.exists_last {ending : ItemSet × Nat} (settles : setting.Settles round ending) :
    ∃ last, ReflTransGen (fun round next => setting.turn round = some next) round last ∧
      setting.turn last = none := by
  induction settles with
  | done turns => exact ⟨_, .refl, turns⟩
  | next turns _ ih =>
    obtain ⟨last, reached, ends⟩ := ih
    exact ⟨last, .head turns reached, ends⟩

end Loop

end Setting

namespace Grammar

variable {α : Type} {grammar : Grammar α} {start : Nat} {input : Array String}

theorem outset_eq (grammar : Grammar α) (start : Nat) :
    let first : Setting α := ⟨grammar, #[], none⟩
    grammar.outset start = first.stage (first.firstRound start) := by
  intro first
  have predicted : (Chart.mk #[.empty]).predict grammar 0 start =
      first.chart (first.seed start) := Setting.predict_chart first .empty start
  rw [outset, predicted, Setting.begin_chart first _ 0]
  rfl

section Run

variable {sets : Array ItemSet} {setting next : Setting α} {stage : Stage}

theorem Prepared.sets_full (prepared : grammar.Prepared start input sets setting)
    {first : Array ItemSet} (size : first.size = setting.offset + 1)
    (same : ∀ place ≤ setting.offset, first[place]? = sets[place]?) :
    (setting.chart (setting.fill start).1).sets = first := by
  refine Array.ext_getElem? fun place => ?_
  rw [Setting.sets_chart]
  split
  · rename_i here
    rw [same place (by omega), here, prepared.filled]
  · by_cases before : place < setting.offset
    · rw [same place (by omega), prepared.finished _ before]
    · rw [Array.getElem?_eq_none (Nat.not_lt.mp before), Array.getElem?_eq_none (by omega)]

theorem Prepared.behind (prepared : grammar.Prepared start input sets setting)
    (later : grammar.Prepared start input sets next) (succ : next.offset = setting.offset + 1) :
    ∃ lexeme, input[setting.offset]? = some lexeme ∧
      next = setting.behind (setting.fill start).1 lexeme := by
  have inside : setting.offset < input.size := by
    have inside := later.reads.inside
    omega
  have read := later.reads.behind succ
  have finished : setting.finished.push (setting.fill start).1 = next.finished :=
    prepared.sets_full succ fun place _ => later.finished place (by omega)
  refine ⟨input[setting.offset], Array.getElem?_eq_getElem inside, ?_⟩
  rw [Setting.behind, finished, prepared.grammar, ← later.grammar,
    ← Array.getElem?_eq_getElem inside, ← read]

variable (valid : grammar.WellFormed)
include valid

theorem prepared_of_mem (listed : setting ∈ grammar.settings start input) :
    grammar.Prepared start input (grammar.scan start input).sets setting :=
  (prepared_settings valid start input).1 setting listed

theorem exists_setting (start : Nat) (input : Array String) {offset : Nat}
    (inside : offset < (grammar.scan start input).sets.size) :
    ∃ setting ∈ grammar.settings start input, setting.offset = offset := by
  have listed := List.mem_range.mpr inside
  rw [← (prepared_settings valid start input).2, List.mem_map] at listed
  exact listed

/-- A full set is the last one of a parse if nothing waited for its lexeme, or if the input ends
there, and only then. -/
theorem Prepared.last_iff
    (prepared : grammar.Prepared start input (grammar.scan start input).sets setting) :
    (setting.offset ≠ 0 ∧ (setting.fill start).1.items.size = 1) ∨ input.size ≤ setting.offset ↔
      setting.offset + 1 = (grammar.scan start input).sets.size := by
  have scanned := scanned_scan valid start input
  have here := prepared.filled
  have inside := (Array.getElem?_eq_some_iff.mp here).1
  have used {offset : Nat} (after : setting.offset = offset + 1)
      (going : (grammar.scan start input).stuck ≠ some offset) :
      (setting.fill start).1.items.size ≠ 1 := scanned.used (after ▸ here) going
  cases stuck : (grammar.scan start input).stuck with
  | none =>
    have size := scanned.size stuck
    constructor
    · rintro (⟨first, single⟩ | ended)
      · obtain ⟨offset, after⟩ := Nat.exists_eq_succ_of_ne_zero first
        exact absurd single (used after (by simp [stuck]))
      · omega
    · intro last
      right
      omega
  | some lexeme =>
    obtain ⟨read, set, found, size, single⟩ := scanned.stuck stuck
    constructor
    · rintro (⟨first, alone⟩ | ended)
      · obtain ⟨offset, after⟩ := Nat.exists_eq_succ_of_ne_zero first
        by_contra further
        refine used after ?_ alone
        rw [stuck]
        rintro ⟨⟩
        omega
      · omega
    · intro last
      have after : setting.offset = lexeme + 1 := by omega
      rw [after, found] at here
      obtain rfl := Option.some.inj here
      exact .inl ⟨by omega, single⟩

/-- When a set is full, the loop ends if it is the last one of the parse, and otherwise it begins
the next one. -/
theorem proceed_full {round : Round} (listed : setting ∈ grammar.settings start input)
    (ends : setting.turn round = none) (full : round.current = (setting.fill start).1) :
    (setting.offset + 1 = (grammar.scan start input).sets.size ∧
      grammar.proceed input (setting.stage round) = none) ∨
    ∃ next ∈ grammar.settings start input, next.offset = setting.offset + 1 ∧
      grammar.proceed input (setting.stage round) =
        some (next.stage (next.firstRound start)) := by
  have prepared := prepared_of_mem valid listed
  have proceeds := Setting.proceed_full start input ends
  rw [full, prepared.grammar] at proceeds
  rw [proceeds]
  by_cases last : setting.offset + 1 = (grammar.scan start input).sets.size
  · refine .inl ⟨last, ?_⟩
    rcases (prepared.last_iff valid).mpr last with useless | ended
    · rw [if_pos useless]
    · rw [Array.getElem?_eq_none ended]
      exact ite_self _
  · have here := (Array.getElem?_eq_some_iff.mp prepared.filled).1
    obtain ⟨next, listed', after⟩ := exists_setting valid start input
      (show setting.offset + 1 < _ by omega)
    obtain ⟨lexeme, read, rfl⟩ := prepared.behind (prepared_of_mem valid listed') after
    rw [← prepared.last_iff valid, not_or] at last
    refine .inr ⟨_, listed', after, ?_⟩
    rw [if_neg last.1, read, Option.map_some]

/-- The loop is always at a round of filling one of the sets of the parse. -/
theorem Goes.staged (goes : grammar.Goes start input stage) :
    ∃ setting ∈ grammar.settings start input, ∃ round, setting.Comes start round ∧
      stage = setting.stage round := by
  induction goes with
  | refl => exact ⟨_, List.mem_cons_self, _, .refl, outset_eq grammar start⟩
  | tail _ proceeds ih =>
    obtain ⟨setting, listed, round, comes, rfl⟩ := ih
    have prepared := prepared_of_mem valid listed
    cases turns : setting.turn round with
    | some next =>
      have filling := comes.filling prepared.reads prepared.filling
      rw [← prepared.grammar, Setting.proceed_turn prepared.reads filling turns] at proceeds
      exact ⟨setting, listed, next, comes.tail turns, (Option.some.inj proceeds).symm⟩
    | none =>
      have full := (comes.settles prepared.reads prepared.filling).turn.2 turns
      rcases proceed_full valid listed turns full.symm with ⟨-, ends⟩ | ⟨next, listed', -, begins⟩
      · cases ends.symm.trans proceeds
      · exact ⟨next, listed', _, .refl, Option.some.inj (proceeds.symm.trans begins)⟩

theorem Goes.turns {round last : Round} (listed : setting ∈ grammar.settings start input)
    (comes : setting.Comes start round)
    (reached : ReflTransGen (fun round next => setting.turn round = some next) round last)
    (goes : grammar.Goes start input (setting.stage round)) :
    grammar.Goes start input (setting.stage last) := by
  have prepared := prepared_of_mem valid listed
  induction reached with
  | refl => exact goes
  | tail reached turns ih =>
    have filling := Setting.Comes.filling prepared.reads prepared.filling (comes.trans reached)
    have proceeds := Setting.proceed_turn prepared.reads filling turns
    rw [prepared.grammar] at proceeds
    exact ih.tail proceeds

/-- From the first round of a set, the loop gets to its last round, where the set is full. -/
theorem Goes.exists_full (listed : setting ∈ grammar.settings start input)
    (goes : grammar.Goes start input (setting.stage (setting.firstRound start))) :
    ∃ last, setting.turn last = none ∧ last.current = (setting.fill start).1 ∧
      grammar.Goes start input (setting.stage last) := by
  have prepared := prepared_of_mem valid listed
  obtain ⟨last, reached, ends⟩ :=
    (Setting.settles_fill prepared.reads prepared.filling).exists_last
  have full := (Setting.Comes.settles prepared.reads prepared.filling reached).turn.2 ends
  exact ⟨last, ends, full.symm, goes.turns valid listed .refl reached⟩

theorem exists_begun {offset : Nat} (inside : offset < (grammar.scan start input).sets.size) :
    ∃ setting ∈ grammar.settings start input, setting.offset = offset ∧
      grammar.Goes start input (setting.stage (setting.firstRound start)) := by
  induction offset with
  | zero =>
    refine ⟨_, List.mem_cons_self, rfl, ?_⟩
    rw [Goes, ← outset_eq]
  | succ offset ih =>
    obtain ⟨setting, listed, rfl, goes⟩ := ih (by omega)
    obtain ⟨last, ends, full, goes⟩ := goes.exists_full valid listed
    rcases proceed_full valid listed ends full with ⟨last, -⟩ | ⟨next, listed', after, begins⟩
    · omega
    · exact ⟨next, listed', after, goes.tail begins⟩

theorem Goes.final (goes : grammar.Goes start input stage) {offset : Nat}
    (earlier : offset + 1 < stage.chart.sets.size) :
    stage.chart.sets[offset]? = (grammar.scan start input).sets[offset]? := by
  obtain ⟨setting, listed, round, -, rfl⟩ := goes.staged valid
  have before : offset < setting.offset := by
    simp only [Setting.stage, Setting.chart, Array.size_push] at earlier
    exact Nat.lt_of_succ_lt_succ earlier
  rw [Setting.stage, Setting.sets_chart, if_neg (Nat.ne_of_lt before),
    (prepared_of_mem valid listed).finished _ before]

theorem exists_last : ∃ last, grammar.Goes start input last ∧ grammar.proceed input last = none ∧
    last.chart.sets = (grammar.scan start input).sets := by
  have first : grammar.Prepared start input _ _ := prepared_of_mem valid List.mem_cons_self
  have some := (Array.getElem?_eq_some_iff.mp first.filled).1
  obtain ⟨setting, listed, here, goes⟩ := exists_begun valid (Nat.sub_one_lt_of_lt some)
  obtain ⟨last, ends, full, goes⟩ := goes.exists_full valid listed
  refine ⟨_, goes, ?_, ?_⟩
  · rcases proceed_full valid listed ends full with ⟨-, ends⟩ | ⟨next, listed', after, -⟩
    · exact ends
    · have there := (Array.getElem?_eq_some_iff.mp (prepared_of_mem valid listed').filled).1
      omega
  · rw [Setting.stage, full]
    exact (prepared_of_mem valid listed).sets_full (by omega) fun _ _ => rfl

end Run

end Grammar

end ChartParser
