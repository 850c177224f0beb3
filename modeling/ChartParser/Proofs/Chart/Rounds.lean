import ChartParser.Proofs.Chart.Scan
import Mathlib.Logic.Relation

/-! The loop that fills a set, turn by turn, and without the limits that keep its passes within the
capacity of the set. These limits are never met, and so the loop ends with the set that is filled,
for every set of a parse. -/
namespace ChartParser

open Relation

/-- Where the loop that fills a set stands: the set, the number of items that it had when the pass
began, the place that comes next, and the number of passes that are over. -/
structure Round where
  current : ItemSet
  before : Nat
  place : Nat
  passes : Nat

namespace Setting

variable {α : Type} (setting : Setting α)

/-- One turn of the loop. The next item is processed; or if there is none, the pass is over, and
another one begins unless this one has added nothing. -/
def turn (round : Round) : Option Round :=
  if round.place < round.current.items.size then
    some { round with
      current := setting.process round.current round.place
      place := round.place + 1 }
  else if round.current.items.size = round.before then none
  else some ⟨round.current, round.current.items.size, 0, round.passes + 1⟩

def firstRound (start : Nat) : Round :=
  ⟨setting.seed start, (setting.seed start).items.size, 0, 0⟩

def Comes (start : Nat) (round : Round) : Prop :=
  ReflTransGen (fun round next => setting.turn round = some next) (setting.firstRound start) round

/-- From this round, the loop ends with a set and after so many passes. -/
inductive Settles : Round → ItemSet × Nat → Prop
  | done {round : Round} (turns : setting.turn round = none) :
      Settles round (round.current, round.passes + 1)
  | next {round next : Round} {ending : ItemSet × Nat} (turns : setting.turn round = some next)
      (rest : Settles next ending) : Settles round ending

variable {setting} {goal : Nat} {input : Array String} {current : ItemSet}

theorem step_turn (reads : setting.Reads input) {round next : Round}
    (filling : setting.Filling goal input round.current) (turns : setting.turn round = some next) :
    setting.Step goal input round.current next.current := by
  unfold turn at turns
  split at turns
  · rename_i inside
    cases turns
    exact (process_spec reads filling inside).1
  · split at turns
    · cases turns
    · cases turns
      exact .refl filling

theorem Comes.filling (reads : setting.Reads input) (filling : setting.Filling goal input .empty)
    {round : Round} (comes : setting.Comes goal round) :
    setting.Filling goal input round.current := by
  induction comes with
  | refl => exact (seed_spec reads filling).1.filling
  | tail _ turns ih => exact (step_turn reads ih turns).filling

theorem settles_sweep (reads : setting.Reads input) (filling : setting.Filling goal input current)
    (before place passes : Nat) {ending : ItemSet × Nat}
    (rest : ∀ last, (setting.sweep setting.capacity current place).items.size ≤ last →
      setting.Settles ⟨setting.sweep setting.capacity current place, before, last, passes⟩ ending) :
    setting.Settles ⟨current, before, place, passes⟩ ending := by
  fun_induction sweep setting setting.capacity current place with
  | case1 current place guard ih =>
    have turns : setting.turn ⟨current, before, place, passes⟩ =
        some ⟨setting.process current place, before, place + 1, passes⟩ := if_pos guard.1
    exact .next turns (ih (process_spec reads filling guard.1).1.filling rest)
  | case2 current place guard =>
    have fits := filling.size_le
    exact rest place (by omega)

/-- The passes end as they do with a limit. -/
theorem settles_saturate (reads : setting.Reads input)
    (filling : setting.Filling goal input current) (passes : Nat) :
    setting.Settles ⟨current, current.items.size, 0, passes⟩
      (setting.saturate setting.capacity current passes) := by
  fun_induction saturate setting setting.capacity current passes with
  | case1 current passes before swept grown ih =>
    have swept' := (sweep_spec reads filling 0).1
    refine settles_sweep reads filling _ 0 passes fun last past => ?_
    have turns : setting.turn ⟨swept, before, last, passes⟩ =
        some ⟨swept, swept.items.size, 0, passes + 1⟩ := by
      rw [turn, if_neg (Nat.not_lt.mpr past), if_neg (Nat.ne_of_gt grown.1)]
    exact .next turns (ih swept'.filling)
  | case2 current passes before swept guard =>
    have swept' := (sweep_spec reads filling 0).1
    have fits := swept'.filling.size_le
    have more := swept'.size_le
    refine settles_sweep reads filling _ 0 passes fun last past => ?_
    have turns : setting.turn ⟨swept, before, last, passes⟩ = none := by
      have same : swept.items.size = before := by
        simp only [before, swept] at guard ⊢
        omega
      rw [turn, if_neg (Nat.not_lt.mpr past), if_pos same]
    exact .done turns

theorem settles_fill (reads : setting.Reads input) (filling : setting.Filling goal input .empty) :
    setting.Settles (setting.firstRound goal) (setting.fill goal) :=
  settles_saturate reads (seed_spec reads filling).1.filling 0

theorem Settles.turn {round : Round} {ending : ItemSet × Nat}
    (settles : setting.Settles round ending) :
    (∀ next, setting.turn round = some next → setting.Settles next ending) ∧
      (setting.turn round = none → ending.1 = round.current) := by
  cases settles with
  | done ends =>
    refine ⟨fun next turns => ?_, fun _ => rfl⟩
    cases ends.symm.trans turns
  | next turns rest =>
    refine ⟨fun next turns' => ?_, fun ends => ?_⟩
    · obtain rfl := Option.some.inj (turns.symm.trans turns')
      exact rest
    · cases turns.symm.trans ends

theorem Comes.settles (reads : setting.Reads input) (filling : setting.Filling goal input .empty)
    {round : Round} (comes : setting.Comes goal round) :
    setting.Settles round (setting.fill goal) := by
  induction comes with
  | refl => exact settles_fill reads filling
  | tail _ turns ih => exact ih.turn.1 _ turns

theorem Settles.step (reads : setting.Reads input) {round : Round} {ending : ItemSet × Nat}
    (settles : setting.Settles round ending) (filling : setting.Filling goal input round.current) :
    setting.Step goal input round.current ending.1 := by
  induction settles with
  | done => exact .refl filling
  | next turns _ ih =>
    have first := step_turn reads filling turns
    exact first.trans (ih first.filling)

end Setting

namespace Grammar

variable {α : Type} (grammar : Grammar α) (start : Nat)

/-- The settings of the sets that are filled while lexemes are read, up to the first lexeme that
nothing waits for. -/
def settingsFrom : Scan → List String → List (Setting α)
  | _, [] => []
  | scan, lexeme :: rest =>
    match scan.stuck with
    | some _ => []
    | none =>
      ⟨grammar, scan.sets, some lexeme⟩ ::
        settingsFrom (grammar.scanLexeme start scan lexeme) rest

/-- The settings of all sets that a parse fills, be it successful or not. -/
def settings (input : Array String) : List (Setting α) :=
  ⟨grammar, #[], none⟩ :: grammar.settingsFrom start (grammar.scanNothing start) input.toList

structure Prepared (input : Array String) (sets : Array ItemSet) (setting : Setting α) : Prop where
  grammar : setting.grammar = grammar
  reads : setting.Reads input
  filling : setting.Filling start input .empty
  finished : ∀ place < setting.offset, setting.finished[place]? = sets[place]?
  filled : sets[setting.offset]? = some (setting.fill start).1

variable {grammar start} {input : Array String}

theorem Prepared.more {setting : Setting α} {sets : Array ItemSet}
    (prepared : grammar.Prepared start input sets setting) :
    (setting.chart (setting.fill start).1).Extends ⟨sets⟩ := by
  have kept {offset : Nat} {set : ItemSet}
      (found : (setting.chart (setting.fill start).1).sets[offset]? = some set) :
      sets[offset]? = some set := by
    rw [Setting.sets_chart] at found
    split at found
    · rename_i here
      rw [here, prepared.filled, found]
    · rw [← prepared.finished offset (Array.getElem?_eq_some_iff.mp found).1, found]
  constructor
  · intro ref tag first held
    obtain ⟨set, found, here⟩ := Chart.holds_iff.mp held
    exact Chart.holds_iff.mpr ⟨set, kept found, here⟩
  · intro ref derivation member
    obtain ⟨tag, first, held⟩ := Chart.exists_holds member
    obtain ⟨set, found, -⟩ := Chart.holds_iff.mp held
    rw [Chart.derivations_eq found] at member
    rwa [Chart.derivations_eq (kept found)]

theorem foldl_scanLexeme_of_stuck {scan : Scan} {offset : Nat} (stuck : scan.stuck = some offset)
    (lexemes : List String) : lexemes.foldl (grammar.scanLexeme start) scan = scan := by
  induction lexemes with
  | nil => rfl
  | cons lexeme rest ih =>
    obtain ⟨sets, events, _⟩ := scan
    obtain rfl := stuck
    exact ih

variable (grammar start) in
theorem sets_scanLexeme {scan : Scan} (going : scan.stuck = none) (lexeme : String) :
    (grammar.scanLexeme start scan lexeme).sets =
      scan.sets.push (Setting.fill ⟨grammar, scan.sets, some lexeme⟩ start).1 := by
  obtain ⟨sets, events, _⟩ := scan
  obtain rfl := going
  simp only [scanLexeme, fillNext]
  exact (apply_ite Scan.sets _ _ _).trans (ite_self _)

theorem finished_foldl_scanLexeme (lexemes : List String) (scan : Scan) {place : Nat}
    (inside : place < scan.sets.size) :
    (lexemes.foldl (grammar.scanLexeme start) scan).sets[place]? = scan.sets[place]? := by
  induction lexemes generalizing scan with
  | nil => rfl
  | cons lexeme rest ih =>
    cases stuck : scan.stuck with
    | some offset => rw [foldl_scanLexeme_of_stuck stuck]
    | none =>
      have sets := sets_scanLexeme grammar start stuck lexeme
      rw [List.foldl_cons, ih _ (by simp only [sets, Array.size_push]; omega), sets,
        Array.getElem?_push_lt inside, Array.getElem?_eq_getElem inside]

/-- A set that is filled behind finished ones is found in what becomes of the chart, and so are
these. -/
private theorem prepared_of_sets {setting : Setting α} {sets : Array ItemSet}
    (same : setting.grammar = grammar) (reads : setting.Reads input)
    (filling : setting.Filling start input .empty)
    (kept : ∀ place < setting.offset + 1,
      (setting.finished.push (setting.fill start).1)[place]? = sets[place]?) :
    grammar.Prepared start input sets setting where
  grammar := same
  reads := reads
  filling := filling
  finished place inside := by
    rw [← kept place (Nat.lt_succ_of_lt inside), Array.getElem?_push_lt inside,
      Array.getElem?_eq_getElem inside]
  filled := by
    rw [← kept setting.offset (Nat.lt_succ_self _)]
    exact Setting.sets_chart_offset setting _

theorem prepared_from (valid : grammar.WellFormed) (read rest : List String)
    (whole : input.toList = read ++ rest) {scan : Scan}
    (scanned : grammar.Scanned start input read.length scan) :
    let sets := (rest.foldl (grammar.scanLexeme start) scan).sets
    (∀ setting ∈ grammar.settingsFrom start scan rest, grammar.Prepared start input sets setting) ∧
      List.range scan.sets.size ++
        (grammar.settingsFrom start scan rest).map Setting.offset = List.range sets.size := by
  induction rest generalizing read scan with
  | nil => exact ⟨nofun, List.append_nil _⟩
  | cons lexeme rest ih =>
    cases stuck : scan.stuck with
    | some offset =>
      rw [foldl_scanLexeme_of_stuck stuck, settingsFrom, stuck]
      exact ⟨nofun, List.append_nil _⟩
    | none =>
      have here : input[read.length]? = some lexeme := by
        rw [← Array.getElem?_toList, whole]
        simp
      have reads := scanned.reads valid here stuck
      have next := scanned_lexeme valid here scanned
      have sets := sets_scanLexeme grammar start stuck lexeme
      obtain ⟨prepared, offsets⟩ := ih (read ++ [lexeme]) (by simp [whole])
        (by rwa [List.length_append])
      simp only [settingsFrom, stuck, List.map_cons]
      constructor
      · intro setting listed
        rcases List.mem_cons.mp listed with rfl | listed
        · have filled := scanned.filled
          refine prepared_of_sets rfl reads (.empty filled.sound filled.rooted filled.expecting) ?_
          intro place inside
          rw [List.foldl_cons, finished_foldl_scanLexeme, sets]
          rwa [sets, Array.size_push]
        · exact prepared setting listed
      · rw [sets, Array.size_push, List.range_succ, List.append_assoc] at offsets
        exact offsets

/-- A parse fills one set after the other, each in its setting. -/
theorem prepared_settings (valid : grammar.WellFormed) (start : Nat) (input : Array String) :
    (∀ setting ∈ grammar.settings start input,
      grammar.Prepared start input (grammar.scan start input).sets setting) ∧
    (grammar.settings start input).map Setting.offset =
      List.range (grammar.scan start input).sets.size := by
  obtain ⟨prepared, offsets⟩ :=
    prepared_from valid [] input.toList rfl (scanned_nothing valid start input)
  rw [scan, ← Array.foldl_toList]
  refine ⟨fun setting listed => ?_, offsets⟩
  rcases List.mem_cons.mp listed with rfl | listed
  · obtain ⟨sound, rooted, expecting⟩ := filling_nothing grammar start input
    refine prepared_of_sets rfl (reads_nothing valid input) (.empty sound rooted expecting) ?_
    intro place inside
    exact (finished_foldl_scanLexeme input.toList (grammar.scanNothing start) inside).symm
  · exact prepared setting listed

end Grammar

end ChartParser
