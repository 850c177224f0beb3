import ChartParser.Parse
import ChartParser.Proofs.Chart.Saturate

namespace ChartParser

structure Chart.Filled {α : Type} (grammar : Grammar α) (start : Nat) (input : Array String)
    (chart : Chart) : Prop where
  sound : chart.Sound grammar input
  rooted : chart.Rooted grammar
  expecting : chart.Expecting grammar start input
  begun : chart.Predicted grammar start 0
  handled : ∀ {ref tag first}, chart.Holds ref tag first → chart.Handled grammar input ref
  lexemes : ∀ {offset}, offset + 1 < chart.sets.size →
    ∃ ref, ref.set = offset + 1 ∧ chart.Holds ref (.lexeme offset) offset

variable {α : Type} {grammar : Grammar α} {input : Array String}

private theorem Setting.filled_fill {setting : Setting α} (reads : setting.Reads input)
    (start : Nat) (sound : (Chart.mk setting.finished).Sound setting.grammar input)
    (rooted : (Chart.mk setting.finished).Rooted setting.grammar)
    (expecting : (Chart.mk setting.finished).Expecting setting.grammar start input)
    (begun : setting.offset ≠ 0 → (Chart.mk setting.finished).Predicted setting.grammar start 0)
    (handled : ∀ {ref tag first}, (Chart.mk setting.finished).Holds ref tag first →
      (Chart.mk setting.finished).Handled setting.grammar input ref)
    (lexemes : ∀ {offset}, offset + 1 < setting.offset → ∃ ref, ref.set = offset + 1 ∧
      (Chart.mk setting.finished).Holds ref (.lexeme offset) offset) :
    (setting.chart (setting.fill start).1).Filled setting.grammar start input := by
  have filling := Setting.Filling.empty sound rooted expecting
  obtain ⟨seeded, first, lexeme⟩ := seed_spec reads filling
  obtain ⟨step, complete⟩ := saturate_spec reads seeded.filling 0
  have earlier {offset : Nat} (before : offset < setting.offset) :=
    same_finished setting (setting.fill start).1 before
  refine ⟨step.filling.sound, step.filling.rooted, step.filling.expecting, ?_, ?_, ?_⟩
  · by_cases none : setting.offset = 0
    · exact (first none).mono step.more
    · exact (begun none).mono (earlier (Nat.pos_of_ne_zero none)).more
  · intro ref tag begin held
    obtain ⟨set, found, item, value, -⟩ := Chart.holds_iff.mp held
    rw [sets_chart] at found
    split at found
    · rename_i here
      obtain rfl := Option.some.inj found
      obtain ⟨offset, place⟩ := ref
      obtain rfl : offset = setting.offset := here
      exact complete place (Array.getElem?_eq_some_iff.mp value).1
    · have inside : ref.set < setting.offset := (Array.getElem?_eq_some_iff.mp found).1
      exact (handled ((earlier inside).back (Nat.le_refl _) held)).mono (earlier inside) sound
  · intro offset inside
    have inside : offset + 1 ≤ setting.offset := by
      simpa [chart, Setting.offset, Nat.lt_succ_iff] using inside
    rcases Nat.eq_or_lt_of_le inside with here | before
    · obtain ⟨ref, same, held⟩ := lexeme here.symm
      exact ⟨ref, same.trans here.symm, step.more.holds held⟩
    · obtain ⟨ref, same, held⟩ := lexemes before
      exact ⟨ref, same, (earlier before).more.holds held⟩

namespace Grammar

/-- What has been found out when so many lexemes have been read. A scan is stuck when a set holds
nothing but its lexeme, and only then. -/
structure Scanned (grammar : Grammar α) (start : Nat) (input : Array String) (count : Nat)
    (scan : Scan) : Prop where
  filled : (Chart.mk scan.sets).Filled grammar start input
  size : scan.stuck = none → scan.sets.size = count + 1
  stuck : ∀ {offset}, scan.stuck = some offset → offset < input.size ∧
    ∃ set, scan.sets[offset + 1]? = some set ∧ scan.sets.size = offset + 2 ∧ set.items.size = 1
  used : ∀ {offset set}, scan.sets[offset + 1]? = some set → scan.stuck ≠ some offset →
    set.items.size ≠ 1

theorem reads_nothing (valid : grammar.WellFormed) (input : Array String) :
    Setting.Reads ⟨grammar, #[], none⟩ input := by
  refine ⟨valid, Nat.zero_le _, fun _ => rfl, ?_⟩
  intro offset size
  cases size

private theorem not_holds_nothing {ref : ItemRef} {tag : Tag} {first : Nat} :
    ¬ (Chart.mk #[]).Holds ref tag first := by
  simp [Chart.Holds, Chart.item?]

theorem filling_nothing (grammar : Grammar α) (start : Nat) (input : Array String) :
    (Chart.mk #[]).Sound grammar input ∧ (Chart.mk #[]).Rooted grammar ∧
      (Chart.mk #[]).Expecting grammar start input := by
  refine ⟨⟨?_, ?_, ?_, ?_, ?_⟩, fun held => absurd held not_holds_nothing,
    fun held => absurd held not_holds_nothing⟩
  · intro set member
    simp at member
  · intro set member
    simp at member
  · intro ref tag first held
    exact absurd held not_holds_nothing
  · intro ref tag first derivation held
    exact absurd held not_holds_nothing
  · intro ref tag first held
    exact absurd held not_holds_nothing

theorem Scanned.reads (valid : grammar.WellFormed) {start count : Nat} {scan : Scan}
    {lexeme : String} (read : input[count]? = some lexeme)
    (scanned : grammar.Scanned start input count scan) (going : scan.stuck = none) :
    Setting.Reads ⟨grammar, scan.sets, some lexeme⟩ input := by
  have size : scan.sets.size = count + 1 := scanned.size going
  have inside := (Array.getElem?_eq_some_iff.mp read).1
  refine ⟨valid, ?_, ?_, ?_⟩
  · exact size.trans_le inside
  · intro none
    exact absurd (none.symm.trans size) (by simp)
  · intro offset here
    have same : offset = count := Nat.succ.inj (here.symm.trans size)
    rw [same, read]

theorem scanned_nothing (valid : grammar.WellFormed) (start : Nat) (input : Array String) :
    grammar.Scanned start input 0 (grammar.scanNothing start) := by
  obtain ⟨sound, rooted, expecting⟩ := filling_nothing grammar start input
  have filled := Setting.filled_fill (reads_nothing valid input) start sound rooted expecting
    (fun some => absurd rfl some) (fun held => absurd held not_holds_nothing)
    (fun inside => absurd inside (Nat.not_lt_zero _))
  refine ⟨filled, fun _ => rfl, ?_, ?_⟩
  · intro offset stuck
    cases stuck
  · intro offset set found
    cases found

theorem scanned_lexeme (valid : grammar.WellFormed) {start count : Nat} {scan : Scan}
    {lexeme : String} (read : input[count]? = some lexeme)
    (scanned : grammar.Scanned start input count scan) :
    grammar.Scanned start input (count + 1) (grammar.scanLexeme start scan lexeme) := by
  obtain ⟨sets, events, stuck⟩ := scan
  cases stuck with
  | some offset =>
    refine ⟨scanned.filled, ?_, scanned.stuck, scanned.used⟩
    intro none
    cases none
  | none =>
    have size : sets.size = count + 1 := scanned.size rfl
    have inside := (Array.getElem?_eq_some_iff.mp read).1
    have filled := Setting.filled_fill (scanned.reads valid read rfl) start scanned.filled.sound
      scanned.filled.rooted scanned.filled.expecting (fun _ => scanned.filled.begun)
      scanned.filled.handled scanned.filled.lexemes
    rcases full : Setting.fill ⟨grammar, sets, some lexeme⟩ start with ⟨set, passes⟩
    rw [full] at filled
    have earlier {offset : Nat} {other : ItemSet}
        (found : (sets.push set)[offset + 1]? = some other)
        (before : offset + 1 ≠ sets.size) : other.items.size ≠ 1 := by
      rw [Array.getElem?_push, if_neg before] at found
      exact scanned.used found (by simp)
    simp only [scanLexeme, fillNext, full]
    by_cases single : set.items.size = 1
    · rw [if_pos single]
      refine ⟨filled, ?_, ?_, ?_⟩
      · intro none
        cases none
      · intro offset here
        obtain rfl : sets.size - 1 = offset := Option.some.inj here
        refine ⟨by omega, set, ?_, ?_, single⟩
        · rw [Nat.sub_add_cancel (by omega)]
          exact Setting.sets_chart_offset ⟨grammar, sets, some lexeme⟩ _
        · simp only [Array.size_push]
          omega
      · intro offset other found apart
        apply earlier found
        rintro here
        exact apart (congrArg some (by omega))
    · rw [if_neg single]
      refine ⟨filled, ?_, ?_, ?_⟩
      · intro _
        rw [Array.size_push, size]
      · intro offset here
        cases here
      · intro offset other found _
        by_cases here : offset + 1 = sets.size
        · rw [Array.getElem?_push, if_pos here] at found
          obtain rfl := Option.some.inj found
          exact single
        · exact earlier found here

/-- The chart of a scan is filled, whether all of the input has been read or not. -/
theorem scanned_scan (valid : grammar.WellFormed) (start : Nat) (input : Array String) :
    grammar.Scanned start input input.size (grammar.scan start input) := by
  have reading (read rest : List String) (whole : input.toList = read ++ rest) (scan : Scan)
      (scanned : grammar.Scanned start input read.length scan) :
      grammar.Scanned start input input.size (rest.foldl (grammar.scanLexeme start) scan) := by
    induction rest generalizing read scan with
    | nil =>
      have size : input.size = read.length := by
        rw [← Array.length_toList, whole, List.append_nil]
      rwa [size]
    | cons lexeme rest ih =>
      apply ih (read ++ [lexeme]) (by simp [whole])
      have here : input[read.length]? = some lexeme := by
        rw [← Array.getElem?_toList, whole]
        simp
      rw [List.length_append]
      exact scanned_lexeme valid here scanned
  rw [scan, ← Array.foldl_toList]
  exact reading [] input.toList rfl _ (scanned_nothing valid start input)

end Grammar

end ChartParser
