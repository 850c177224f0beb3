import ChartParser.Proofs.Chart.Stages
import ChartParser.Proofs.ErrorOffset

namespace ChartParser.Grammar

variable {α : Type} {grammar : Grammar α} {input : Array String}

theorem unexpected_iff {start offset : Nat} :
    (grammar.parse start input).2 = .error (.unexpectedLexeme offset) ↔
      (grammar.scan start input).stuck = some offset := by
  constructor
  · intro failed
    obtain ⟨other, stuck, same⟩ | ⟨-, same⟩ := error_of_parse failed
    · rw [stuck, ParseError.unexpectedLexeme.inj same]
    · cases same
  · intro stuck
    unfold parse
    generalize grammar.scan start input = scan at stuck
    obtain ⟨sets, events, _⟩ := scan
    obtain rfl := stuck
    rfl

/-- The scan of an input goes on from that of its beginning. -/
theorem scan_take (start : Nat) (input : Array String) (count : Nat) :
    grammar.scan start input = (input.toList.drop count).foldl (grammar.scanLexeme start)
      (grammar.scan start (input.toList.take count).toArray) := by
  rw [scan, scan, ← Array.foldl_toList, ← Array.foldl_toList, List.toList_toArray,
    ← List.foldl_append, List.take_append_drop]

section Beginning

variable (valid : grammar.WellFormed) (start : Nat) {count offset : Nat}
  (inside : count ≤ input.size)
include valid inside

theorem scan_take_cases :
    let beginning := grammar.scan start (input.toList.take count).toArray
    (beginning.stuck = none ∧ beginning.sets.size = count + 1) ∨
    ∃ offset < count, beginning.stuck = some offset ∧ grammar.scan start input = beginning := by
  intro beginning
  have scanned := scanned_scan valid start (input.toList.take count).toArray
  have size : (input.toList.take count).toArray.size = count := by simpa using inside
  rw [size] at scanned
  cases stuck : beginning.stuck with
  | none => exact .inl ⟨rfl, scanned.size stuck⟩
  | some offset =>
    have early := (scanned.stuck stuck).1
    rw [size] at early
    refine .inr ⟨offset, early, rfl, ?_⟩
    rw [scan_take start input count, foldl_scanLexeme_of_stuck stuck]

theorem stuck_take (early : offset < count) : (grammar.scan start input).stuck = some offset ↔
    (grammar.scan start (input.toList.take count).toArray).stuck = some offset := by
  rcases scan_take_cases valid start inside with ⟨going, size⟩ | ⟨_, -, -, same⟩
  · have beginning := scanned_scan valid start (input.toList.take count).toArray
    constructor
    · intro stuck
      obtain ⟨-, set, found, -, single⟩ := (scanned_scan valid start input).stuck stuck
      rw [scan_take start input count, finished_foldl_scanLexeme _ _ (by omega)] at found
      exact absurd single (beginning.used found (by simp [going]))
    · intro stuck
      cases going.symm.trans stuck
  · rw [same]

/-- A scan that is not stuck at one of the first lexemes has the sets up to them, and these depend
on the first lexemes only. -/
theorem sets_take (going : ∀ offset < count, (grammar.scan start input).stuck ≠ some offset)
    (early : offset ≤ count) :
    ∃ set, (grammar.scan start (input.toList.take count).toArray).sets[offset]? = some set ∧
      (grammar.scan start input).sets[offset]? = some set := by
  rcases scan_take_cases valid start inside with ⟨-, size⟩ | ⟨stop, before, stuck, same⟩
  · have within : offset <
        (grammar.scan start (input.toList.take count).toArray).sets.size := by omega
    refine ⟨_, Array.getElem?_eq_getElem within, ?_⟩
    rw [scan_take start input count, finished_foldl_scanLexeme _ _ within]
    exact Array.getElem?_eq_getElem within
  · exact absurd (same ▸ stuck) (going stop before)

end Beginning

/-- The sets of a parse are final. If two inputs have their first lexemes in common, one of these is
unexpected in the one if it is in the other. If none is, both parses have the same sets up to the
last of these lexemes, with their items, derivations and look-ups, however the inputs go on. And
whatever the input is, when a set is being filled in a parse, all sets before it are as they are in
the end, be it in the forest or when the parse fails. This goes for the parse as a loop that reads
the whole chart and writes where its references lead, and that loop does come to the end. -/
theorem earlier_sets_final {draft : Draft α} {range : IndexRange}
    (built : draft.build range = .ok grammar) (start : Nat) (first second : Array String)
    (count : Nat) (inside : count ≤ first.size) (inside' : count ≤ second.size)
    (agree : first.toList.take count = second.toList.take count) :
    (∀ offset < count, (grammar.parse start first).2 = .error (.unexpectedLexeme offset) ↔
      (grammar.parse start second).2 = .error (.unexpectedLexeme offset)) ∧
    ((∀ offset < count, (grammar.parse start first).2 ≠ .error (.unexpectedLexeme offset)) →
      ∀ offset ≤ count, ∃ set, (grammar.scan start first).sets[offset]? = some set ∧
        (grammar.scan start second).sets[offset]? = some set) ∧
    ∀ input,
      (∀ stage, grammar.Goes start input stage → ∀ offset, offset + 1 < stage.chart.sets.size →
        stage.chart.sets[offset]? = (grammar.scan start input).sets[offset]?) ∧
      (∃ last, grammar.Goes start input last ∧ grammar.proceed input last = none ∧
        last.chart.sets = (grammar.scan start input).sets) ∧
      ∀ forest, (grammar.parse start input).2 = .ok forest →
        forest.chart.sets = (grammar.scan start input).sets := by
  have valid := Draft.build_wellFormed built
  have same : ∀ offset < count, (grammar.scan start first).stuck = some offset ↔
      (grammar.scan start second).stuck = some offset := by
    intro offset early
    rw [stuck_take valid start inside early, stuck_take valid start inside' early, agree]
  simp only [unexpected_iff, ne_eq]
  refine ⟨same, fun going offset early => ?_, fun input => ⟨fun stage goes offset earlier =>
    goes.final valid earlier, exists_last valid, fun forest success => ?_⟩⟩
  · have going' : ∀ offset < count, (grammar.scan start second).stuck ≠ some offset :=
      fun offset early stuck => going offset early ((same offset early).mpr stuck)
    obtain ⟨set, found, here⟩ := sets_take valid start inside going early
    obtain ⟨set', found', there⟩ := sets_take valid start inside' going' early
    rw [agree] at found
    obtain rfl := Option.some.inj (found.symm.trans found')
    exact ⟨set, here, there⟩
  · exact congrArg Chart.sets (parse_ok_iff.mp success).2.1

/-- A bracket that closes nothing is unexpected whatever comes behind it, and the sets in front of
it are those of the brackets alone. -/
theorem earlier_sets_final_brackets :
    ((Draft.brackets.number .bits8).parse 0 #["(", ")", ")", "("]).2 =
      .error (.unexpectedLexeme 2) ∧
    ∃ forest, ((Draft.brackets.number .bits8).parse 0 #["(", ")"]).2 = .ok forest ∧
      ∀ offset ≤ 2, forest.chart.sets[offset]? =
        ((Draft.brackets.number .bits8).scan 0 #["(", ")", ")"]).sets[offset]? := by
  have failed : ((Draft.brackets.number .bits8).parse 0 #["(", ")", ")"]).2 =
      .error (.unexpectedLexeme 2) := unexpected_iff.mpr (by decide +kernel)
  obtain ⟨same, -, -⟩ := earlier_sets_final Draft.build_brackets 0 #["(", ")", ")"]
    #["(", ")", ")", "("] 3 (by decide) (by decide) rfl
  obtain ⟨-, sets, rest⟩ := earlier_sets_final Draft.build_brackets 0 #["(", ")"]
    #["(", ")", ")"] 2 (by decide) (by decide) rfl
  obtain ⟨forest, success⟩ := exists_forest_iff.mpr (show
    ((Draft.brackets.number .bits8).parse 0 #["(", ")"]).2.toOption.isSome = true by
      decide +kernel)
  refine ⟨(same 2 (by decide)).mp failed, forest, success, fun offset early => ?_⟩
  obtain ⟨set, here, there⟩ := sets (fun stuck _ fails => nomatch success.symm.trans fails)
    offset early
  rw [(rest #["(", ")"]).2.2 forest success, here, there]

end ChartParser.Grammar
