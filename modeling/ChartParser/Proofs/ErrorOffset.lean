import ChartParser.Proofs.Recognition

namespace ChartParser

namespace Grammar

variable {α : Type} {grammar : Grammar α} {input : Array String} {start : Nat}

theorem error_of_parse {error : ParseError}
    (failed : (grammar.parse start input).2 = .error error) :
    (∃ offset, (grammar.scan start input).stuck = some offset ∧
      error = .unexpectedLexeme offset) ∨
    ((grammar.scan start input).stuck = none ∧ error = .unexpectedEnd input.size) := by
  unfold parse at failed
  generalize grammar.scan start input = scan at failed ⊢
  obtain ⟨sets, events, _ | offset⟩ := scan
  · cases found : Chart.find? ⟨sets⟩ (.rule start) 0 input.size with
    | some root => simp [found] at failed
    | none =>
      simp only [found] at failed
      exact .inr ⟨rfl, (Except.error.inj failed).symm⟩
  · exact .inl ⟨offset, rfl, (Except.error.inj failed).symm⟩

private theorem exists_other {size place : Nat} (inside : place < size) (several : size ≠ 1) :
    ∃ other < size, other ≠ place := by
  by_cases first : place = 0
  · exact ⟨1, by omega, by omega⟩
  · exact ⟨0, by omega, by omega⟩

/-- Up to the set where a scan is stuck, what has been read is the beginning of something that the
start rule derives: behind a lexeme that has been used there is an item that is no lexeme. -/
theorem Scanned.viable {count offset : Nat} {scan : Scan}
    (scanned : grammar.Scanned start input count scan) (inside : offset < scan.sets.size)
    (before : ∀ stuck ∈ scan.stuck, offset ≤ stuck) :
    grammar.Viable start (input.toList.take offset) := by
  have filled := scanned.filled
  cases offset with
  | zero => exact (grammar.expects_rule start).viable
  | succ offset =>
    have found := Array.getElem?_eq_getElem inside
    generalize scan.sets[offset + 1] = set at found
    have several := scanned.used found fun stuck => absurd (before offset stuck) (by omega)
    obtain ⟨lexeme, behind, held⟩ := filled.lexemes inside
    have at' {place : Nat} (within : place < set.items.size) : (Chart.mk scan.sets).Holds
        ⟨offset + 1, place⟩ set.items[place].tag set.items[place].start :=
      Chart.holds_iff.mpr ⟨set, found, _, Array.getElem?_eq_getElem within, rfl, rfl⟩
    have known : scan.sets[lexeme.set]? = some set := by rw [behind, found]
    obtain ⟨place, within, apart⟩ := exists_other (held.place_lt known) several
    refine Chart.Expecting.viable filled.sound filled.expecting (at' within) ?_
    intro other tag
    have second := at' within
    rw [tag] at second
    exact apart (congrArg ItemRef.place (filled.sound.lexeme_unique second held behind.symm))

/-- Parse errors report the exact offset. Some sentential form of the start rule begins with tokens
that match the lexemes in front of it. If there is a lexeme at the offset, none goes on with a token
that matches it, and if not, the input itself is not derived. -/
theorem parse_error_exact {draft : Draft α} {range : IndexRange}
    (built : draft.build range = .ok grammar) (start : Nat) (input : Array String) (offset : Nat) :
    ((grammar.parse start input).2 = .error (.unexpectedLexeme offset) →
      offset < input.size ∧ grammar.Viable start (input.toList.take offset) ∧
        ¬ grammar.Viable start (input.toList.take (offset + 1))) ∧
    ((grammar.parse start input).2 = .error (.unexpectedEnd offset) →
      offset = input.size ∧ grammar.Viable start input.toList ∧
        ¬ grammar.Derives start input.toList) := by
  have valid := Draft.build_wellFormed built
  have scanned := scanned_scan valid start input
  constructor
  · intro failed
    obtain ⟨other, stuck, same⟩ | ⟨-, same⟩ := error_of_parse failed
    · obtain rfl := ParseError.unexpectedLexeme.inj same
      obtain ⟨inside, set, found, size, single⟩ := scanned.stuck stuck
      refine ⟨inside, scanned.viable (by omega) (by simp [stuck]), fun viable => ?_⟩
      have awaits := scanned.filled.awaits (by simp [size]) (viable.consumes inside)
      exact not_stuck scanned.filled found single awaits
    · cases same
  · intro failed
    obtain ⟨other, -, same⟩ | ⟨none, same⟩ := error_of_parse failed
    · cases same
    · obtain rfl := ParseError.unexpectedEnd.inj same
      have size := scanned.size none
      have viable : grammar.Viable start (input.toList.take input.size) :=
        scanned.viable (by omega) (by simp [none])
      rw [← Array.length_toList, List.take_length] at viable
      refine ⟨rfl, viable, fun derived => ?_⟩
      obtain ⟨tree, parses⟩ := derives_iff_exists_tree.mp derived
      obtain ⟨forest, success⟩ := parse_of_tree valid parses
      cases failed.symm.trans success

/-- Brackets fail at one that closes nothing, and at the end if one is left open. -/
theorem parse_error_brackets :
    (((Draft.brackets.number .bits8).parse 0 #["(", ")", ")"]).2 = .error (.unexpectedLexeme 2) ∧
      (Draft.brackets.number .bits8).Viable 0 ["(", ")"] ∧
      ¬ (Draft.brackets.number .bits8).Viable 0 ["(", ")", ")"]) ∧
    ((Draft.brackets.number .bits8).parse 0 #["(", "("]).2 = .error (.unexpectedEnd 2) ∧
      (Draft.brackets.number .bits8).Viable 0 ["(", "("] ∧
      ¬ (Draft.brackets.number .bits8).Derives 0 ["(", "("] := by
  have failed (input : Array String) (error : ParseError)
      (checked : (match ((Draft.brackets.number .bits8).parse 0 input).2 with
        | .error other => decide (other = error)
        | .ok _ => false) = true) :
      ((Draft.brackets.number .bits8).parse 0 input).2 = .error error := by
    split at checked
    · rename_i same
      rw [same, of_decide_eq_true checked]
    · cases checked
  have lexeme := failed #["(", ")", ")"] (.unexpectedLexeme 2) (by decide +kernel)
  have ending := failed #["(", "("] (.unexpectedEnd 2) (by decide +kernel)
  obtain ⟨-, before, beyond⟩ :=
    (parse_error_exact Draft.build_brackets 0 #["(", ")", ")"] 2).1 lexeme
  obtain ⟨-, whole, short⟩ := (parse_error_exact Draft.build_brackets 0 #["(", "("] 2).2 ending
  exact ⟨⟨lexeme, before, beyond⟩, ending, whole, short⟩

end Grammar

end ChartParser
