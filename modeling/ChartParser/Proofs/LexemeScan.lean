import ChartParser.Lexeme.Class
import ChartParser.Proofs.Chart.Rounds
import ChartParser.Proofs.Packing

/-! Scanning a lexeme. Items that wait for the token of that name are looked up in one index, and
those that wait for a token class in another, where the classes that accept the lexeme are sorted
out. Together these are the items that trying every one of them would find. -/
namespace ChartParser

variable {α : Type}

def Symbol.reads (grammar : Grammar α) (lexeme : String) : Symbol → Bool
  | .rule _ => false
  | .token index => grammar.tokenMatches index lexeme

namespace ItemSet

/-- The places of the items that wait for a token that matches the lexeme, found by trying every
item of the set. -/
def tokenAwaiters (grammar : Grammar α) (set : ItemSet) (lexeme : String) : List Nat :=
  (List.range set.items.size).filter fun place =>
    (set.awaited? grammar place).any (·.reads grammar lexeme)

theorem mem_tokenAwaiters {grammar : Grammar α} {set : ItemSet} {lexeme : String} {place : Nat} :
    place ∈ set.tokenAwaiters grammar lexeme ↔ ∃ position first token,
      set.HoldsAt place (.dotted position) first ∧
      grammar.next? position = some (.token token) ∧ grammar.tokenMatches token lexeme = true := by
  simp only [tokenAwaiters, List.mem_filter, List.mem_range, Option.any_eq_true]
  constructor
  · rintro ⟨-, symbol, awaited, reads⟩
    obtain ⟨position, first, held, waits⟩ := awaited_iff.mp awaited
    cases symbol with
    | rule index => cases reads
    | token token => exact ⟨position, first, token, held, waits, reads⟩
  · rintro ⟨position, first, token, held, waits, reads⟩
    have awaited := awaited_iff.mpr ⟨position, first, held, waits⟩
    obtain ⟨item, found, -⟩ := held
    exact ⟨(Array.getElem?_eq_some_iff.mp found).1, .token token, awaited, reads⟩

theorem nodup_tokenAwaiters (grammar : Grammar α) (set : ItemSet) (lexeme : String) :
    (set.tokenAwaiters grammar lexeme).Nodup := List.nodup_range.filter _

end ItemSet

namespace Setting

variable {setting : Setting α} {goal : Nat} {input : Array String} {current : ItemSet}

/-- No item is found twice. What waits for an exact token does not wait for a class. -/
theorem nodup_lexemeAwaiters (filling : setting.Filling goal input current) {start : Nat}
    (ordered : start ≤ setting.offset) (lexeme : String) :
    (setting.lexemeAwaiters current start lexeme).toList.Nodup := by
  obtain ⟨set, found⟩ := exists_set current ordered
  have indexed := filling.sound.indexed (Array.mem_of_getElem? found)
  have byClass : (set.awaitingClass.filter fun place =>
      setting.awaitsLexeme current lexeme ⟨start, place⟩).toList.Nodup := by
    rw [Array.toList_filter, indexed.awaitingClass_eq]
    exact (List.nodup_range.filter _).filter _
  rw [lexemeAwaiters, setAt_eq found]
  cases setting.grammar.lexemeToken? lexeme with
  | none => simpa using byClass
  | some token =>
    have exact : (set.awaiters (.token token)).toList.Nodup := by
      rw [indexed.awaiters_eq]
      exact List.nodup_range.filter _
    rw [Array.toList_append]
    refine List.Nodup.append exact byClass fun place named classed => ?_
    obtain ⟨awaited, plain⟩ := indexed.mem_awaiters.mp (Array.mem_toList_iff.mp named)
    obtain ⟨listed, -⟩ := Array.mem_filter.mp (Array.mem_toList_iff.mp classed)
    obtain ⟨token', awaited', isClass⟩ := indexed.mem_awaitingClass.mp listed
    cases awaited.symm.trans awaited'
    exact Bool.false_ne_true (plain.symm.trans isClass)

/-- The two look-ups find what trying every item finds. -/
theorem lexemeAwaiters_perm (reads : setting.Reads input)
    (filling : setting.Filling goal input current) {start : Nat} {set : ItemSet}
    (found : (setting.chart current).sets[start]? = some set) (lexeme : String) :
    (setting.lexemeAwaiters current start lexeme).toList.Perm
      (set.tokenAwaiters setting.grammar lexeme) := by
  have ordered : start ≤ setting.offset := by
    have inside := (Array.getElem?_eq_some_iff.mp found).1
    simp only [chart, Array.size_push] at inside
    exact Nat.le_of_lt_succ inside
  rw [List.perm_ext_iff_of_nodup (nodup_lexemeAwaiters filling ordered lexeme)
    (set.nodup_tokenAwaiters setting.grammar lexeme)]
  intro place
  rw [Array.mem_toList_iff, mem_lexemeAwaiters reads filling ordered]
  refine Iff.trans ?_ ItemSet.mem_tokenAwaiters.symm
  simp [Chart.holds_iff, found]

theorem Filling.lexeme (filling : setting.Filling goal input current) {place : Nat} {item : Item}
    {offset : Nat} (found : current.items[place]? = some item) (tag : item.tag = .lexeme offset) :
    item.start = offset ∧ setting.offset = offset + 1 := by
  have placed := filling.sound.placed (holds_here.mpr ⟨item, found, tag, rfl⟩)
  generalize item.start = start at placed
  generalize setting.offset = stop at placed
  cases placed
  exact ⟨rfl, rfl⟩

/-- To process a lexeme is to advance the items that the two look-ups find. -/
theorem process_lexeme (reads : setting.Reads input)
    (filling : setting.Filling goal input current) {place : Nat} {item : Item} {offset : Nat}
    (found : current.items[place]? = some item) (tag : item.tag = .lexeme offset) :
    ∃ lexeme, input[offset]? = some lexeme ∧ setting.process current place =
      setting.advanceAll current offset (setting.lexemeAwaiters current offset lexeme)
        ⟨offset + 1, place⟩ := by
  obtain ⟨start, here⟩ := filling.lexeme found tag
  have inside : offset < input.size := by
    have inside := reads.inside
    omega
  have read := reads.behind here
  rw [Array.getElem?_eq_getElem inside] at read
  refine ⟨input[offset], Array.getElem?_eq_getElem inside, ?_⟩
  simp only [process, found, tag, complete, read, start, here]

theorem firstRound_lexeme (reads : setting.Reads input) {offset : Nat}
    (here : setting.offset = offset + 1) (goal : Nat) :
    (setting.firstRound goal).current.items[(setting.firstRound goal).place]? =
      some ⟨.lexeme offset, offset, .none⟩ := by
  have inside : offset < input.size := by
    have inside := reads.inside
    omega
  have read := (reads.behind here).trans (Array.getElem?_eq_getElem inside)
  have absent : ItemSet.empty.find? (.lexeme offset) offset = none := by
    simp [ItemSet.find?, ItemSet.empty]
  simp only [firstRound, seed, read, here, Nat.add_sub_cancel,
    ItemSet.items_insert_absent setting.grammar absent]
  rfl

end Setting

namespace Grammar

variable {grammar : Grammar α}

/-- The look-ups for a lexeme find what trying every item would. In the loop of every set but the
first, the lexeme in front of the set is processed. Whenever that happens, in whichever pass, the
items that the look-ups find are advanced one after the other. These are the items of the finished
set in front of the lexeme whose next symbol is a token that matches it, and none is found twice. -/
theorem scan_exact {draft : Draft α} {range : IndexRange}
    (built : draft.build range = .ok grammar) (start : Nat) (input : Array String) :
    ∀ setting ∈ grammar.settings start input,
      (∀ offset, setting.offset = offset + 1 → (setting.firstRound start).current.items[
        (setting.firstRound start).place]? = some ⟨.lexeme offset, offset, .none⟩) ∧
      ∀ round, setting.Comes start round → ∀ item offset,
        round.current.items[round.place]? = some item → item.tag = .lexeme offset →
        ∃ set lexeme, setting.offset = offset + 1 ∧ input[offset]? = some lexeme ∧
          setting.finished[offset]? = some set ∧
          (grammar.scan start input).sets[offset]? = some set ∧
          setting.process round.current round.place =
            setting.advanceAll round.current offset
              (setting.lexemeAwaiters round.current offset lexeme) ⟨offset + 1, round.place⟩ ∧
          (setting.lexemeAwaiters round.current offset lexeme).toList.Nodup ∧
          (setting.lexemeAwaiters round.current offset lexeme).toList.Perm
            (set.tokenAwaiters grammar lexeme) := by
  intro setting listed
  obtain ⟨same, reads, filling, finished, -⟩ :=
    (prepared_settings (Draft.build_wellFormed built) start input).1 setting listed
  refine ⟨fun offset here => Setting.firstRound_lexeme reads here start, ?_⟩
  intro round comes item offset found tag
  have filling := comes.filling reads filling
  obtain ⟨-, here⟩ := filling.lexeme found tag
  obtain ⟨lexeme, read, processed⟩ := Setting.process_lexeme reads filling found tag
  have before : offset < setting.offset := Nat.lt_of_succ_le (Nat.le_of_eq here.symm)
  have inFront := Array.getElem?_eq_getElem (show offset < setting.finished.size from before)
  have kept := (finished offset before).symm.trans inFront
  have held : (setting.chart round.current).sets[offset]? = some setting.finished[offset] := by
    rw [Setting.sets_chart, if_neg (Nat.ne_of_lt before)]
    exact inFront
  have distinct := Setting.nodup_lexemeAwaiters filling (Nat.le_of_lt before) lexeme
  have perm := Setting.lexemeAwaiters_perm reads filling held lexeme
  rw [same] at perm
  exact ⟨_, lexeme, here, read, inFront, kept, processed, distinct, perm⟩

end Grammar

/-- A token that is named, and two classes that overlap. -/
def Draft.halves : Draft Unit :=
  .ofEntries "pair" [.production ⟨"pair", ["half", "half"], none, none⟩,
    .production ⟨"half", ["ab"], none, none⟩, .production ⟨"half", ["letters"], none, none⟩,
    .production ⟨"half", ["two"], none, none⟩,
    .tokenClass ⟨"letters", LexemeClass.letters.accepts⟩,
    .tokenClass ⟨"two", (LexemeClass.ofLength 2).accepts⟩]

theorem Draft.build_halves : Draft.halves.build .bits8 = .ok (Draft.halves.number .bits8) :=
  Draft.build_eq_number (by decide +kernel) (by decide +kernel)

/-- The first lexeme is the name of a token, and both classes accept it: it advances three items.
The second is the name of a class that does not accept it, while the other one does: it advances
one. -/
theorem Grammar.scan_exact_halves :
    let grammar := Draft.halves.number .bits8
    let settings := grammar.settings 0 #["ab", "two"]
    (∃ setting ∈ settings, setting.process (setting.seed 0) 0 =
        setting.advanceAll (setting.seed 0) 0 (setting.lexemeAwaiters (setting.seed 0) 0 "ab")
          ⟨1, 0⟩ ∧
      (setting.lexemeAwaiters (setting.seed 0) 0 "ab").toList.Perm [1, 2, 3]) ∧
    ∃ setting ∈ settings, setting.process (setting.seed 0) 0 =
        setting.advanceAll (setting.seed 0) 1 (setting.lexemeAwaiters (setting.seed 0) 1 "two")
          ⟨2, 0⟩ ∧
      (setting.lexemeAwaiters (setting.seed 0) 1 "two").toList.Perm [4] := by
  intro grammar settings
  have scanned (offset : Nat) (lexeme : String) (wanted : List Nat)
      (inside : offset + 1 < (grammar.scan 0 #["ab", "two"]).sets.size)
      (read : #["ab", "two"][offset]? = some lexeme)
      (checked : (grammar.scan 0 #["ab", "two"]).sets[offset]?.map
        (fun set => set.tokenAwaiters grammar lexeme) = some wanted) :
      ∃ setting ∈ settings, setting.process (setting.seed 0) 0 =
          setting.advanceAll (setting.seed 0) offset
            (setting.lexemeAwaiters (setting.seed 0) offset lexeme) ⟨offset + 1, 0⟩ ∧
        (setting.lexemeAwaiters (setting.seed 0) offset lexeme).toList.Perm wanted := by
    have offsets := (prepared_settings (Draft.build_wellFormed Draft.build_halves) 0
      #["ab", "two"]).2
    have member : offset + 1 ∈ settings.map Setting.offset :=
      offsets ▸ List.mem_range.mpr inside
    obtain ⟨setting, listed, here⟩ := List.mem_map.mp member
    obtain ⟨first, advances⟩ := scan_exact Draft.build_halves 0 #["ab", "two"] setting listed
    obtain ⟨set, _, -, read', -, found, processed, -, perm⟩ :=
      advances (setting.firstRound 0) .refl _ offset (first offset here) rfl
    obtain rfl := Option.some.inj (read.symm.trans read')
    rw [found, Option.map_some] at checked
    exact ⟨setting, listed, processed, Option.some.inj checked ▸ perm⟩
  exact ⟨scanned 0 "ab" [1, 2, 3] (by decide +kernel) rfl (by decide +kernel),
    scanned 1 "two" [4] (by decide +kernel) rfl (by decide +kernel)⟩

end ChartParser
