import ChartParser.Proofs.Chart.Fill
import Mathlib.Data.List.Basic
import Mathlib.Data.List.Perm.Subperm

namespace ChartParser

/-- The tags and starts that the items at an offset can have. -/
def Grammar.places {α : Type} (grammar : Grammar α) (stop : Nat) : List (Tag × Nat) :=
  (.lexeme (stop - 1), stop - 1) :: (List.range (stop + 1)).flatMap fun start =>
    (List.range grammar.rules.size).map (fun index => (.rule index, start)) ++
    (List.range grammar.productions.size).flatMap fun production =>
      (List.range (grammar.symbols production).size).map fun dot =>
        (.dotted ⟨production, dot⟩, start)

namespace Setting

variable {α : Type} {setting : Setting α} {goal : Nat} {input : Array String}
  {current next : ItemSet}

theorem mem_places {grammar : Grammar α} {tag : Tag} {start stop : Nat}
    (placed : Chart.Placed grammar tag start stop) : (tag, start) ∈ grammar.places stop := by
  unfold Grammar.places
  cases placed with
  | lexeme => exact List.mem_cons_self
  | @dotted _ _ position known short ordered =>
    apply List.mem_cons_of_mem
    refine List.mem_flatMap.mpr ⟨start, List.mem_range.mpr (Nat.lt_succ_of_le ordered), ?_⟩
    apply List.mem_append_right
    refine List.mem_flatMap.mpr ⟨position.production, List.mem_range.mpr known, ?_⟩
    exact List.mem_map.mpr ⟨position.dot, List.mem_range.mpr short, rfl⟩
  | @rule index _ _ known ordered =>
    apply List.mem_cons_of_mem
    refine List.mem_flatMap.mpr ⟨start, List.mem_range.mpr (Nat.lt_succ_of_le ordered), ?_⟩
    apply List.mem_append_left
    exact List.mem_map.mpr ⟨index, List.mem_range.mpr known, rfl⟩

theorem symbolCount_eq (grammar : Grammar α) : grammar.symbolCount =
    ((List.range grammar.productions.size).flatMap fun production =>
      (grammar.symbols production).toList).length := by
  have same : (grammar.productions.toList.map fun production => production.symbols.toList) =
      (List.range grammar.productions.size).map fun production =>
        (grammar.symbols production).toList := by
    apply List.ext_getElem (by simp)
    intro place inside _
    simp only [List.length_map, Array.length_toList] at inside
    simp [Grammar.symbols, inside]
  rw [Grammar.symbolCount, List.flatMap_def, List.flatMap_def, same]

theorem length_places (setting : Setting α) :
    (setting.grammar.places setting.offset).length = setting.capacity := by
  simp only [Grammar.places, List.length_cons, List.length_flatMap, List.length_append,
    List.length_map, List.length_range, List.map_const', List.sum_replicate_nat, capacity,
    symbolCount_eq, Array.length_toList]

/-- There are no more items than the capacity allows, because they differ in tag or start. -/
theorem Filling.size_le (filling : setting.Filling goal input current) :
    current.items.size ≤ setting.capacity := by
  have keys : (current.items.toList.map fun item => (item.tag, item.start)).Nodup := by
    rw [List.nodup_iff_injective_get]
    intro place other same
    have here (index : Fin (current.items.toList.map fun item => (item.tag, item.start)).length) :
        ∃ item, current.items[index.val]? = some item ∧
          (current.items.toList.map fun item => (item.tag, item.start)).get index =
            (item.tag, item.start) := by
      obtain ⟨index, inside⟩ := index
      simp only [List.length_map, Array.length_toList] at inside
      exact ⟨current.items[index], Array.getElem?_eq_getElem inside, by simp⟩
    obtain ⟨item, found, key⟩ := here place
    obtain ⟨item', found', key'⟩ := here other
    rw [key, key', Prod.mk.injEq] at same
    exact Fin.ext (filling.indexed.place_unique ⟨item, found, rfl, rfl⟩
      ⟨item', found', same.1.symm, same.2.symm⟩)
  have known : (current.items.toList.map fun item => (item.tag, item.start)) ⊆
      setting.grammar.places setting.offset := by
    intro key member
    obtain ⟨item, listed, rfl⟩ := List.mem_map.mp member
    obtain ⟨place, inside, rfl⟩ := Array.mem_iff_getElem.mp (Array.mem_toList_iff.mp listed)
    have held : (setting.chart current).Holds ⟨setting.offset, place⟩ current.items[place].tag
        current.items[place].start :=
      holds_here.mpr ⟨_, Array.getElem?_eq_getElem inside, rfl, rfl⟩
    exact mem_places (filling.sound.placed held)
  have fewer := (List.subperm_of_subset keys known).length_le
  rwa [List.length_map, Array.length_toList, length_places] at fewer

/-- A pass that adds no item handles all items from its first place on. -/
theorem sweep_spec (reads : setting.Reads input) (filling : setting.Filling goal input current)
    (place : Nat) :
    let swept := setting.sweep setting.capacity current place
    setting.Step goal input current swept ∧ (swept.items.size = current.items.size →
      ∀ other, place ≤ other → other < current.items.size →
        (setting.chart swept).Handled setting.grammar input ⟨setting.offset, other⟩) := by
  fun_induction sweep setting setting.capacity current place with
  | case1 current place guard ih =>
    obtain ⟨first, handled⟩ := process_spec reads filling guard.1
    obtain ⟨later, others⟩ := ih first.filling
    refine ⟨first.trans later, ?_⟩
    intro size other ordered inside
    have grown := first.size_le
    have grown' := later.size_le
    rcases Nat.eq_or_lt_of_le ordered with rfl | ordered
    · exact (handled (by omega)).mono (later.same (by omega) _) first.filling.sound
    · exact others (by omega) other ordered (by omega)
  | case2 current place guard =>
    refine ⟨.refl filling, ?_⟩
    intro _ other ordered inside
    have fits := filling.size_le
    omega

/-- The passes end when every item has been handled. -/
theorem saturate_spec (reads : setting.Reads input) (filling : setting.Filling goal input current)
    (passes : Nat) :
    let full := (setting.saturate setting.capacity current passes).1
    setting.Step goal input current full ∧ ∀ place < full.items.size,
      (setting.chart full).Handled setting.grammar input ⟨setting.offset, place⟩ := by
  fun_induction saturate setting setting.capacity current passes with
  | case1 current passes before swept grown ih =>
    obtain ⟨first, -⟩ := sweep_spec reads filling 0
    obtain ⟨later, handled⟩ := ih first.filling
    exact ⟨first.trans later, handled⟩
  | case2 current passes before swept guard =>
    obtain ⟨first, handled⟩ := sweep_spec reads filling 0
    refine ⟨first, ?_⟩
    intro place inside
    have fits := first.filling.size_le
    have grown := first.size_le
    have size : swept.items.size = current.items.size := by
      simp only [swept] at guard ⊢
      omega
    exact handled size place (Nat.zero_le _) (size ▸ inside)

section Seed

theorem holds_finished {ref : ItemRef} {tag : Tag} {start : Nat}
    (apart : ref.set ≠ setting.offset) : (setting.chart current).Holds ref tag start ↔
      (Chart.mk setting.finished).Holds ref tag start := by
  rw [Chart.holds_iff, Chart.holds_iff, sets_chart, if_neg apart]

theorem derivations_finished {ref : ItemRef} (apart : ref.set ≠ setting.offset) :
    (setting.chart current).derivations ref = (Chart.mk setting.finished).derivations ref := by
  rw [Chart.derivations, Chart.derivations, Chart.item?, Chart.item?, sets_chart, if_neg apart]

theorem extends_finished (setting : Setting α) (current : ItemSet) :
    (Chart.mk setting.finished).Extends (setting.chart current) := by
  have apart {ref : ItemRef} {tag : Tag} {start : Nat}
      (held : (Chart.mk setting.finished).Holds ref tag start) : ref.set ≠ setting.offset := by
    obtain ⟨set, found, -⟩ := Chart.holds_iff.mp held
    exact Nat.ne_of_lt (Array.getElem?_eq_some_iff.mp found).1
  constructor
  · intro ref tag start held
    exact (holds_finished (apart held)).mpr held
  · intro ref derivation member
    obtain ⟨tag, start, held⟩ := Chart.exists_holds member
    rwa [derivations_finished (apart held)]

theorem same_finished (setting : Setting α) (current : ItemSet) {offset : Nat}
    (before : offset < setting.offset) :
    (Chart.mk setting.finished).SameUpTo (setting.chart current) offset := by
  refine ⟨extends_finished setting current, ?_⟩
  intro ref tag start inside held
  exact (holds_finished (by omega)).mp held

private theorem holds_empty {ref : ItemRef} {tag : Tag} {start : Nat}
    (held : (setting.chart .empty).Holds ref tag start) : ref.set ≠ setting.offset := by
  intro here
  simp [Chart.holds_iff, sets_chart, here, ItemSet.HoldsAt, ItemSet.empty] at held

theorem Filling.empty (sound : (Chart.mk setting.finished).Sound setting.grammar input)
    (rooted : (Chart.mk setting.finished).Rooted setting.grammar)
    (expecting : (Chart.mk setting.finished).Expecting setting.grammar goal input) :
    setting.Filling goal input .empty := by
  have more := extends_finished setting .empty
  have back {ref : ItemRef} {tag : Tag} {start : Nat}
      (held : (setting.chart .empty).Holds ref tag start) :=
    (holds_finished (holds_empty held)).mp held
  refine ⟨⟨?_, ?_, ?_, ?_, ?_⟩, ?_, fun held owner => expecting (back held) owner⟩
  · intro set member
    rcases Array.mem_push.mp member with old | rfl
    · exact sound.indexed old
    · exact ItemSet.indexed_empty _
  · intro set member
    rcases Array.mem_push.mp member with old | rfl
    · exact sound.distinct old
    · intro place
      simp [ItemSet.derivationsAt, ItemSet.empty]
  · intro ref tag start held
    exact sound.placed (back held)
  · intro ref tag start derivation held member
    rw [derivations_finished (holds_empty held)] at member
    exact (sound.derived (back held) member).mono more.holds
  · intro ref tag start held advanced
    obtain ⟨trees, unfolds⟩ := sound.grounded (back held) advanced
    exact ⟨trees, unfolds.mono more⟩
  · intro ref tag start rule held owner
    exact (rooted (back held) owner).mono more

/-- Behind a lexeme a set starts with that lexeme, and in front of the input with the predictions
of the start rule. -/
theorem seed_spec (reads : setting.Reads input) (filling : setting.Filling goal input .empty) :
    setting.Step goal input .empty (setting.seed goal) ∧
      (setting.offset = 0 →
        (setting.chart (setting.seed goal)).Predicted setting.grammar goal 0) ∧
      ∀ {offset}, setting.offset = offset + 1 → ∃ ref, ref.set = setting.offset ∧
        (setting.chart (setting.seed goal)).Holds ref (.lexeme offset) offset := by
  cases place : setting.offset with
  | zero =>
    have goes : setting.seed goal = setting.predict .empty goal := by
      rw [seed, reads.outset place]
    have expects : setting.grammar.Expects goal (input.toList.take setting.offset) [.rule goal] :=
      place ▸ Grammar.expects_rule setting.grammar goal
    obtain ⟨step, predicted⟩ := predict_spec reads filling expects
    rw [goes]
    exact ⟨step, fun _ => place ▸ predicted, by simp⟩
  | succ offset =>
    have inside : offset < input.size := by
      have inside := reads.inside
      omega
    have read := (reads.behind place).trans (Array.getElem?_eq_getElem inside)
    have goes : setting.seed goal =
        ItemSet.empty.put setting.grammar (.lexeme offset) offset none := by
      rw [seed, read, place]
      rfl
    have justified : (setting.chart .empty).Justified setting.grammar input (.lexeme offset) offset
        setting.offset none := place ▸ .lexeme
    have more := extends_put filling.indexed (.lexeme offset) offset none
    rw [goes]
    refine ⟨⟨⟨filling.sound.put reads.valid justified, ?_, ?_⟩, more,
      ItemSet.size_le_put _ _ _ _ _⟩, by simp, ?_⟩
    · intro ref tag first rule held owner
      rcases (holds_put filling.indexed).mp held with old | ⟨-, rfl, -⟩
      · exact (filling.rooted old owner).mono more
      · cases owner
    · intro ref tag first rule held owner
      rcases (holds_put filling.indexed).mp held with old | ⟨-, rfl, -⟩
      · exact filling.expecting old owner
      · cases owner
    · intro other same
      obtain rfl : offset = other := by omega
      exact ⟨setting.entry .empty (.lexeme offset) offset, place,
        (holds_put filling.indexed).mpr (.inr ⟨rfl, rfl, rfl⟩)⟩

end Seed

end Setting

end ChartParser
