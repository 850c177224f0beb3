import ChartParser.Proofs.Chart.Sound

namespace ChartParser

namespace Setting

variable {α : Type}

/-- The chart so far, `current` being the set that is filled. -/
def chart (setting : Setting α) (current : ItemSet) : Chart := ⟨setting.finished.push current⟩

variable {setting : Setting α} {current : ItemSet}

theorem sets_chart (setting : Setting α) (current : ItemSet) (offset : Nat) :
    (setting.chart current).sets[offset]? =
      if offset = setting.offset then some current else setting.finished[offset]? :=
  Array.getElem?_push

theorem sets_chart_offset (setting : Setting α) (current : ItemSet) :
    (setting.chart current).sets[setting.offset]? = some current := by
  rw [sets_chart, if_pos rfl]

theorem item_eq (setting : Setting α) (current : ItemSet) (ref : ItemRef) :
    setting.item? current ref = (setting.chart current).item? ref := by
  rw [item?, setAt, Chart.item?, sets_chart]
  split
  · rfl
  · rw [Array.getD_eq_getD_getElem?]
    cases setting.finished[ref.set]? with
    | none => simp [ItemSet.empty]
    | some set => rfl

theorem setAt_eq {offset : Nat} {set : ItemSet}
    (found : (setting.chart current).sets[offset]? = some set) :
    setting.setAt current offset = set := by
  rw [sets_chart] at found
  rw [setAt]
  split at found
  · exact (if_pos ‹_›).trans (Option.some.inj found)
  · rw [if_neg ‹_›, Array.getD_eq_getD_getElem?, found, Option.getD_some]

def entry (setting : Setting α) (current : ItemSet) (tag : Tag) (start : Nat) : ItemRef :=
  ⟨setting.offset, (current.insert setting.grammar tag start).1⟩

theorem holds_put (indexed : current.Indexed setting.grammar) {tag other : Tag}
    {start first : Nat} {derivation : Option Derivation} {ref : ItemRef} :
    (setting.chart (current.put setting.grammar tag start derivation)).Holds ref other first ↔
      (setting.chart current).Holds ref other first ∨
        (ref = setting.entry current tag start ∧ other = tag ∧ first = start) := by
  simp only [Chart.holds_iff, sets_chart]
  by_cases here : ref.set = setting.offset
  · have same : ref = setting.entry current tag start ↔
        ref.place = (current.insert setting.grammar tag start).1 := by
      cases ref
      simp_all [entry]
    simp [here, ItemSet.holdsAt_put indexed, same]
  · have apart : ref ≠ setting.entry current tag start := fun same => here (same ▸ rfl)
    simp [here, apart]

theorem mem_derivations_put (indexed : current.Indexed setting.grammar) {tag : Tag} {start : Nat}
    {entered : Option Derivation} {ref : ItemRef} {derivation : Derivation} :
    derivation ∈ (setting.chart (current.put setting.grammar tag start entered)).derivations ref ↔
      derivation ∈ (setting.chart current).derivations ref ∨
        (ref = setting.entry current tag start ∧ entered = some derivation) := by
  by_cases here : ref.set = setting.offset
  · have same : ref = setting.entry current tag start ↔
        (current.insert setting.grammar tag start).1 = ref.place := by
      cases ref
      simp_all [entry, eq_comm]
    have found (set : ItemSet) : (setting.chart set).sets[ref.set]? = some set :=
      here ▸ sets_chart_offset setting set
    rw [Chart.derivations_eq (found _), Chart.derivations_eq (found _),
      ItemSet.derivationsAt_put indexed, same]
    cases entered with
    | none => simp
    | some entered =>
      simp only [Option.some.injEq]
      split
      · simp [*, mem_pushNew, eq_comm]
      · simp [*]
  · have apart : ref ≠ setting.entry current tag start := fun same => here (same ▸ rfl)
    simp [Chart.derivations, Chart.item?, sets_chart, here, apart]

theorem derivations_put_none (indexed : current.Indexed setting.grammar) (tag : Tag) (start : Nat)
    (ref : ItemRef) :
    (setting.chart (current.put setting.grammar tag start none)).derivations ref =
      (setting.chart current).derivations ref := by
  by_cases here : ref.set = setting.offset
  · have found (set : ItemSet) : (setting.chart set).sets[ref.set]? = some set :=
      here ▸ sets_chart_offset setting set
    rw [Chart.derivations_eq (found _), Chart.derivations_eq (found _),
      ItemSet.derivationsAt_put indexed]
  · simp only [Chart.derivations, Chart.item?, sets_chart, if_neg here]

theorem extends_put (indexed : current.Indexed setting.grammar) (tag : Tag) (start : Nat)
    (derivation : Option Derivation) : (setting.chart current).Extends
      (setting.chart (current.put setting.grammar tag start derivation)) :=
  ⟨fun held => (holds_put indexed).mpr (.inl held),
    fun member => (mem_derivations_put indexed).mpr (.inl member)⟩

end Setting

namespace Chart

variable {α : Type} {grammar : Grammar α} {input : Array String} {chart larger : Chart}

/-- What may be entered at an offset: its lexeme, the beginning of a production, or what a known
way of building it leads to. -/
inductive Justified {α : Type} (chart : Chart) (grammar : Grammar α) (input : Array String) :
    Tag → Nat → Nat → Option Derivation → Prop
  | lexeme : Justified chart grammar input (.lexeme offset) offset (offset + 1) none
  | opening (known : production < grammar.productions.size)
      (inhabited : 0 < (grammar.symbols production).size) :
      Justified chart grammar input (.dotted (.startOf production)) offset offset none
  | split (split : chart.Splits grammar input tag start stop derivation) :
      Justified chart grammar input tag start stop (some derivation)

theorem Splits.placed (valid : grammar.WellFormed) (sound : chart.Sound grammar input) {tag : Tag}
    {start stop : Nat} {derivation : Derivation}
    (split : chart.Splits grammar input tag start stop derivation) :
    Placed grammar tag start stop := by
  cases split with
  | empty known => exact .rule (valid.ruleOf_lt known) (Nat.le_refl _)
  | @step waiting position start symbol completed part held next covers left =>
    have later := sound.covers_ordered covers
    cases sound.placed held with
    | dotted known short ordered =>
      obtain ⟨-, tag⟩ | ⟨more, tag⟩ := tagBehind_cases grammar position
      · rw [tag]
        exact .rule (valid.ruleOf_lt known) (ordered.trans later)
      · rw [tag]
        exact .dotted known (Nat.lt_of_le_of_ne short more) (ordered.trans later) (by simp)

theorem Justified.placed (valid : grammar.WellFormed) (sound : chart.Sound grammar input)
    {tag : Tag} {start stop : Nat} {derivation : Option Derivation}
    (justified : chart.Justified grammar input tag start stop derivation) :
    Placed grammar tag start stop := by
  cases justified with
  | lexeme => exact .lexeme
  | opening known inhabited => exact .dotted known inhabited (Nat.le_refl _) fun _ => rfl
  | split split => exact split.placed valid sound

theorem Unfolds.append {nodes others : List ItemRef} {trees more : List Tree}
    (unfolds : chart.Unfolds nodes trees) (further : chart.Unfolds others more) :
    chart.Unfolds (nodes ++ others) (trees ++ more) := by
  induction unfolds with
  | nil => exact further
  | lexeme held _ ih => exact .lexeme held ih
  | dotted held member inner _ _ ih =>
    rw [List.append_assoc]
    exact .dotted held member inner ih
  | rule held member inner _ _ ih => exact .rule held member inner ih

theorem Splits.unfolds (sound : chart.Sound grammar input) {tag : Tag} {start stop : Nat}
    {derivation : Derivation} (split : chart.Splits grammar input tag start stop derivation) :
    ∃ trees, chart.Unfolds derivation.children trees := by
  cases split with
  | empty => exact ⟨[], .nil⟩
  | step held next covers left =>
    obtain ⟨trees, unfolds⟩ := sound.grounded_covers covers
    cases left with
    | nothing => exact ⟨trees, unfolds⟩
    | first dot symbol opens same =>
      obtain ⟨first, unfolds'⟩ := sound.grounded_covers opens
      exact ⟨first ++ trees, unfolds'.append unfolds⟩
    | waiting dot =>
      have advanced := Nat.ne_of_gt (Nat.lt_of_lt_of_le Nat.two_pos dot)
      obtain ⟨first, unfolds'⟩ := sound.grounded held advanced
      exact ⟨first ++ trees, unfolds'.append unfolds⟩

theorem Splits.not_lexeme {tag : Tag} {start stop : Nat} {derivation : Derivation}
    (split : chart.Splits grammar input tag start stop derivation) (offset : Nat) :
    tag ≠ .lexeme offset := by
  cases split with
  | empty => simp
  | @step waiting position =>
    obtain ⟨-, tag⟩ | ⟨-, tag⟩ := tagBehind_cases grammar position <;> simp [tag]

theorem Justified.splits {tag : Tag} {start stop : Nat} {derivation : Derivation}
    (justified : chart.Justified grammar input tag start stop (some derivation)) :
    chart.Splits grammar input tag start stop derivation := by
  cases justified with
  | split split => exact split

/-- What is entered can be unfolded, unless nothing has been matched. -/
theorem Justified.grounded (sound : chart.Sound grammar input) (more : chart.Extends larger)
    {ref : ItemRef} {tag : Tag} {start stop : Nat} {derivation : Option Derivation}
    (justified : chart.Justified grammar input tag start stop derivation)
    (held : larger.Holds ref tag start)
    (recorded : ∀ known ∈ derivation, known ∈ larger.derivations ref) (advanced : tag.Advanced) :
    ∃ trees, larger.Unfolds [ref] trees := by
  cases justified with
  | lexeme => exact ⟨_, .lexeme held .nil⟩
  | opening => exact absurd rfl advanced
  | split split =>
    obtain ⟨trees, unfolds⟩ := split.unfolds sound
    exact ⟨_, .wrap held split.not_lexeme (recorded _ rfl) (unfolds.mono more)⟩

theorem exists_holds {ref : ItemRef} {derivation : Derivation}
    (member : derivation ∈ chart.derivations ref) : ∃ tag start, chart.Holds ref tag start := by
  unfold derivations at member
  split at member
  · exact ⟨_, _, _, ‹_›, rfl, rfl⟩
  · simp at member

end Chart

section Enter

variable {α : Type} {setting : Setting α} {current : ItemSet} {input : Array String}

theorem Chart.Sound.put (valid : setting.grammar.WellFormed)
    (sound : (setting.chart current).Sound setting.grammar input) {tag : Tag} {start : Nat}
    {derivation : Option Derivation} (justified : (setting.chart current).Justified setting.grammar
      input tag start setting.offset derivation) :
    (setting.chart (current.put setting.grammar tag start derivation)).Sound
      setting.grammar input := by
  have inside : current ∈ (setting.chart current).sets := by simp [Setting.chart]
  have indexed := sound.indexed inside
  have more := Setting.extends_put indexed tag start derivation
  have held : (setting.chart (current.put setting.grammar tag start derivation)).Holds
      (setting.entry current tag start) tag start :=
    (Setting.holds_put indexed).mpr (.inr ⟨rfl, rfl, rfl⟩)
  refine ⟨?_, ?_, ?_, ?_, ?_⟩
  · intro set member
    rcases Array.mem_push.mp member with old | rfl
    · exact sound.indexed (Array.mem_push.mpr (.inl old))
    · exact indexed.put tag start derivation
  · intro set member
    rcases Array.mem_push.mp member with old | rfl
    · exact sound.distinct (Array.mem_push.mpr (.inl old))
    · exact (sound.distinct inside).put indexed tag start derivation
  · intro ref other first held'
    rcases (Setting.holds_put indexed).mp held' with old | ⟨rfl, rfl, rfl⟩
    · exact sound.placed old
    · exact justified.placed valid sound
  · intro ref other first known held' member
    rcases (Setting.mem_derivations_put indexed).mp member with old | ⟨rfl, rfl⟩
    · obtain ⟨tag', start', old'⟩ := Chart.exists_holds old
      obtain ⟨rfl, rfl⟩ := held'.unique (more.holds old')
      exact (sound.derived old' old).mono more.holds
    · obtain ⟨rfl, rfl⟩ := held'.unique held
      exact justified.splits.mono more.holds
  · intro ref other first held' advanced
    rcases (Setting.holds_put indexed).mp held' with old | ⟨rfl, rfl, rfl⟩
    · obtain ⟨trees, unfolds⟩ := sound.grounded old advanced
      exact ⟨trees, unfolds.mono more⟩
    · refine justified.grounded sound more held ?_ advanced
      rintro known rfl
      exact (Setting.mem_derivations_put indexed).mpr (.inr ⟨rfl, rfl⟩)

end Enter

end ChartParser
