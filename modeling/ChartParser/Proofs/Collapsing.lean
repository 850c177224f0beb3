import ChartParser.Proofs.Disambiguation
import ChartParser.Proofs.Forest.Underway
import ChartParser.Proofs.Packing
import ChartParser.Proofs.Traversal.State

namespace ChartParser

namespace Chart

theorem span_skeleton (chart : Chart) (ref : ItemRef) :
    (chart.skeleton.item? ref).map (fun item => (item.tag, item.start)) =
      (chart.item? ref).map fun item => (item.tag, item.start) := by
  rw [item?, sets_skeleton, item?]
  cases chart.sets[ref.set]? with
  | none => rfl
  | some set => simp [ItemSet.skeleton, Function.comp_def]

theorem find_skeleton (chart : Chart) (tag : Tag) (first stop : Nat) :
    chart.skeleton.find? tag first stop = chart.find? tag first stop := by
  rw [find?, sets_skeleton, find?]
  cases chart.sets[stop]? <;> rfl

end Chart

namespace Resolution

open Traversal

variable {chart : Chart} {prefer : Nat → Nat → Bool} {resolution next : Resolution} {root : ItemRef}

/-- The number of collapsed nodes is that of the resolved nodes with several derivations. -/
def Tallied (chart : Chart) (resolution : Resolution) : Prop :=
  ∃ collapsed : List ItemRef, collapsed.Nodup ∧ collapsed.length = resolution.collapsed ∧
    ∀ ref, ref ∈ collapsed ↔
      resolution.resolved.contains ref = true ∧ 1 < (chart.derivations ref).size

theorem Tallied.mark (tallied : Tallied chart resolution) {ref : ItemRef}
    (few : ¬ 1 < (chart.derivations ref).size)
    (marked : next.resolved = resolution.resolved.insert ref)
    (same : next.collapsed = resolution.collapsed) : Tallied chart next := by
  obtain ⟨collapsed, distinct, size, listed⟩ := tallied
  refine ⟨collapsed, distinct, size.trans same.symm, fun other => (listed other).trans ?_⟩
  rw [marked, Marks.contains_insert]
  by_cases here : ref = other
  · subst here
    simp [few]
  · simp [here]

theorem Tallied.enter (settling : Settling chart resolution) (tallied : Tallied chart resolution)
    (ref : ItemRef) : Tallied chart (resolution.enter ref).1 := by
  cases done : resolution.resolved.contains ref with
  | true =>
    rw [enter_done done]
    exact tallied
  | false =>
    by_cases bare : resolution.chart.derivations ref = #[]
    · rw [enter_bare done bare]
      have none := (settling.untouched done).symm.trans bare
      exact tallied.mark (by simp [none]) rfl rfl
    · rw [enter_opened done bare]
      exact tallied

/-- Leaving an unresolved node with its best derivation collapses it if it has several. -/
theorem Tallied.leave (settling : Settling chart resolution) (tallied : Tallied chart resolution)
    {ref : ItemRef} (known : (chart.item? ref).isSome = true)
    (unresolved : resolution.resolved.contains ref = false) {contest : Contest}
    (wide : contest.several = decide (1 < (chart.derivations ref).size)) :
    Tallied chart (resolution.leave ref contest).1 := by
  unfold Resolution.leave
  cases won : contest.best with
  | none => exact tallied
  | some best =>
    cases several : contest.several with
    | false => exact tallied.mark (of_decide_eq_false (wide.symm.trans several)) rfl rfl
    | true =>
      obtain ⟨collapsed, distinct, size, listed⟩ := tallied
      have absent : ref ∉ collapsed := by
        rw [listed, unresolved]
        simp
      refine ⟨ref :: collapsed, List.nodup_cons.mpr ⟨absent, distinct⟩, by simp [size], ?_⟩
      intro other
      change _ ↔ (resolution.resolved.insert ref).contains other = true ∧ _
      rw [List.mem_cons, listed, Marks.contains_insert_iff ((settling.flags ref).trans known)]
      constructor
      · rintro (rfl | ⟨done, several⟩)
        · exact ⟨.inl rfl, of_decide_eq_true (wide.symm.trans several)⟩
        · exact ⟨.inr done, several⟩
      · rintro ⟨rfl | done, several⟩
        · exact .inl rfl
        · exact .inr ⟨done, several⟩

theorem Underway.tallied {config : Config Resolution ItemRef Derivation Contest Unit}
    {depth : Nat} (underway : Underway chart root config) (tallied : Tallied chart config.state)
    {after : Resolution} (left : ((traversal prefer depth).step config).state? = some after) :
    Tallied chart after := by
  rcases step_state left with rfl | ⟨child, -, arrival, entered⟩ |
    ⟨frame, around, open', ⟨derivation, held, accepted⟩ | ⟨result, leaves⟩⟩
  · exact tallied
  · obtain rfl := congrArg Prod.fst (Except.ok.inj entered)
    exact tallied.enter underway.settling child
  · obtain rfl := congrArg Prod.fst (Except.ok.inj accepted)
    exact tallied
  · obtain rfl := congrArg Prod.fst (Except.ok.inj leaves)
    have nested := underway.nested
    rw [open'] at nested
    have unresolved := underway.unresolved frame (open' ▸ List.mem_cons_self)
    exact tallied.leave underway.settling nested.1.asked unresolved nested.1.held.1

theorem Progress.pruned (progress : Progress chart prefer resolution) (ref : ItemRef) :
    resolution.chart.derivations ref = chart.derivations ref ∨
      ∃ kept ∈ chart.derivations ref, resolution.chart.derivations ref = #[kept] := by
  cases done : resolution.resolved.contains ref with
  | false => exact .inl (progress.untouched done)
  | true =>
    rcases progress.kept done with ⟨bare, same⟩ | ⟨kept, sole, -⟩
    · exact .inl (same.trans bare.symm)
    · have member : kept ∈ resolution.chart.derivations ref := by simp [sole]
      exact .inr ⟨kept, progress.extends.derivations member, sole⟩

/-- The items that change are the resolved ones with several derivations. -/
theorem Progress.changed_iff (progress : Progress chart prefer resolution) {ref : ItemRef} :
    resolution.chart.derivations ref ≠ chart.derivations ref ↔
      resolution.resolved.contains ref = true ∧ 1 < (chart.derivations ref).size := by
  constructor
  · intro changed
    rcases progress.pruned ref with same | ⟨kept, member, sole⟩
    · exact absurd same changed
    · refine ⟨?_, ?_⟩
      · by_contra unresolved
        exact changed (progress.untouched (Bool.eq_false_iff.mpr unresolved))
      · by_contra few
        exact changed (sole.trans (Chart.sole_of_mem member few).symm)
  · rintro ⟨done, several⟩ same
    have few := (progress.settled done).size_le
    rw [same] at few
    omega

end Resolution

namespace Forest

open Relation Resolution

variable {α : Type} {grammar : Grammar α} {input : Array String} {start : Nat} {forest : Forest}

theorem tallied_resolve (closed : forest.chart.Closed)
    (known : (forest.chart.item? forest.root).isSome = true) (prefer : Nat → Nat → Bool) :
    Tallied forest.chart (forest.resolve prefer).1 := by
  have settling := (Progress.start forest.chart prefer).settling
  have nothing : Tallied forest.chart ⟨forest.chart, forest.chart.marks, 0⟩ :=
    ⟨[], List.nodup_nil, rfl, fun ref => by simp [Chart.contains_marks]⟩
  refine Traversal.traverse_keeps nothing ?_ ?_ (forest.traverse_eq_resolve prefer)
  · intro after arrival entered
    obtain rfl := congrArg Prod.fst (Except.ok.inj entered)
    exact nothing.enter settling forest.root
  · intro config after reached tallied left
    exact (Underway.reaches closed known reached).tallied tallied left

/-- Disambiguation only prunes. The root stays, and so do the sets with their look-ups and all items
with their tags and starts. An item keeps its derivations, or is left with one of them, and this
happens only to items below the root that have several. The number reported is that of the items of
which the derivations have changed. -/
theorem disambiguate_prunes {draft : Draft α} {range : IndexRange}
    (built : draft.build range = .ok grammar)
    (success : (grammar.parse start input).2 = .ok forest) (prefer : Nat → Nat → Bool) :
    let after := (forest.disambiguate prefer).1
    after.root = forest.root ∧
    after.chart.skeleton = forest.chart.skeleton ∧
    (∀ ref, (after.chart.item? ref).map (fun item => (item.tag, item.start)) =
      (forest.chart.item? ref).map fun item => (item.tag, item.start)) ∧
    (∀ tag first stop, after.chart.find? tag first stop = forest.chart.find? tag first stop) ∧
    (∀ ref, after.chart.derivations ref = forest.chart.derivations ref ∨
      ∃ kept ∈ forest.chart.derivations ref, after.chart.derivations ref = #[kept]) ∧
    (∀ ref, after.chart.derivations ref ≠ forest.chart.derivations ref →
      ReflTransGen forest.chart.Child forest.root ref ∧
        1 < (forest.chart.derivations ref).size) ∧
    ∃ changed : List ItemRef, changed.Nodup ∧
      (∀ ref, ref ∈ changed ↔
        after.chart.derivations ref ≠ forest.chart.derivations ref) ∧
      (forest.disambiguate prefer).2 = .disambiguated changed.length := by
  have parsed := Grammar.parsed_of_parse (Draft.build_wellFormed built) success
  have known := Chart.holds_iff_item.mp ⟨_, _, parsed.root⟩
  obtain ⟨resolution, resolved, left, progress, -⟩ := parsed.disambiguate prefer
  have reported : (forest.disambiguate prefer).2 = .disambiguated resolution.collapsed := by
    rw [Forest.disambiguate, resolved]
  rw [left, reported]
  refine ⟨rfl, progress.skeleton, fun ref => ?_, fun tag first stop => ?_, progress.pruned,
    fun ref changed => ?_, ?_⟩
  · rw [← Chart.span_skeleton, progress.skeleton, Chart.span_skeleton]
  · rw [← Chart.find_skeleton, progress.skeleton, Chart.find_skeleton]
  · refine ⟨?_, (progress.changed_iff.mp changed).2⟩
    apply forest.reaches_of_changed prefer
    rw [resolved]
    exact changed
  · have tallied := tallied_resolve parsed.filled.sound.closed known prefer
    rw [resolved] at tallied
    obtain ⟨collapsed, distinct, size, listed⟩ := tallied
    refine ⟨collapsed, distinct, fun ref => ?_, by rw [size]⟩
    rw [listed, progress.changed_iff]

end Forest

/-- A sum of three is left with one of its two derivations, and this is counted. -/
theorem Forest.disambiguate_prunes_sums :
    ∃ forest, ((Draft.sums.number .bits8).parse 0 #["x", "+", "x", "+", "x"]).2 = .ok forest ∧
      ∃ kept ∈ forest.chart.derivations forest.root,
        ((forest.disambiguate fun _ _ => true).1).chart.derivations forest.root = #[kept] ∧
        ∃ changed : List ItemRef, forest.root ∈ changed ∧ changed.Nodup ∧
          (forest.disambiguate fun _ _ => true).2 = .disambiguated changed.length := by
  obtain ⟨forest, success, several, -⟩ := Draft.parse_sums
  have parsed := Grammar.parsed_of_parse (Draft.build_wellFormed Draft.build_sums) success
  obtain ⟨root, -, -, -, pruned, -, changed, distinct, listed, reported⟩ :=
    Forest.disambiguate_prunes Draft.build_sums success fun _ _ => true
  have few := (parsed.single_left fun _ _ => true).1 _ .refl
  rw [root] at few
  have apart : ((forest.disambiguate fun _ _ => true).1).chart.derivations forest.root ≠
      forest.chart.derivations forest.root := by
    intro same
    rw [same] at few
    omega
  obtain ⟨kept, member, sole⟩ := (pruned forest.root).resolve_left apart
  exact ⟨forest, success, kept, member, sole, changed, (listed _).mpr apart, distinct, reported⟩

end ChartParser
