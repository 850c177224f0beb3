import ChartParser.Proofs.Disambiguation
import ChartParser.Proofs.Grammar.TreeOrder

/-! The worklist by which derivations are compared, without a limit on how far down it goes. Where
nodes are settled, it empties, and gives the verdict that a limit by the number of items gives. -/
namespace ChartParser

open Relation

namespace Chart

/-- Comparing the pairs of a list ends with the verdict: either one of them is decided by its
productions, or they are all replaced by the pairs below them until none is left. -/
inductive Decides (chart : Chart) (prefer : Nat → Nat → Bool) :
    List (Derivation × Derivation) → Ordering → Prop
  | empty : Decides chart prefer [] .eq
  | decided (judged : Judges prefer first.production second.production verdict)
      (strict : verdict ≠ .eq) : Decides chart prefer ((first, second) :: pending) verdict
  | undecided (even : Judges prefer first.production second.production .eq)
      (rest : Decides chart prefer (chart.comparedPairs first second ++ pending) verdict) :
      Decides chart prefer ((first, second) :: pending) verdict

/-- The node and everything below it has one derivation at most, at most so many levels deep. -/
inductive Tapers (chart : Chart) : Nat → ItemRef → Prop
  | leaf (bare : chart.derivations ref = #[]) : Tapers chart height ref
  | node (sole : chart.derivations ref = #[derivation])
      (below : ∀ child ∈ derivation.children, Tapers chart height child) :
      Tapers chart (height + 1) ref

def Rests (chart : Chart) (depth : Nat) (derivation : Derivation) : Prop :=
  ∀ child ∈ derivation.children, chart.Tapers depth child

variable {chart : Chart} {first second : Derivation}

theorem Tapers.mono {height more : Nat} {ref : ItemRef} (deeper : height ≤ more)
    (tapers : chart.Tapers height ref) : chart.Tapers more ref := by
  induction tapers generalizing more with
  | leaf bare => exact .leaf bare
  | node sole below ih =>
    cases more with
    | zero => exact absurd deeper (Nat.not_succ_le_zero _)
    | succ more =>
      exact .node sole fun child listed => ih child listed (Nat.le_of_succ_le_succ deeper)

theorem Tapers.rests {depth : Nat} {ref : ItemRef} (tapers : chart.Tapers depth ref)
    {derivation : Derivation} (sole : chart.derivations ref = #[derivation]) :
    ∃ less < depth, chart.Rests less derivation := by
  cases tapers with
  | leaf bare =>
    rw [bare] at sole
    cases sole
  | node only below =>
    obtain rfl : _ = derivation := by simpa using only.symm.trans sole
    exact ⟨_, Nat.lt_succ_self _, below⟩

theorem Rests.pairs {depth : Nat} (here : chart.Rests depth first)
    (there : chart.Rests depth second) :
    ∀ pair ∈ chart.comparedPairs first second, ∃ less, depth = less + 1 ∧
      chart.Rests less pair.1 ∧ chart.Rests less pair.2 := by
  intro pair member
  obtain ⟨one, listed, other, listed', sole, sole'⟩ := mem_comparedPairs member
  obtain ⟨less, shallow, rests⟩ := (here one listed).rests sole
  obtain ⟨less', shallow', rests'⟩ := (there other listed').rests sole'
  refine ⟨depth - 1, by omega, fun child below => ?_, fun child below => ?_⟩
  · exact (rests child below).mono (by omega)
  · exact (rests' child below).mono (by omega)

/-- Where both derivations of every pair rest within the limit of the pair, the worklist empties
without meeting any limit. -/
theorem decides_comparePending (prefer : Nat → Nat → Bool)
    {pending : List (Nat × Derivation × Derivation)}
    (rests : ∀ entry ∈ pending, chart.Rests entry.1 entry.2.1 ∧ chart.Rests entry.1 entry.2.2) :
    chart.Decides prefer (pending.map Prod.snd) (chart.comparePending prefer pending) := by
  fun_induction comparePending chart prefer pending with
  | case1 => exact .empty
  | case2 first second pending even ih =>
    rw [List.forall_mem_cons] at rests
    have none : chart.comparedPairs first second = [] := by
      apply List.eq_nil_iff_forall_not_mem.mpr
      intro pair member
      obtain ⟨less, deeper, -⟩ := rests.1.1.pairs rests.1.2 pair member
      cases deeper
    apply Decides.undecided (judges_iff.mpr even)
    rw [none]
    exact ih rests.2
  | case3 first second pending even depth ih =>
    rw [List.forall_mem_cons] at rests
    apply Decides.undecided (judges_iff.mpr even)
    have rest := ih <| by
      intro entry member
      rcases List.mem_append.mp member with inner | outer
      · obtain ⟨pair, listed, rfl⟩ := List.mem_map.mp inner
        obtain ⟨less, deeper, here, there⟩ := rests.1.1.pairs rests.1.2 pair listed
        obtain rfl := Nat.succ.inj deeper
        exact ⟨here, there⟩
      · exact rests.2 entry outer
    rw [List.map_append, List.map_map] at rest
    change Decides _ _ (List.map id _ ++ _) _ at rest
    rwa [List.map_id] at rest
  | case4 depth first second pending decided =>
    exact .decided (judges_iff.mpr rfl) decided

theorem Rests.decides {depth : Nat} (here : chart.Rests depth first)
    (there : chart.Rests depth second) (prefer : Nat → Nat → Bool) :
    chart.Decides prefer [(first, second)] (chart.compare prefer depth first second) := by
  have rests : ∀ entry ∈ [(depth, first, second)],
      chart.Rests entry.1 entry.2.1 ∧ chart.Rests entry.1 entry.2.2 := by
    intro entry listed
    obtain rfl := List.mem_singleton.mp listed
    exact ⟨here, there⟩
  exact decides_comparePending prefer rests

/-- The nodes on a way down to one that has children are items other than that node, unless it is
its own descendant. -/
theorem Acyclic.length_lt_itemCount {ref : ItemRef} (acyclic : chart.Acyclic ref)
    {derivation : Derivation} (member : derivation ∈ chart.derivations ref) {path : List ItemRef}
    (distinct : path.Nodup) (above : ∀ node ∈ path, TransGen chart.Child node ref) :
    path.length < chart.itemCount := by
  have aside : ref ∉ path := fun listed => acyclic ref .refl (above ref listed)
  apply length_le_itemCount (List.nodup_cons.mpr ⟨aside, distinct⟩)
  intro node listed
  apply holds_iff_item.mp
  rcases List.mem_cons.mp listed with rfl | listed
  · exact exists_holds member
  · obtain ⟨child, ⟨other, member', -⟩, -⟩ := TransGen.head'_iff.mp (above node listed)
    exact exists_holds member'

/-- Where no node has several derivations or is its own descendant, there are no more levels than
items. -/
theorem Narrow.tapers {ref : ItemRef} (narrow : chart.Narrow ref) (acyclic : chart.Acyclic ref) :
    chart.Tapers chart.itemCount ref := by
  -- the levels that are left are as many as the items that are not on the way down to the node
  have descend (levels : Nat) : ∀ {ref : ItemRef} (path : List ItemRef), chart.Narrow ref →
      chart.Acyclic ref → path.Nodup → (∀ node ∈ path, TransGen chart.Child node ref) →
      chart.itemCount ≤ levels + path.length → chart.Tapers levels ref := by
    induction levels with
    | zero =>
      intro ref path narrow acyclic distinct above few
      refine .leaf (Array.eq_empty_iff_forall_not_mem.mpr fun derivation member => ?_)
      have room := acyclic.length_lt_itemCount member distinct above
      omega
    | succ levels ih =>
      intro ref path narrow acyclic distinct above few
      by_cases bare : chart.derivations ref = #[]
      · exact .leaf bare
      obtain ⟨derivation, member⟩ := Array.exists_mem_of_ne_empty _ bare
      have sole := sole_of_mem member (Nat.not_lt.mpr (narrow ref .refl))
      have aside : ref ∉ path := fun listed => acyclic ref .refl (above ref listed)
      refine .node sole fun child listed => ?_
      have below : chart.Child ref child := ⟨derivation, member, listed⟩
      refine ih (ref :: path) (narrow.child below) (acyclic.child below)
        (List.nodup_cons.mpr ⟨aside, distinct⟩) (fun node among => ?_) ?_
      · rcases List.mem_cons.mp among with rfl | among
        · exact .single below
        · exact (above node among).tail below
      · rw [List.length_cons]
        omega
  exact descend _ [] narrow acyclic .nil (fun _ listed => absurd listed List.not_mem_nil) le_rfl

end Chart

namespace Resolution

variable {resolution : Resolution} {chart : Chart} {first second : Derivation}

theorem Settled.tapers {height : Nat} {ref : ItemRef} (settled : resolution.Settled height ref) :
    resolution.chart.Tapers height ref := by
  induction settled with
  | leaf done bare => exact .leaf bare
  | node done sole below ih => exact .node sole ih

theorem Settling.rests (settling : Settling chart resolution) {derivation : Derivation}
    (built : resolution.Built derivation) : resolution.chart.Rests chart.itemCount derivation :=
  fun child listed => ((settling.settled (built child listed)).mono (Nat.sub_le _ _)).tapers

theorem Settling.decides (settling : Settling chart resolution) (here : resolution.Built first)
    (there : resolution.Built second) (prefer : Nat → Nat → Bool) :
    resolution.chart.Decides prefer [(first, second)]
      (resolution.chart.compare prefer chart.itemCount first second) :=
  (settling.rests here).decides (settling.rests there) prefer

end Resolution

end ChartParser
