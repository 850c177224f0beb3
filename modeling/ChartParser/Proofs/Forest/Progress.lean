import ChartParser.Forest.Disambiguate
import ChartParser.Proofs.Forest.Nodes
import ChartParser.Proofs.Traversal.Recursion

/-! What holds of a forest while its nodes are being resolved: those that have been resolved are
built of resolved ones and never change again, and the others are as they were. -/
namespace ChartParser

/-- The better of two derivations, the later one if it wins. -/
def challenge (better : Derivation → Derivation → Bool) (best : Option Derivation)
    (candidate : Derivation) : Option Derivation :=
  match best with
  | none => some candidate
  | some best => if better candidate best then some candidate else some best

/-- The derivation that is left when all candidates have challenged the best one so far. -/
def elect (better : Derivation → Derivation → Bool) (candidates : List Derivation) :
    Option Derivation :=
  candidates.foldl (challenge better) none

theorem elect_append (better : Derivation → Derivation → Bool) (candidates : List Derivation)
    (candidate : Derivation) : elect better (candidates ++ [candidate]) =
      challenge better (elect better candidates) candidate := by
  rw [elect, List.foldl_append]
  rfl

theorem challenge_mem {better : Derivation → Derivation → Bool} {best : Option Derivation}
    {candidate winner : Derivation} (won : challenge better best candidate = some winner) :
    winner = candidate ∨ best = some winner := by
  unfold challenge at won
  split at won
  · exact .inl (Option.some.inj won).symm
  · split at won
    · exact .inl (Option.some.inj won).symm
    · exact .inr (congrArg some (Option.some.inj won))

theorem elect_mem {better : Derivation → Derivation → Bool} {candidates : List Derivation}
    {winner : Derivation} (won : elect better candidates = some winner) : winner ∈ candidates := by
  induction candidates using List.reverseRecOn with
  | nil => cases won
  | append_singleton candidates candidate ih =>
    rw [elect_append] at won
    rcases challenge_mem won with rfl | before
    · exact List.mem_append_right _ (List.mem_singleton_self _)
    · exact List.mem_append_left _ (ih before)

theorem elect_congr {better other : Derivation → Derivation → Bool} {candidates : List Derivation}
    (same : ∀ first ∈ candidates, ∀ second ∈ candidates, better first second = other first second) :
    elect better candidates = elect other candidates := by
  induction candidates using List.reverseRecOn with
  | nil => rfl
  | append_singleton candidates candidate ih =>
    rw [elect_append, elect_append, ih fun first member second member' =>
      same first (List.mem_append_left _ member) second (List.mem_append_left _ member')]
    cases won : elect other candidates with
    | none => rfl
    | some best =>
      have member := List.mem_append_left [candidate] (elect_mem won)
      simp only [challenge, same candidate (by simp) best member]

theorem isSome_challenge (better : Derivation → Derivation → Bool) (best : Option Derivation)
    (candidate : Derivation) : (challenge better best candidate).isSome = true := by
  cases best with
  | none => rfl
  | some best =>
    simp only [challenge]
    split <;> rfl

theorem isSome_elect (better : Derivation → Derivation → Bool) {candidates : List Derivation}
    {candidate : Derivation} (member : candidate ∈ candidates) :
    (elect better candidates).isSome = true := by
  induction candidates using List.reverseRecOn with
  | nil => cases member
  | append_singleton candidates last =>
    rw [elect_append]
    exact isSome_challenge _ _ _

/-- All candidates are below the elected one, in a relation that goes on from the best one so far to
one that beats it, and that holds between one that does not beat it and the best one so far. -/
theorem elect_bounds (below : Derivation → Derivation → Prop)
    {better : Derivation → Derivation → Bool} {candidates : List Derivation}
    (refl : ∀ candidate ∈ candidates, below candidate candidate)
    (climbs : ∀ first ∈ candidates, ∀ second ∈ candidates, ∀ third ∈ candidates,
      below first second → better third second = true → below first third)
    (loses : ∀ first ∈ candidates, ∀ second ∈ candidates,
      better first second = false → below first second)
    {winner : Derivation} (won : elect better candidates = some winner) :
    ∀ candidate ∈ candidates, below candidate winner := by
  induction candidates using List.reverseRecOn generalizing winner with
  | nil => exact fun _ member => absurd member List.not_mem_nil
  | append_singleton candidates last ih =>
    have inside {candidate : Derivation} (member : candidate ∈ candidates) :
        candidate ∈ candidates ++ [last] := List.mem_append_left _ member
    have ending : last ∈ candidates ++ [last] := List.mem_append_right _ (List.mem_singleton_self _)
    intro candidate member
    rw [elect_append] at won
    cases elected : elect better candidates with
    | none =>
      rw [elected] at won
      obtain rfl := Option.some.inj won
      rcases List.mem_append.mp member with before | here
      · have some := isSome_elect better before
        rw [elected] at some
        cases some
      · rw [List.mem_singleton.mp here]
        exact refl last ending
    | some best =>
      have unbeaten := ih (fun candidate member => refl candidate (inside member))
        (fun first member second member' third member'' =>
          climbs first (inside member) second (inside member') third (inside member''))
        (fun first member second member' => loses first (inside member) second (inside member'))
        elected
      have listed := inside (elect_mem elected)
      rw [elected, challenge] at won
      split at won
      · rename_i wins
        obtain rfl := Option.some.inj won
        rcases List.mem_append.mp member with before | here
        · exact climbs candidate member best listed last ending (unbeaten candidate before) wins
        · rw [List.mem_singleton.mp here]
          exact refl last ending
      · rename_i beaten
        obtain rfl := Option.some.inj won
        rcases List.mem_append.mp member with before | here
        · exact unbeaten candidate before
        · rw [List.mem_singleton.mp here]
          exact loses last ending best listed (Bool.eq_false_iff.mpr beaten)

/-- No candidate is better than the elected one, if whatever is not better than a derivation is not
better than one that beats it either. -/
theorem elect_best {better : Derivation → Derivation → Bool} {candidates : List Derivation}
    (irrefl : ∀ candidate ∈ candidates, better candidate candidate = false)
    (climbs : ∀ first ∈ candidates, ∀ second ∈ candidates, ∀ third ∈ candidates,
      better first second = false → better third second = true → better first third = false)
    {winner : Derivation} (won : elect better candidates = some winner) :
    ∀ candidate ∈ candidates, better candidate winner = false :=
  elect_bounds (fun first second => better first second = false) irrefl climbs
    (fun _ _ _ _ => id) won

namespace Chart

theorem comparePending_cons (chart : Chart) (wanted : Nat → Nat → Bool) (depth : Nat)
    (first second : Derivation) (pending : List (Nat × Derivation × Derivation)) :
    chart.comparePending wanted ((depth, first, second) :: pending) =
      (comparePreference wanted first.production second.production).then
        (match depth with
        | 0 => chart.comparePending wanted pending
        | depth + 1 => chart.comparePending wanted
          ((chart.comparedPairs first second).map (fun pair => (depth, pair)) ++ pending)) := by
  rw [comparePending.eq_def]
  cases preference : comparePreference wanted first.production second.production with
  | eq => cases depth <;> simp only [preference, Ordering.then]
  | lt => simp only [preference, Ordering.then]
  | gt => simp only [preference, Ordering.then]

theorem mem_comparedPairs {chart : Chart} {first second : Derivation}
    {pair : Derivation × Derivation} (member : pair ∈ chart.comparedPairs first second) :
    ∃ one ∈ first.children, ∃ other ∈ second.children,
      chart.derivations one = #[pair.1] ∧ chart.derivations other = #[pair.2] := by
  have sole {one other : Option ItemRef}
      (compared : pair ∈ (chart.comparedPair one other).toList) :
      ∃ here ∈ one, ∃ there ∈ other,
        chart.derivations here = #[pair.1] ∧ chart.derivations there = #[pair.2] := by
    rw [Option.mem_toList] at compared
    unfold comparedPair at compared
    split at compared
    · split at compared
      · cases compared
      · split at compared
        · rename_i here there _ _ _ first' second' sole sole'
          cases compared
          exact ⟨here, rfl, there, rfl, sole_eq_some_iff.mp sole, sole_eq_some_iff.mp sole'⟩
        · cases compared
    · cases compared
  rcases List.mem_append.mp member with left | right
  · obtain ⟨one, here, other, there, found⟩ := sole left
    exact ⟨one, List.mem_append_left _ (Option.mem_toList.mpr here), other,
      List.mem_append_left _ (Option.mem_toList.mpr there), found⟩
  · obtain ⟨one, here, other, there, found⟩ := sole right
    exact ⟨one, List.mem_append_right _ (Option.mem_toList.mpr here), other,
      List.mem_append_right _ (Option.mem_toList.mpr there), found⟩

end Chart

namespace Resolution

variable {chart : Chart} {prefer : Nat → Nat → Bool} {resolution next last : Resolution}

/-- Has everything that the derivation is built of been resolved? -/
def Built (resolution : Resolution) (derivation : Derivation) : Prop :=
  ∀ child ∈ derivation.children, resolution.resolved.contains child = true

/-- The node and everything below it has been resolved, at most so many levels deep. -/
inductive Settled (resolution : Resolution) : Nat → ItemRef → Prop
  | leaf (done : resolution.resolved.contains ref = true)
      (bare : resolution.chart.derivations ref = #[]) : Settled resolution height ref
  | node (done : resolution.resolved.contains ref = true)
      (sole : resolution.chart.derivations ref = #[derivation])
      (below : ∀ child ∈ derivation.children, Settled resolution height child) :
      Settled resolution (height + 1) ref

/-- The comparison by which the better one of two derivations is found. -/
def better (resolution : Resolution) (prefer : Nat → Nat → Bool) (depth : Nat)
    (first second : Derivation) : Bool :=
  resolution.chart.compare prefer depth first second = .gt

/-- Some derivations of a node have been tried, and the best one is elected among those that are
built of resolved nodes. These are all, unless a node below is its own descendant, and those with
the same children have all been taken or all been left. -/
def Contested (chart : Chart) (prefer : Nat → Nat → Bool) (resolution : Resolution)
    (ref : ItemRef) (tried : List Derivation) (best : Option Derivation) : Prop :=
  ∃ survivors, survivors.Sublist tried ∧
    (∀ derivation ∈ survivors, resolution.Built derivation) ∧
    (chart.Acyclic ref → survivors = tried) ∧
    (∀ derivation ∈ survivors, ∀ other ∈ tried, other.children = derivation.children →
      other ∈ survivors) ∧
    elect (resolution.better prefer chart.itemCount) survivors = best

def Elected (chart : Chart) (prefer : Nat → Nat → Bool) (resolution : Resolution) (ref : ItemRef)
    (kept : Derivation) : Prop :=
  Contested chart prefer resolution ref (chart.derivations ref).toList (some kept)

/-- How far the nodes of this chart have been resolved. -/
structure Progress (chart : Chart) (prefer : Nat → Nat → Bool) (resolution : Resolution) :
    Prop where
  skeleton : resolution.chart.skeleton = chart.skeleton
  flags : ∀ ref, (resolution.resolved.flag? ref).isSome = (chart.item? ref).isSome
  free : resolution.resolved.freeCount ≤ chart.itemCount
  untouched : ∀ {ref}, resolution.resolved.contains ref = false →
    resolution.chart.derivations ref = chart.derivations ref
  settled : ∀ {ref}, resolution.resolved.contains ref = true →
    resolution.Settled (chart.itemCount - resolution.resolved.freeCount) ref
  kept : ∀ {ref}, resolution.resolved.contains ref = true →
    (chart.derivations ref = #[] ∧ resolution.chart.derivations ref = #[]) ∨
    ∃ kept, resolution.chart.derivations ref = #[kept] ∧
      Elected chart prefer resolution ref kept

/-- How far the nodes of this chart have been resolved, whatever was elected for them. -/
structure Settling (chart : Chart) (resolution : Resolution) : Prop where
  skeleton : resolution.chart.skeleton = chart.skeleton
  flags : ∀ ref, (resolution.resolved.flag? ref).isSome = (chart.item? ref).isSome
  free : resolution.resolved.freeCount ≤ chart.itemCount
  untouched : ∀ {ref}, resolution.resolved.contains ref = false →
    resolution.chart.derivations ref = chart.derivations ref
  settled : ∀ {ref}, resolution.resolved.contains ref = true →
    resolution.Settled (chart.itemCount - resolution.resolved.freeCount) ref

theorem Progress.settling (progress : Progress chart prefer resolution) :
    Settling chart resolution :=
  ⟨progress.skeleton, progress.flags, progress.free, progress.untouched, progress.settled⟩

theorem Progress.holds (progress : Progress chart prefer resolution) {ref : ItemRef} {tag : Tag}
    {start : Nat} : resolution.chart.Holds ref tag start ↔ chart.Holds ref tag start := by
  rw [← Chart.holds_skeleton, progress.skeleton, Chart.holds_skeleton]

/-- What has been resolved stays as it is. -/
structure Later (resolution next : Resolution) : Prop where
  resolved : ∀ {ref}, resolution.resolved.contains ref = true → next.resolved.contains ref = true
  derivations : ∀ {ref}, resolution.resolved.contains ref = true →
    next.chart.derivations ref = resolution.chart.derivations ref

theorem Later.refl (resolution : Resolution) : resolution.Later resolution := ⟨id, fun _ => rfl⟩

theorem Later.trans (first : resolution.Later next) (second : next.Later last) :
    resolution.Later last :=
  ⟨fun done => second.resolved (first.resolved done),
    fun done => (second.derivations (first.resolved done)).trans (first.derivations done)⟩

theorem Built.later {derivation : Derivation} (later : resolution.Later next)
    (built : resolution.Built derivation) : next.Built derivation :=
  fun child listed => later.resolved (built child listed)

theorem Settled.mono {height more : Nat} {ref : ItemRef} (deeper : height ≤ more)
    (settled : resolution.Settled height ref) : resolution.Settled more ref := by
  induction settled generalizing more with
  | leaf done bare => exact .leaf done bare
  | node done sole below ih =>
    cases more with
    | zero => exact absurd deeper (Nat.not_succ_le_zero _)
    | succ more =>
      exact .node done sole fun child listed => ih child listed (Nat.le_of_succ_le_succ deeper)

theorem Settled.done {height : Nat} {ref : ItemRef} (settled : resolution.Settled height ref) :
    resolution.resolved.contains ref = true := by
  cases settled with
  | leaf done => exact done
  | node done => exact done

theorem Settled.later {height : Nat} {ref : ItemRef} (later : resolution.Later next)
    (settled : resolution.Settled height ref) : next.Settled height ref := by
  induction settled with
  | leaf done bare => exact .leaf (later.resolved done) ((later.derivations done).trans bare)
  | node done sole below ih =>
    exact .node (later.resolved done) ((later.derivations done).trans sole) ih

theorem Settled.built {height : Nat} {ref : ItemRef} (settled : resolution.Settled height ref)
    {derivation : Derivation} (member : derivation ∈ resolution.chart.derivations ref) :
    resolution.Built derivation := by
  cases settled with
  | leaf done bare =>
    rw [bare] at member
    exact absurd member (Array.not_mem_empty _)
  | node done sole below =>
    rw [sole, Array.mem_singleton] at member
    rw [member]
    exact fun child listed => (below child listed).done

section Comparison

theorem comparedPair_later (later : resolution.Later next) {first second : Option ItemRef}
    (here : ∀ ref ∈ first, resolution.resolved.contains ref = true)
    (there : ∀ ref ∈ second, resolution.resolved.contains ref = true) :
    next.chart.comparedPair first second = resolution.chart.comparedPair first second := by
  have sole {ref : ItemRef} (done : resolution.resolved.contains ref = true) :
      next.chart.sole? ref = resolution.chart.sole? ref := by
    apply Option.ext
    intro derivation
    rw [Chart.sole_eq_some_iff, Chart.sole_eq_some_iff, later.derivations done]
  cases first with
  | none => rfl
  | some first =>
    cases second with
    | none => rfl
    | some second =>
      simp only [Chart.comparedPair, sole (here first rfl), sole (there second rfl)]

private theorem built_left {derivation : Derivation} (built : resolution.Built derivation) :
    ∀ ref ∈ derivation.left, resolution.resolved.contains ref = true :=
  fun ref member => built ref (List.mem_append_left _ (Option.mem_toList.mpr member))

private theorem built_right {derivation : Derivation} (built : resolution.Built derivation) :
    ∀ ref ∈ derivation.right, resolution.resolved.contains ref = true :=
  fun ref member => built ref (List.mem_append_right _ (Option.mem_toList.mpr member))

theorem built_comparedPairs (settling : Settling chart resolution) {first second : Derivation}
    (here : resolution.Built first) (there : resolution.Built second) :
    ∀ pair ∈ resolution.chart.comparedPairs first second,
      resolution.Built pair.1 ∧ resolution.Built pair.2 := by
  intro pair member
  obtain ⟨one, listed, other, listed', sole, sole'⟩ := Chart.mem_comparedPairs member
  have built {ref : ItemRef} {derivation : Derivation}
      (done : resolution.resolved.contains ref = true)
      (sole : resolution.chart.derivations ref = #[derivation]) : resolution.Built derivation := by
    apply (settling.settled done).built
    rw [sole]
    exact Array.mem_singleton.mpr rfl
  exact ⟨built (here one listed) sole, built (there other listed') sole'⟩

/-- Comparisons of what is built of resolved nodes never change again. -/
theorem comparePending_later (settling : Settling chart resolution)
    (later : resolution.Later next) (wanted : Nat → Nat → Bool)
    {pending : List (Nat × Derivation × Derivation)}
    (built : ∀ entry ∈ pending, resolution.Built entry.2.1 ∧ resolution.Built entry.2.2) :
    next.chart.comparePending wanted pending = resolution.chart.comparePending wanted pending := by
  fun_induction Chart.comparePending resolution.chart wanted pending with
  | case1 => simp [Chart.comparePending]
  | case2 first second rest equal ih =>
    have later' := ih fun entry member => built entry (by simp [member])
    rw [Chart.comparePending_cons, equal]
    exact later'
  | case3 first second rest equal depth ih =>
    obtain ⟨here, there⟩ := built _ List.mem_cons_self
    have pairs : next.chart.comparedPairs first second =
        resolution.chart.comparedPairs first second := by
      rw [Chart.comparedPairs, Chart.comparedPairs,
        comparedPair_later later (built_left here) (built_left there),
        comparedPair_later later (built_right here) (built_right there)]
    rw [Chart.comparePending_cons, equal, pairs]
    apply ih
    intro entry member
    rcases List.mem_append.mp member with inner | rest
    · obtain ⟨pair, listed, rfl⟩ := List.mem_map.mp inner
      exact built_comparedPairs settling here there pair listed
    · exact built entry (by simp [rest])
  | case4 depth first second rest decided =>
    rw [Chart.comparePending_cons]
    cases preference : comparePreference wanted first.production second.production with
    | eq => exact absurd preference decided
    | lt => rfl
    | gt => rfl

theorem compare_later (settling : Settling chart resolution) (later : resolution.Later next)
    {first second : Derivation} (here : resolution.Built first) (there : resolution.Built second)
    (wanted : Nat → Nat → Bool) (depth : Nat) :
    next.chart.compare wanted depth first second =
      resolution.chart.compare wanted depth first second := by
  apply comparePending_later settling later
  intro entry member
  obtain rfl := List.mem_singleton.mp member
  exact ⟨here, there⟩

theorem better_later (settling : Settling chart resolution) (later : resolution.Later next)
    {first second : Derivation} (here : resolution.Built first) (there : resolution.Built second)
    (depth : Nat) :
    next.better prefer depth first second = resolution.better prefer depth first second := by
  unfold better
  rw [compare_later settling later here there]

/-- An election among derivations that are built of resolved nodes is not changed later. -/
theorem elect_later (settling : Settling chart resolution) (later : resolution.Later next)
    (depth : Nat) {survivors : List Derivation}
    (built : ∀ derivation ∈ survivors, resolution.Built derivation) :
    elect (next.better prefer depth) survivors = elect (resolution.better prefer depth) survivors :=
  elect_congr fun first member second member' =>
    better_later settling later (built first member) (built second member') depth

theorem Contested.later (progress : Progress chart prefer resolution)
    (later : resolution.Later next) {ref : ItemRef} {tried : List Derivation}
    {best : Option Derivation} (contested : Contested chart prefer resolution ref tried best) :
    Contested chart prefer next ref tried best := by
  obtain ⟨survivors, among, built, all, together, won⟩ := contested
  exact ⟨survivors, among, fun derivation member => (built derivation member).later later, all,
    together, (elect_later progress.settling later chart.itemCount built).trans won⟩

end Comparison

theorem Progress.start (chart : Chart) (prefer : Nat → Nat → Bool) :
    Progress chart prefer ⟨chart, chart.marks, 0⟩ where
  skeleton := rfl
  flags := Chart.isSome_flag_marks
  free := Nat.le_of_eq Chart.freeCount_marks
  untouched _ := rfl
  settled done := by
    rw [Chart.contains_marks] at done
    cases done
  kept done := by
    rw [Chart.contains_marks] at done
    cases done

theorem Settling.mark (settling : Settling chart resolution) {ref : ItemRef} (next : Resolution)
    (known : (chart.item? ref).isSome = true)
    (unresolved : resolution.resolved.contains ref = false)
    (marked : next.resolved = resolution.resolved.insert ref)
    (skeleton : next.chart.skeleton = resolution.chart.skeleton)
    (others : ∀ {other}, other ≠ ref →
      next.chart.derivations other = resolution.chart.derivations other)
    (kept : next.chart.derivations ref = #[] ∨
      ∃ kept, next.chart.derivations ref = #[kept] ∧ resolution.Built kept) :
    Settling chart next ∧ resolution.Later next ∧ next.resolved.contains ref = true := by
  have flagged : (resolution.resolved.flag? ref).isSome = true :=
    (settling.flags ref).trans known
  have contains (other : ItemRef) : next.resolved.contains other = true ↔
      other = ref ∨ resolution.resolved.contains other = true := by
    rw [marked]
    exact Marks.contains_insert_iff flagged other
  have apart {other : ItemRef} (done : resolution.resolved.contains other = true) :
      other ≠ ref := by
    rintro rfl
    rw [unresolved] at done
    cases done
  have later : resolution.Later next :=
    ⟨fun done => (contains _).mpr (.inr done), fun done => others (apart done)⟩
  have fewer : next.resolved.freeCount < resolution.resolved.freeCount := by
    rw [marked]
    exact Marks.freeCount_insert_lt ((Marks.isFree_iff _ _).mpr ⟨flagged, unresolved⟩)
  have deeper : chart.itemCount - resolution.resolved.freeCount + 1 ≤
      chart.itemCount - next.resolved.freeCount := by
    have free := settling.free
    omega
  refine ⟨⟨skeleton.trans settling.skeleton, ?_, by have := settling.free; omega, ?_, ?_⟩, later,
    (contains ref).mpr (.inl rfl)⟩
  · intro other
    rw [← settling.flags, marked]
    exact Marks.isSome_flag_write _ _ _ _
  · intro other untouched
    have absent : ¬ (other = ref ∨ resolution.resolved.contains other = true) := by
      rw [← contains, untouched]
      exact Bool.false_ne_true
    rw [others fun same => absent (.inl same)]
    exact settling.untouched (Bool.eq_false_iff.mpr fun done => absent (.inr done))
  · intro other done
    rcases (contains other).mp done with rfl | before
    · rcases kept with bare | ⟨winner, sole, built⟩
      · exact .leaf done bare
      · refine (Settled.node done sole ?_).mono deeper
        intro child listed
        exact (settling.settled (built child listed)).later later
    · exact ((settling.settled before).later later).mono (Nat.le_of_succ_le deeper)

theorem Progress.mark (progress : Progress chart prefer resolution) {ref : ItemRef}
    (next : Resolution) (known : (chart.item? ref).isSome = true)
    (unresolved : resolution.resolved.contains ref = false)
    (marked : next.resolved = resolution.resolved.insert ref)
    (skeleton : next.chart.skeleton = resolution.chart.skeleton)
    (others : ∀ {other}, other ≠ ref →
      next.chart.derivations other = resolution.chart.derivations other)
    (kept : (chart.derivations ref = #[] ∧ next.chart.derivations ref = #[]) ∨
      ∃ kept, next.chart.derivations ref = #[kept] ∧ Elected chart prefer resolution ref kept) :
    Progress chart prefer next ∧ resolution.Later next ∧ next.resolved.contains ref = true := by
  have built : next.chart.derivations ref = #[] ∨
      ∃ kept, next.chart.derivations ref = #[kept] ∧ resolution.Built kept := by
    rcases kept with ⟨-, bare⟩ | ⟨winner, sole, survivors, -, built, -, -, won⟩
    · exact .inl bare
    · exact .inr ⟨winner, sole, built winner (elect_mem won)⟩
  obtain ⟨settling, later, done⟩ :=
    progress.settling.mark next known unresolved marked skeleton others built
  refine ⟨⟨settling.skeleton, settling.flags, settling.free, settling.untouched, settling.settled,
    ?_⟩, later, done⟩
  intro other done
  by_cases same : other = ref
  · subst same
    rcases kept with bare | ⟨winner, sole, elected⟩
    · exact .inl bare
    · exact .inr ⟨winner, sole, Contested.later progress later elected⟩
  · have before : resolution.resolved.contains other = true := by
      rw [marked, Marks.contains_insert] at done
      simpa [Ne.symm same] using done
    rcases progress.kept before with ⟨bare, sole⟩ | ⟨winner, sole, elected⟩
    · exact .inl ⟨bare, (later.derivations before).trans sole⟩
    · exact .inr ⟨winner, (later.derivations before).trans sole,
        Contested.later progress later elected⟩

theorem Progress.extends (progress : Progress chart prefer resolution) :
    resolution.chart.Extends chart := by
  refine ⟨progress.holds.mp, ?_⟩
  intro ref derivation member
  cases done : resolution.resolved.contains ref with
  | false => rwa [progress.untouched done] at member
  | true =>
    rcases progress.kept done with ⟨bare, same⟩ | ⟨kept, sole, survivors, among, -, -, -, won⟩
    · rw [same] at member
      exact absurd member (Array.not_mem_empty _)
    · rw [sole, Array.mem_singleton] at member
      rw [member]
      exact Array.mem_toList_iff.mp (among.mem (elect_mem won))

/-- A node loses its last derivation only if it never had one. -/
theorem Progress.bare (progress : Progress chart prefer resolution) {ref : ItemRef}
    (bare : resolution.chart.derivations ref = #[]) : chart.derivations ref = #[] := by
  cases done : resolution.resolved.contains ref with
  | false => rwa [progress.untouched done] at bare
  | true =>
    rcases progress.kept done with ⟨bare', -⟩ | ⟨kept, sole, -⟩
    · exact bare'
    · rw [sole] at bare
      cases bare

end Resolution

end ChartParser
