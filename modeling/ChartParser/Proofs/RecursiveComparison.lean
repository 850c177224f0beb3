import ChartParser.Proofs.Forest.Worklist

/-! Comparing derivations by plain recursion. A worklist examines the same pairs in the same order
and ends with the same verdict. -/
namespace ChartParser.Chart

section Comparing

variable (chart : Chart) (prefer : Nat → Nat → Bool)

/-- The derivations to compare for two children: both are there, they are different nodes, and both
have a derivation. -/
def opposed (first second : Option ItemRef) : Option (Derivation × Derivation) :=
  first.bind fun first => second.bind fun second =>
    if first = second then none
    else (chart.derivations first)[0]?.bind fun one =>
      (chart.derivations second)[0]?.map fun other => (one, other)

/-- Comparing two derivations by recursion, if there are any to compare, examines the pairs in this
order and ends with the verdict. Two derivations are compared by their productions, and if these do
not decide, by their left children. The right ones are only compared where the comparison of the
left ones has come to its end without deciding. -/
inductive Weighs : Option (Derivation × Derivation) → List (Derivation × Derivation) → Ordering →
    Prop
  | nothing : Weighs none [] .eq
  | decided (judged : Judges prefer first.production second.production verdict)
      (strict : verdict ≠ .eq) : Weighs (some (first, second)) [(first, second)] verdict
  | left (even : Judges prefer first.production second.production .eq)
      (lefts : Weighs (chart.opposed first.left second.left) examined verdict)
      (strict : verdict ≠ .eq) :
      Weighs (some (first, second)) ((first, second) :: examined) verdict
  | right (even : Judges prefer first.production second.production .eq)
      (lefts : Weighs (chart.opposed first.left second.left) examined .eq)
      (rights : Weighs (chart.opposed first.right second.right) others verdict) :
      Weighs (some (first, second)) ((first, second) :: (examined ++ others)) verdict

/-- Comparing the pairs of a worklist examines the pairs in this order and ends with the verdict.
An undecided pair is replaced by the pairs below it, in front of all others. -/
inductive Examines : List (Derivation × Derivation) → List (Derivation × Derivation) → Ordering →
    Prop
  | empty : Examines [] [] .eq
  | decided (judged : Judges prefer first.production second.production verdict)
      (strict : verdict ≠ .eq) :
      Examines ((first, second) :: pending) [(first, second)] verdict
  | undecided (even : Judges prefer first.production second.production .eq)
      (rest : Examines (chart.comparedPairs first second ++ pending) examined verdict) :
      Examines ((first, second) :: pending) ((first, second) :: examined) verdict

end Comparing

variable {chart : Chart} {prefer : Nat → Nat → Bool} {first second : Derivation}
  {pending examined others : List (Derivation × Derivation)} {verdict conclusion : Ordering}

theorem Decides.examines (decides : chart.Decides prefer pending verdict) :
    ∃ examined, chart.Examines prefer pending examined verdict := by
  induction decides with
  | empty => exact ⟨[], .empty⟩
  | decided judged strict => exact ⟨_, .decided judged strict⟩
  | undecided even rest ih =>
    obtain ⟨examined, examines⟩ := ih
    exact ⟨_, .undecided even examines⟩

theorem Examines.unique (examines : chart.Examines prefer pending examined verdict)
    (again : chart.Examines prefer pending others conclusion) :
    examined = others ∧ verdict = conclusion := by
  induction examines generalizing others conclusion with
  | empty =>
    cases again
    exact ⟨rfl, rfl⟩
  | decided judged strict =>
    cases again with
    | decided judged' => exact ⟨rfl, judged.unique judged'⟩
    | undecided even => exact absurd (judged.unique even) strict
  | undecided even rest ih =>
    cases again with
    | decided judged strict => exact absurd (judged.unique even) strict
    | undecided _ rest' =>
      obtain ⟨rfl, rfl⟩ := ih rest'
      exact ⟨rfl, rfl⟩

section Levels

theorem Tapers.size_le {depth : Nat} {ref : ItemRef} (tapers : chart.Tapers depth ref) :
    (chart.derivations ref).size ≤ 1 := by
  cases tapers with
  | leaf bare => simp [bare]
  | node sole => simp [sole]

theorem sole_eq_getElem {ref : ItemRef} (few : (chart.derivations ref).size ≤ 1) :
    chart.sole? ref = (chart.derivations ref)[0]? := by
  apply Option.ext
  intro derivation
  rw [sole_eq_some_iff]
  constructor
  · intro only
    rw [only]
    rfl
  · intro found
    exact sole_of_mem (Array.mem_of_getElem? found) (Nat.not_lt.mpr few)

/-- It makes no difference whether the derivations of two children have to be the only ones, if the
children have no more. -/
theorem comparedPair_eq_opposed {first second : Option ItemRef}
    (here : ∀ ref ∈ first, (chart.derivations ref).size ≤ 1)
    (there : ∀ ref ∈ second, (chart.derivations ref).size ≤ 1) :
    chart.comparedPair first second = chart.opposed first second := by
  cases first with
  | none => rfl
  | some first =>
    cases second with
    | none => rfl
    | some second =>
      simp only [comparedPair, opposed, sole_eq_getElem (here first rfl),
        sole_eq_getElem (there second rfl), Option.bind_some]
      cases (chart.derivations first)[0]? <;> cases (chart.derivations second)[0]? <;> rfl

def Level (chart : Chart) (depth : Nat) (pair : Option (Derivation × Derivation)) : Prop :=
  ∀ compared ∈ pair, chart.Rests depth compared.1 ∧ chart.Rests depth compared.2

variable {depth : Nat}

theorem Level.comparedPairs (level : chart.Level depth (some (first, second))) :
    chart.comparedPairs first second = (chart.opposed first.left second.left).toList ++
      (chart.opposed first.right second.right).toList := by
  obtain ⟨here, there⟩ := level _ rfl
  have left {derivation : Derivation} (rests : chart.Rests depth derivation) :
      ∀ ref ∈ derivation.left, (chart.derivations ref).size ≤ 1 := fun ref member =>
    (rests ref (List.mem_append_left _ (Option.mem_toList.mpr member))).size_le
  have right {derivation : Derivation} (rests : chart.Rests depth derivation) :
      ∀ ref ∈ derivation.right, (chart.derivations ref).size ≤ 1 := fun ref member =>
    (rests ref (List.mem_append_right _ (Option.mem_toList.mpr member))).size_le
  rw [Chart.comparedPairs, comparedPair_eq_opposed (left here) (left there),
    comparedPair_eq_opposed (right here) (right there)]

theorem Level.below (level : chart.Level depth (some (first, second)))
    {pair : Option (Derivation × Derivation)}
    (below : pair = chart.opposed first.left second.left ∨
      pair = chart.opposed first.right second.right) :
    ∀ compared ∈ pair, ∃ less, depth = less + 1 ∧ chart.Level less (some compared) := by
  intro compared member
  have listed : compared ∈ chart.comparedPairs first second := by
    rw [level.comparedPairs]
    rcases below with rfl | rfl
    · exact List.mem_append_left _ (Option.mem_toList.mpr member)
    · exact List.mem_append_right _ (Option.mem_toList.mpr member)
  obtain ⟨here, there⟩ := level _ rfl
  obtain ⟨less, deeper, rests⟩ := here.pairs there compared listed
  refine ⟨less, deeper, fun other same => ?_⟩
  obtain rfl := Option.some.inj same
  exact rests

theorem Level.within (level : chart.Level depth (some (first, second)))
    {pair : Option (Derivation × Derivation)}
    (below : pair = chart.opposed first.left second.left ∨
      pair = chart.opposed first.right second.right) : chart.Level depth pair := by
  intro compared member
  obtain ⟨less, rfl, deeper⟩ := level.below below compared member
  obtain ⟨here, there⟩ := deeper compared rfl
  exact ⟨fun child listed => (here child listed).mono (Nat.le_succ less),
    fun child listed => (there child listed).mono (Nat.le_succ less)⟩

theorem Level.exists_weighs (prefer : Nat → Nat → Bool) {pair : Option (Derivation × Derivation)}
    (level : chart.Level depth pair) :
    ∃ examined verdict, chart.Weighs prefer pair examined verdict := by
  induction depth using Nat.strong_induction_on generalizing pair with
  | h depth ih =>
    cases pair with
    | none => exact ⟨[], .eq, .nothing⟩
    | some pair =>
      obtain ⟨first, second⟩ := pair
      have below {pair : Option (Derivation × Derivation)}
          (below : pair = chart.opposed first.left second.left ∨
            pair = chart.opposed first.right second.right) :
          ∃ examined verdict, chart.Weighs prefer pair examined verdict := by
        cases pair with
        | none => exact ⟨[], .eq, .nothing⟩
        | some pair =>
          obtain ⟨less, rfl, deeper⟩ := level.below below pair rfl
          exact ih less (Nat.lt_succ_self less) deeper
      obtain ⟨examined, verdict, lefts⟩ := below (.inl rfl)
      obtain ⟨others, conclusion, rights⟩ := below (.inr rfl)
      by_cases even : comparePreference prefer first.production second.production = .eq
      · by_cases strict : verdict = .eq
        · exact ⟨_, _, .right (judges_iff.mpr even) (strict ▸ lefts) rights⟩
        · exact ⟨_, _, .left (judges_iff.mpr even) lefts strict⟩
      · exact ⟨_, _, .decided (judges_iff.mpr rfl) even⟩

end Levels

/-- In front of other pairs of a worklist, derivations are examined as by the recursion. Only where
this decides nothing, the other pairs are examined, too, and decide. -/
theorem Weighs.examines {pair : Option (Derivation × Derivation)}
    (weighs : chart.Weighs prefer pair examined verdict) {depth : Nat}
    (level : chart.Level depth pair) (pending : List (Derivation × Derivation)) :
    (verdict ≠ .eq → chart.Examines prefer (pair.toList ++ pending) examined verdict) ∧
    (verdict = .eq → ∀ others conclusion, chart.Examines prefer pending others conclusion →
      chart.Examines prefer (pair.toList ++ pending) (examined ++ others) conclusion) := by
  induction weighs generalizing pending with
  | nothing => exact ⟨fun strict => absurd rfl strict, fun _ _ _ rest => rest⟩
  | decided judged strict =>
    exact ⟨fun _ => .decided judged strict, fun even => absurd even strict⟩
  | left even lefts strict ih =>
    refine ⟨fun _ => .undecided even ?_, fun even => absurd even strict⟩
    rw [level.comparedPairs, List.append_assoc]
    exact (ih (level.within (.inl rfl)) _).1 strict
  | @right examined others verdict first second even lefts rights ih ih' =>
    -- the left pair comes in front of the right one, and both in front of the other pairs
    have left := (ih (level.within (.inl rfl))
      ((chart.opposed first.right second.right).toList ++ pending)).2 rfl
    have right := ih' (level.within (.inr rfl)) pending
    constructor
    · intro strict
      apply Examines.undecided even
      rw [level.comparedPairs, List.append_assoc]
      exact left _ _ (right.1 strict)
    · intro same others conclusion rest
      have both := left _ _ (right.2 same _ _ rest)
      rw [← List.append_assoc examined] at both
      apply Examines.undecided even
      rw [level.comparedPairs, List.append_assoc]
      exact both

theorem Weighs.examines_single
    (weighs : chart.Weighs prefer (some (first, second)) examined verdict) {depth : Nat}
    (level : chart.Level depth (some (first, second))) :
    chart.Examines prefer [(first, second)] examined verdict := by
  obtain ⟨decides, ends⟩ := weighs.examines level []
  by_cases even : verdict = .eq
  · subst even
    have examines := ends rfl [] .eq .empty
    rw [List.append_nil examined] at examines
    exact examines
  · exact decides even

/-- The worklist by which two derivations are compared examines the same pairs in the same order as
the recursion and ends with the same verdict, which is that of the comparison that goes no deeper
than there are items. This holds for every chart and every preference, if no node below the two
derivations has several derivations or is its own descendant. Both come to an end, and in one way
only. As the recursion compares right children after the comparison of the left ones has ended
without a decision, the worklist examines everything below the left children before that. -/
theorem compare_recursively (prefer : Nat → Nat → Bool)
    (resolved : ∀ child ∈ first.children ++ second.children,
      chart.Narrow child ∧ chart.Acyclic child) :
    ∃ examined, ∀ pairs verdict,
      (chart.Weighs prefer (some (first, second)) pairs verdict ↔
        pairs = examined ∧ verdict = chart.compare prefer chart.itemCount first second) ∧
      (chart.Examines prefer [(first, second)] pairs verdict ↔
        pairs = examined ∧ verdict = chart.compare prefer chart.itemCount first second) := by
  have rests {derivation : Derivation}
      (resolved : ∀ child ∈ derivation.children, chart.Narrow child ∧ chart.Acyclic child) :
      chart.Rests chart.itemCount derivation := by
    intro child listed
    obtain ⟨narrow, acyclic⟩ := resolved child listed
    exact narrow.tapers acyclic
  rw [List.forall_mem_append] at resolved
  have here := rests resolved.1
  have there := rests resolved.2
  have level : chart.Level chart.itemCount (some (first, second)) := by
    intro compared same
    obtain rfl := Option.some.inj same
    exact ⟨here, there⟩
  obtain ⟨examined, verdict, weighs⟩ := level.exists_weighs prefer
  obtain ⟨others, examines⟩ := (here.decides there prefer).examines
  obtain ⟨rfl, rfl⟩ := (weighs.examines_single level).unique examines
  refine ⟨examined, fun pairs verdict => ⟨⟨fun other => ?_, fun same => ?_⟩,
    ⟨fun other => ?_, fun same => ?_⟩⟩⟩
  · exact (other.examines_single level).unique examines
  · obtain ⟨rfl, rfl⟩ := same
    exact weighs
  · exact other.unique examines
  · obtain ⟨rfl, rfl⟩ := same
    exact examines

/-- Two nodes begin with the same lexeme. They go on with it once more, as one rule or the other. -/
def twins : Chart where
  sets := #[⟨#[⟨.lexeme 0, 0, .none⟩, ⟨.rule 1, 0, .one ⟨none, some ⟨0, 0⟩, 2⟩⟩,
    ⟨.rule 2, 0, .one ⟨none, some ⟨0, 0⟩, 3⟩⟩,
    ⟨.dotted ⟨1, 2⟩, 0, .one ⟨some ⟨0, 0⟩, some ⟨0, 1⟩, 1⟩⟩,
    ⟨.dotted ⟨1, 3⟩, 0, .one ⟨some ⟨0, 0⟩, some ⟨0, 2⟩, 1⟩⟩], ∅, ∅, #[]⟩]

/-- The rules on the right of the two nodes decide, before those on the right of the derivations,
which would decide the other way round. -/
theorem compare_twins :
    let first : Derivation := ⟨some ⟨0, 3⟩, some ⟨0, 2⟩, 0⟩
    let second : Derivation := ⟨some ⟨0, 4⟩, some ⟨0, 1⟩, 0⟩
    (∀ child ∈ first.children ++ second.children, twins.Narrow child ∧ twins.Acyclic child) ∧
    twins.compare (· < ·) twins.itemCount first second = .gt ∧
    twins.Examines (· < ·) [(first, second)] [(first, second),
      (⟨some ⟨0, 0⟩, some ⟨0, 1⟩, 1⟩, ⟨some ⟨0, 0⟩, some ⟨0, 2⟩, 1⟩),
      (⟨none, some ⟨0, 0⟩, 2⟩, ⟨none, some ⟨0, 0⟩, 3⟩)] .gt := by
  intro first second
  have few : ∀ ref ∈ twins.refs, (twins.derivations ref).size ≤ 1 := by decide +kernel
  have falls : ∀ ref ∈ twins.refs, ∀ derivation ∈ (twins.derivations ref).toList,
      ∀ child ∈ derivation.children, child.place < ref.place := by decide +kernel
  have resolved (child : ItemRef) : twins.Narrow child ∧ twins.Acyclic child :=
    ⟨fun node _ => size_le_of_refs few node, acyclic_of_rank ItemRef.place falls child⟩
  have lexemes : twins.Weighs (· < ·) (twins.opposed (some ⟨0, 0⟩) (some ⟨0, 0⟩)) [] .eq :=
    .nothing
  have rules : twins.Weighs (· < ·) (twins.opposed (some ⟨0, 1⟩) (some ⟨0, 2⟩)) _ .gt :=
    .decided (.first (by decide) rfl) nofun
  have nodes : twins.Weighs (· < ·) (twins.opposed (some ⟨0, 3⟩) (some ⟨0, 4⟩)) _ .gt :=
    .right .same lexemes rules
  have weighs : twins.Weighs (· < ·) (some (first, second)) _ .gt := .left .same nodes nofun
  obtain ⟨examined, agree⟩ := compare_recursively (· < ·) fun child _ => resolved child
  obtain ⟨rfl, verdict⟩ := (agree _ _).1.mp weighs
  exact ⟨fun child _ => resolved child, verdict.symm, (agree _ _).2.mpr ⟨rfl, verdict⟩⟩

end ChartParser.Chart
