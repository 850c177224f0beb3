import ChartParser.Proofs.Traversal.Invariant
import ChartParser.Proofs.Traversal.Recursion

/-! The search by recursion without a limit on how deep it goes. The nodes on the path are taken
out of those that are free, and so it comes to an end. With room for all free nodes, a limit on the
depth makes no difference. -/
namespace ChartParser.Traversal

variable {σ κ β γ ρ ε : Type} (traversal : Traversal σ κ β γ ρ ε)

/-- Searches a node by recursion if it is free, which it is not below itself. -/
def recurse (active : Marks) (child : κ) (state : σ) : Except ε (σ × Option ρ) :=
  if active.isFree (traversal.node child) then do
    let (state, entry) ← traversal.enter child state
    match entry with
    | .closed result => .ok (state, result)
    | .opened alternatives held =>
      let (state, held) ← traversal.visitAlternatives
        (recurse (active.insert (traversal.node child))) child alternatives held state
      traversal.leave child held state
  else .ok (state, none)
termination_by active.freeCount
decreasing_by exact Marks.freeCount_insert_lt ‹_›

variable {traversal}

theorem recurse_free {active : Marks} {child : κ}
    (free : active.isFree (traversal.node child) = true) (state : σ) :
    traversal.recurse active child state =
      traversal.enter child state >>= fun (state, entry) =>
        match entry with
        | .closed result => .ok (state, result)
        | .opened alternatives held =>
          traversal.visitAlternatives (traversal.recurse (active.insert (traversal.node child)))
            child alternatives held state >>= fun (state, held) =>
              traversal.leave child held state := by
  rw [recurse, if_pos free]

theorem recurse_not_free {active : Marks} {child : κ}
    (taken : ¬ active.isFree (traversal.node child) = true) (state : σ) :
    traversal.recurse active child state = .ok (state, none) := by
  rw [recurse, if_neg taken]

variable {contract : Contract σ κ β γ ρ ε} {marks : Marks}

/-- Two computations are the same, and lead to what is expected. -/
def Tallies {τ : Type} (contract : Contract σ κ β γ ρ ε) (expected : τ → Prop)
    (first second : Except ε (σ × τ)) : Prop :=
  first = second ∧ contract.Leads expected second

theorem Tallies.bind {τ υ : Type} {expected : τ → Prop} {wanted : υ → Prop}
    {first second : Except ε (σ × τ)} {next further : σ × τ → Except ε (σ × υ)}
    (tallies : Tallies contract expected first second)
    (rest : ∀ state value, contract.state state → expected value →
      Tallies contract wanted (next (state, value)) (further (state, value))) :
    Tallies contract wanted (first >>= next) (second >>= further) := by
  obtain ⟨rfl, leads⟩ := tallies
  cases first with
  | error stop => exact ⟨rfl, leads⟩
  | ok outcome => exact rest outcome.1 outcome.2 leads.1 leads.2

theorem Tallies.ok {τ : Type} {expected : τ → Prop} {state : σ} {value : τ}
    (valid : contract.state state) (wanted : expected value) :
    Tallies contract expected (.ok (state, value)) (.ok (state, value)) :=
  ⟨rfl, valid, wanted⟩

theorem visitChildren_tallies {visit other : κ → σ → Except ε (σ × Option ρ)} {children : List κ}
    (same : ∀ child ∈ children, ∀ state, contract.state state →
      Tallies contract (contract.Gives child) (visit child state) (other child state))
    {state : σ} (valid : contract.state state) :
    Tallies contract
      (fun results => ∀ values ∈ results, List.Forall₂ contract.given children values)
      (visitChildren visit children state) (visitChildren other children state) := by
  induction children generalizing state with
  | nil => exact .ok valid fun values some => by cases some; exact .nil
  | cons child children ih =>
    rw [List.forall_mem_cons] at same
    refine (same.1 state valid).bind fun state result valid gives => ?_
    cases result with
    | none => exact .ok valid nofun
    | some result =>
      refine (ih same.2 valid).bind fun state results valid given => .ok valid fun values some => ?_
      obtain ⟨rest, found, rfl⟩ := Option.map_eq_some_iff.mp some
      exact .cons (gives result rfl) (given rest found)

theorem visitAlternatives_tallies (keeps : traversal.Keeps contract)
    {visit other : κ → σ → Except ε (σ × Option ρ)} {child : κ} (asked : contract.asked child)
    {alternatives : List (β × List κ)}
    (offered : ∀ entry ∈ alternatives, contract.offered child entry.1 entry.2)
    (same : ∀ next, contract.asked next → ∀ state, contract.state state →
      Tallies contract (contract.Gives next) (visit next state) (other next state))
    {held : γ} (kept : contract.held child held) {state : σ} (valid : contract.state state) :
    Tallies contract (contract.held child)
      (traversal.visitAlternatives visit child alternatives held state)
      (traversal.visitAlternatives other child alternatives held state) := by
  induction alternatives generalizing held state with
  | nil => exact .ok valid kept
  | cons entry alternatives ih =>
    rw [List.forall_mem_cons] at offered
    have single := fun next listed => same next (keeps.children asked offered.1 next listed)
    refine (visitChildren_tallies single valid).bind fun state results valid given => ?_
    cases results with
    | none => exact ih offered.2 kept valid
    | some results =>
      have accepted := keeps.accept asked kept offered.1 (given results rfl) valid
      exact Tallies.bind ⟨rfl, accepted⟩ fun state held valid kept => ih offered.2 kept valid

/-- With room for all free nodes, a limit on the depth makes no difference, if nothing comes of
asking for what is no node. -/
theorem visit_tallies (keeps : traversal.Keeps contract)
    (absent : ∀ {child state}, contract.asked child →
      marks.flag? (traversal.node child) = none →
      traversal.enter child state = .ok (state, .closed none)) (room : Nat)
    {path : List ItemRef} {active : Marks}
    (marked : ∀ ref, active.contains ref = true ↔ ref ∈ path)
    (flags : ∀ ref, (active.flag? ref).isSome = (marks.flag? ref).isSome)
    (roomy : active.freeCount ≤ room) {child : κ} (asked : contract.asked child) {state : σ}
    (valid : contract.state state) :
    Tallies contract (contract.Gives child) (traversal.visit room path child state)
      (traversal.recurse active child state) := by
  induction room generalizing path active child state with
  | zero =>
    have full : ¬ active.isFree (traversal.node child) = true := by
      intro free
      have fewer := Marks.freeCount_insert_lt free
      omega
    rw [recurse_not_free full]
    exact .ok valid nofun
  | succ room ih =>
    rw [visit]
    by_cases free : active.isFree (traversal.node child) = true
    · obtain ⟨known, unmarked⟩ := (active.isFree_iff _).mp free
      have aside : traversal.node child ∉ path := by
        rw [← marked, unmarked]
        exact Bool.false_ne_true
      rw [if_neg aside, recurse_free free]
      refine Tallies.bind ⟨rfl, keeps.enter asked valid⟩ fun state arrival valid arrives => ?_
      cases arrival with
      | closed result => exact .ok valid arrives
      | opened alternatives held =>
        obtain ⟨kept, offered⟩ := arrives
        refine (visitAlternatives_tallies keeps asked offered ?_ kept valid).bind
          fun state held valid kept => ⟨rfl, keeps.leave asked kept valid⟩
        intro next asked state valid
        refine ih ?_ ?_ ?_ asked valid
        · intro ref
          rw [Marks.contains_insert_iff known, marked]
          exact List.mem_cons.symm
        · intro ref
          rw [← flags]
          exact Marks.isSome_flag_write _ _ _ _
        · exact Nat.le_of_lt_succ (Nat.lt_of_lt_of_le (Marks.freeCount_insert_lt free) roomy)
    · rw [recurse_not_free free]
      by_cases open' : traversal.node child ∈ path
      · rw [if_pos open']
        exact .ok valid nofun
      · have missing : marks.flag? (traversal.node child) = none := by
          rw [← Option.not_isSome_iff_eq_none, ← flags]
          intro known
          exact free ((active.isFree_iff _).mpr
            ⟨known, Bool.eq_false_iff.mpr fun contains => open' ((marked _).mp contains)⟩)
        rw [if_neg open', absent asked missing]
        exact .ok valid nofun

/-- A search that starts without marks, and with room for all nodes, is the search by recursion
without a limit. -/
theorem traverse_eq_recurse {holds : σ → Prop} (marking : traversal.Marking holds marks)
    (unmarked : ∀ ref, marks.contains ref = false) (keeps : traversal.Keeps contract)
    (absent : ∀ {child state}, contract.asked child →
      marks.flag? (traversal.node child) = none →
      traversal.enter child state = .ok (state, .closed none)) {room : Nat}
    (roomy : marks.freeCount ≤ room) {child : κ} (asked : contract.asked child) {state : σ}
    (valid : contract.state state) (started : holds state) :
    traversal.traverse room marks child state = traversal.recurse marks child state := by
  rw [traverse_eq_visit marking unmarked room child state started]
  exact (visit_tallies keeps absent room (by simp [unmarked]) (fun _ => rfl) roomy asked valid).1

def Contract.nothing (σ κ β γ ρ ε : Type) : Contract σ κ β γ ρ ε :=
  ⟨fun _ => True, fun _ _ _ => True, fun _ _ => True, fun _ _ => True, fun _ => True, fun _ => True⟩

theorem keeps_nothing (traversal : Traversal σ κ β γ ρ ε) :
    traversal.Keeps (Contract.nothing σ κ β γ ρ ε) := by
  have leads {τ : Type} {expected : τ → Prop} (all : ∀ value, expected value)
      (computation : Except ε (σ × τ)) :
      (Contract.nothing σ κ β γ ρ ε).Leads expected computation :=
    .of_forall (fun _ => trivial) (fun outcome => ⟨trivial, all outcome.2⟩) computation
  refine ⟨fun _ _ _ _ => trivial, fun _ _ => leads ?_ _, fun _ _ _ _ _ => leads ?_ _,
    fun _ _ _ => leads ?_ _⟩
  · rintro (result | ⟨alternatives, held⟩)
    · exact fun _ _ => trivial
    · exact ⟨trivial, fun _ _ => trivial⟩
  · exact fun _ => trivial
  · exact fun _ _ _ => trivial

end ChartParser.Traversal
