import ChartParser.Traversal.Stack
import Mathlib.Data.List.Forall2

/-! What holds in every configuration that a search goes through. A contract says what the parts of
a search may be; if it is kept at every single node, it is kept by every step, and so by the whole
run. -/
namespace ChartParser

/-- The computation breaks off for an allowed reason, or ends as expected. -/
def Ends {τ ε : Type} (allowed : ε → Prop) (expected : τ → Prop) : Except ε τ → Prop
  | .error stop => allowed stop
  | .ok outcome => expected outcome

section Ends

variable {τ υ ε : Type} {allowed : ε → Prop} {expected : τ → Prop}
  {computation : Except ε τ}

theorem Ends.of_forall (all : ∀ stop, allowed stop) (every : ∀ outcome, expected outcome)
    (computation : Except ε τ) : Ends allowed expected computation := by
  cases computation with
  | error stop => exact all stop
  | ok outcome => exact every outcome

theorem Ends.bind {next : τ → Except ε υ} {further : υ → Prop}
    (ends : Ends allowed expected computation)
    (rest : ∀ outcome, expected outcome → Ends allowed further (next outcome)) :
    Ends allowed further (computation >>= next) := by
  cases computation with
  | error stop => exact ends
  | ok outcome => exact rest outcome ends

end Ends

namespace Traversal

variable {σ κ β γ ρ ε : Type}

/-- What the parts of a search may be: a child that is asked for, an alternative that a node offers
with its children, what an open node holds, what a node gives, the state, and a reason to break
off. -/
structure Contract (σ κ β γ ρ ε : Type) where
  asked : κ → Prop
  offered : κ → β → List κ → Prop
  held : κ → γ → Prop
  given : κ → ρ → Prop
  state : σ → Prop
  stop : ε → Prop

namespace Contract

variable (contract : Contract σ κ β γ ρ ε)

/-- The state is as agreed, and the outcome as expected. -/
def Leads {τ : Type} (expected : τ → Prop) : Except ε (σ × τ) → Prop :=
  Ends contract.stop fun outcome => contract.state outcome.1 ∧ expected outcome.2

def Gives (child : κ) (result : Option ρ) : Prop := ∀ value ∈ result, contract.given child value

/-- What entering a node may lead to. -/
def Arrives (child : κ) : Arrival κ β γ ρ → Prop
  | .closed result => contract.Gives child result
  | .opened alternatives held => contract.held child held ∧
    ∀ entry ∈ alternatives, contract.offered child entry.1 entry.2

/-- An open node has asked for its children in order, and its results stand for those before the
child that is being searched, if there is one. -/
structure Open (awaited : List κ) (frame : Frame κ β γ ρ) : Prop where
  asked : contract.asked frame.child
  held : contract.held frame.child frame.held
  current : ∀ alternative ∈ frame.current, ∃ visited,
    contract.offered frame.child alternative (visited ++ (awaited ++ frame.pending)) ∧
      List.Forall₂ contract.given visited frame.results
  idle : frame.current = none → frame.pending = []
  rest : ∀ entry ∈ frame.rest, contract.offered frame.child entry.1 entry.2

/-- Every open node but the innermost one waits for the one inside, and the outermost one has been
asked for from outside. -/
def Nested (root : κ) : List κ → List (Frame κ β γ ρ) → Prop
  | awaited, [] => awaited = [root]
  | awaited, frame :: around => contract.Open awaited frame ∧ Nested root [frame.child] around

structure Holds (root : κ) (config : Config σ κ β γ ρ) : Prop where
  state : contract.state config.state
  nested : contract.Nested root [] config.stack

def Proceeds (root : κ) : Progress σ κ β γ ρ ε → Prop
  | .next config => contract.Holds root config
  | .done outcome => contract.Leads (contract.Gives root) outcome

end Contract

/-- The traversal keeps the contract at every single node. -/
structure Keeps (traversal : Traversal σ κ β γ ρ ε) (contract : Contract σ κ β γ ρ ε) : Prop where
  children : ∀ {child alternative children}, contract.asked child →
    contract.offered child alternative children → ∀ other ∈ children, contract.asked other
  enter : ∀ {child state}, contract.asked child → contract.state state →
    contract.Leads (contract.Arrives child) (traversal.enter child state)
  accept : ∀ {child held alternative children results state}, contract.asked child →
    contract.held child held → contract.offered child alternative children →
    List.Forall₂ contract.given children results → contract.state state →
    contract.Leads (contract.held child) (traversal.accept child held alternative results state)
  leave : ∀ {child held state}, contract.asked child → contract.held child held →
    contract.state state → contract.Leads (contract.Gives child) (traversal.leave child held state)

variable {traversal : Traversal σ κ β γ ρ ε} {contract : Contract σ κ β γ ρ ε}

theorem Contract.Open.between {child : κ} {held : γ} {results : List ρ}
    {rest : List (β × List κ)} (asked : contract.asked child) (kept : contract.held child held)
    (offered : ∀ entry ∈ rest, contract.offered child entry.1 entry.2) :
    contract.Open [] ⟨child, held, none, results, [], rest⟩ :=
  ⟨asked, kept, nofun, fun _ => rfl, offered⟩

theorem Contract.Open.searching {child : κ} {held : γ} {alternative : β} {results : List ρ}
    {visited awaited pending : List κ} {rest : List (β × List κ)} (asked : contract.asked child)
    (kept : contract.held child held) (given : List.Forall₂ contract.given visited results)
    (current : contract.offered child alternative (visited ++ (awaited ++ pending)))
    (offered : ∀ entry ∈ rest, contract.offered child entry.1 entry.2) :
    contract.Open awaited ⟨child, held, some alternative, results, pending, rest⟩ where
  asked := asked
  held := kept
  current := by
    rintro other ⟨⟩
    exact ⟨visited, current, given⟩
  idle := nofun
  rest := offered

theorem Contract.Open.await {node child : κ} {held : γ} {current : Option β} {results : List ρ}
    {pending : List κ} {rest : List (β × List κ)}
    (stands : contract.Open [] ⟨node, held, current, results, child :: pending, rest⟩) :
    contract.Open [child] ⟨node, held, current, results, pending, rest⟩ where
  asked := stands.asked
  held := stands.held
  current := stands.current
  idle bare := by cases stands.idle bare
  rest := stands.rest

theorem Contract.Open.offers {node child : κ} {held : γ} {current : Option β} {results : List ρ}
    {pending : List κ} {rest : List (β × List κ)}
    (stands : contract.Open [] ⟨node, held, current, results, child :: pending, rest⟩) :
    ∃ alternative children, contract.offered node alternative children ∧ child ∈ children := by
  cases current with
  | none => cases stands.idle rfl
  | some alternative =>
    obtain ⟨visited, offered, -⟩ := stands.current alternative rfl
    exact ⟨alternative, _, offered, by simp⟩

theorem Contract.Open.receive {child : κ} {frame : Frame κ β γ ρ}
    (stands : contract.Open [child] frame) {result : Option ρ}
    (gives : contract.Gives child result) : contract.Open [] (frame.receive result) := by
  cases result with
  | none => exact .between stands.asked stands.held stands.rest
  | some value =>
    refine ⟨stands.asked, stands.held, ?_, stands.idle, stands.rest⟩
    intro alternative current
    obtain ⟨visited, offered, given⟩ := stands.current alternative current
    refine ⟨visited ++ [child], ?_, List.rel_append given (.cons (gives value rfl) .nil)⟩
    rw [List.append_assoc]
    exact offered

namespace Keeps

variable (keeps : traversal.Keeps contract) {root : κ}
include keeps

private theorem descend {room : Nat} {marks : Marks} {state : σ} {frame : Frame κ β γ ρ}
    {around : List (Frame κ β γ ρ)} {child : κ} (valid : contract.state state)
    (asked : contract.asked child) (stands : contract.Open [child] frame)
    (nested : contract.Nested root [frame.child] around) :
    contract.Proceeds root (traversal.descend room marks state frame around child) := by
  have receives {room : Nat} {next : σ} {result : Option ρ} (valid : contract.state next)
      (gives : contract.Gives child result) : contract.Proceeds (ε := ε) root
        (.next ⟨room, frame.receive result :: around, marks, next⟩) := by
    refine ⟨valid, stands.receive gives, ?_⟩
    cases result <;> exact nested
  cases room with
  | zero => exact receives valid nofun
  | succ room =>
    simp only [Traversal.descend]
    split
    · exact receives valid nofun
    · have entered := keeps.enter asked valid
      cases entry : traversal.enter child state with
      | error stop =>
        rw [entry] at entered
        exact entered
      | ok outcome =>
        rw [entry] at entered
        obtain ⟨next, result | ⟨alternatives, held⟩⟩ := outcome
        · exact receives entered.1 entered.2
        · exact ⟨entered.1, .between asked entered.2.1 entered.2.2, stands, nested⟩

private theorem ascend {room : Nat} {marks : Marks} {state : σ} {frame : Frame κ β γ ρ}
    {around : List (Frame κ β γ ρ)} (valid : contract.state state)
    (stands : contract.Open [] frame) (nested : contract.Nested root [frame.child] around) :
    contract.Proceeds root (traversal.ascend room marks state frame around) := by
  have left := keeps.leave stands.asked stands.held valid
  simp only [Traversal.ascend]
  cases exit : traversal.leave frame.child frame.held state with
  | error stop =>
    rw [exit] at left
    exact left
  | ok outcome =>
    rw [exit] at left
    cases around with
    | nil =>
      obtain rfl := List.singleton_inj.mp nested
      exact left
    | cons parent around =>
      refine ⟨left.1, nested.1.receive left.2, ?_⟩
      cases outcome.2 <;> exact nested.2

theorem step {config : Config σ κ β γ ρ} (holds : contract.Holds root config) :
    contract.Proceeds root (traversal.step config) := by
  obtain ⟨room, stack, marks, state⟩ := config
  obtain ⟨valid, nested⟩ := holds
  cases stack with
  | nil => cases nested
  | cons frame around =>
    obtain ⟨child, held, current, results, pending, rest⟩ := frame
    obtain ⟨stands, nested⟩ := nested
    cases pending with
    | cons first pending =>
      obtain ⟨alternative, children, offered, listed⟩ := stands.offers
      exact keeps.descend valid (keeps.children stands.asked offered first listed) stands.await
        nested
    | nil =>
      cases current with
      | some alternative =>
        obtain ⟨visited, offered, given⟩ := stands.current alternative rfl
        rw [List.append_nil, List.append_nil] at offered
        have accepted := keeps.accept stands.asked stands.held offered given valid
        simp only [Traversal.step]
        cases acceptance : traversal.accept child held alternative results state with
        | error stop =>
          rw [acceptance] at accepted
          exact accepted
        | ok outcome =>
          rw [acceptance] at accepted
          exact ⟨accepted.1, .between stands.asked accepted.2 stands.rest, nested⟩
      | none =>
        cases rest with
        | nil => exact keeps.ascend valid stands nested
        | cons entry rest =>
          obtain ⟨offered, rest⟩ := List.forall_mem_cons.mp stands.rest
          exact ⟨valid, .searching stands.asked stands.held .nil offered rest, nested⟩

theorem run {config : Config σ κ β γ ρ} (holds : contract.Holds root config) :
    contract.Leads (contract.Gives root) (traversal.run config) := by
  fun_induction Traversal.run traversal config with
  | case1 config next step ih =>
    have proceeds := keeps.step holds
    rw [step] at proceeds
    exact ih proceeds
  | case2 config outcome step =>
    have proceeds := keeps.step holds
    rw [step] at proceeds
    exact proceeds

private theorem start {room : Nat} {marks : Marks} {state next : σ}
    {alternatives : List (β × List κ)} {held : γ} (asked : contract.asked root)
    (valid : contract.state state)
    (entered : traversal.enter root state = .ok (next, .opened alternatives held)) :
    contract.Holds root ⟨room, [.start root alternatives held], marks, next⟩ := by
  have arrives := keeps.enter asked valid
  rw [entered] at arrives
  exact ⟨arrives.1, .between asked arrives.2.1 arrives.2.2, rfl⟩

theorem traverse (room : Nat) (marks : Marks) (state : σ) (asked : contract.asked root)
    (valid : contract.state state) :
    contract.Leads (contract.Gives root) (traversal.traverse room marks root state) := by
  cases room with
  | zero => exact ⟨valid, nofun⟩
  | succ room =>
    have arrives := keeps.enter asked valid
    simp only [Traversal.traverse]
    cases entered : traversal.enter root state with
    | error stop =>
      rw [entered] at arrives
      exact arrives
    | ok outcome =>
      rw [entered] at arrives
      obtain ⟨next, result | ⟨alternatives, held⟩⟩ := outcome
      · exact arrives
      · exact keeps.run (keeps.start asked valid entered)

end Keeps

inductive Reaches (traversal : Traversal σ κ β γ ρ ε) (marks : Marks) (root : κ) (state : σ) :
    Nat → Config σ κ β γ ρ → Prop
  | start (entered : traversal.enter root state = .ok (next, .opened alternatives held)) :
      Reaches traversal marks root state (room + 1)
        ⟨room, [.start root alternatives held], marks.insert (traversal.node root), next⟩
  | step (reached : Reaches traversal marks root state room config)
      (proceeds : traversal.step config = .next next) : Reaches traversal marks root state room next

/-- All configurations that a search goes through keep the contract. -/
theorem Keeps.reaches (keeps : traversal.Keeps contract) {marks : Marks} {root : κ} {state : σ}
    {room : Nat} {config : Config σ κ β γ ρ} (asked : contract.asked root)
    (valid : contract.state state) (reached : traversal.Reaches marks root state room config) :
    contract.Holds root config := by
  induction reached with
  | start entered => exact keeps.start asked valid entered
  | step _ proceeds ih =>
    have holds := keeps.step ih
    rw [proceeds] at holds
    exact holds

end Traversal

end ChartParser
