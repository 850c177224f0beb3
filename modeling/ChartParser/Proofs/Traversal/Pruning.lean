import ChartParser.Proofs.Traversal.Invariant
import ChartParser.Proofs.Traversal.Moves
import ChartParser.Proofs.Traversal.Recursion
import Mathlib.Logic.Relation

/-! A search rejects a child that is open already, or that there is no room for. Where no node is
below itself and there is room for all nodes, this never happens. -/
namespace ChartParser.Traversal

open Relation

variable {σ κ β γ ρ ε : Type}

def prunes (traversal : Traversal σ κ β γ ρ ε) (config : Config σ κ β γ ρ) : Bool :=
  (config.stack.head?.bind (·.pending.head?)).any fun child =>
    config.room == 0 || config.marks.contains (traversal.node child)

def Config.child? (config : Config σ κ β γ ρ) : Option κ :=
  config.stack.head?.bind (·.pending.head?)

/-- All open nodes but the innermost one are searching one of their alternatives, and together with
the room that is left they make up the room at the outset. -/
structure Laid (total : Nat) (config : Config σ κ β γ ρ) : Prop where
  room : config.room + config.stack.length = total
  busy : ∀ frame ∈ config.stack.tail, frame.current.isSome = true

variable {traversal : Traversal σ κ β γ ρ ε} {holds : σ → Prop} {marks : Marks}

private theorem Laid.replace {total room : Nat} {current next : Marks} {state after : σ}
    {frame other : Frame κ β γ ρ} {around : List (Frame κ β γ ρ)}
    (laid : Laid total ⟨room, frame :: around, current, state⟩) :
    Laid total ⟨room, other :: around, next, after⟩ :=
  ⟨laid.room, laid.busy⟩

private theorem Laid.push {total room : Nat} {current next : Marks} {state after : σ}
    {frame parent opened : Frame κ β γ ρ} {around : List (Frame κ β γ ρ)}
    (laid : Laid total ⟨room + 1, frame :: around, current, state⟩)
    (searching : parent.current.isSome = true) :
    Laid total ⟨room, opened :: parent :: around, next, after⟩ := by
  refine ⟨?_, List.forall_mem_cons.mpr ⟨searching, laid.busy⟩⟩
  have size := laid.room
  simp only [List.length_cons] at size ⊢
  omega

private theorem Laid.pop {total room : Nat} {current next : Marks} {state after : σ}
    {frame parent other : Frame κ β γ ρ} {around : List (Frame κ β γ ρ)}
    (laid : Laid total ⟨room, frame :: parent :: around, current, state⟩) :
    Laid total ⟨room + 1, other :: around, next, after⟩ := by
  refine ⟨?_, (List.forall_mem_cons.mp laid.busy).2⟩
  have size := laid.room
  simp only [List.length_cons] at size ⊢
  omega

theorem Laid.step {total : Nat} {config next : Config σ κ β γ ρ} (laid : Laid total config)
    (idle : ∀ frame ∈ config.stack, frame.current = none → frame.pending = [])
    (proceeds : traversal.step config = .next next) : Laid total next := by
  cases moves_of_step proceeds with
  | rejects => exact laid.replace
  | closes => exact laid.replace
  | opens =>
    refine laid.push (Option.isSome_iff_ne_none.mpr fun bare => ?_)
    cases idle _ List.mem_cons_self bare
  | accepts => exact laid.replace
  | tries => exact laid.replace
  | leaves => exact laid.pop

/-- In all configurations that a search goes through, the marks are on the open nodes, and the open
nodes are laid. -/
theorem Reaches.ordered (marking : traversal.Marking holds marks)
    (unmarked : ∀ ref, marks.contains ref = false) {root : κ} {state : σ} (started : holds state)
    {room : Nat} {config : Config σ κ β γ ρ}
    (reached : traversal.Reaches marks root state room config) :
    traversal.Ordered holds marks config ∧ Laid room config := by
  induction reached with
  | start entered => exact ⟨ordered_start marking unmarked _ started entered, rfl, by simp⟩
  | step _ proceeds ih =>
    obtain ⟨ordered, laid⟩ := ih
    have agrees := step_agrees marking ordered
    rw [proceeds] at agrees
    exact ⟨agrees.1, laid.step ordered.idle proceeds⟩

variable {contract : Contract σ κ β γ ρ ε} {below : ItemRef → ItemRef → Prop}

private theorem nested_below (descends : ∀ {child alternative children},
      contract.offered child alternative children →
      ∀ other ∈ children, below (traversal.node child) (traversal.node other)) {root child : κ}
    {around : List (Frame κ β γ ρ)} (nested : contract.Nested root [child] around)
    (busy : ∀ frame ∈ around, frame.current.isSome = true) :
    ∀ ref ∈ traversal.nodes around, TransGen below ref (traversal.node child) := by
  induction around generalizing child with
  | nil => exact fun _ listed => absurd listed List.not_mem_nil
  | cons frame around ih =>
    rw [List.forall_mem_cons] at busy
    obtain ⟨stands, nested⟩ := nested
    obtain ⟨alternative, searched⟩ := Option.isSome_iff_exists.mp busy.1
    obtain ⟨visited, offered, -⟩ := stands.current alternative searched
    have step := descends offered child (by simp)
    intro ref listed
    rcases List.mem_cons.mp listed with rfl | listed
    · exact .single step
    · exact (ih nested busy.2 ref listed).tail step

/-- A child that is not open finds room, as the open nodes and the child are different nodes. -/
theorem Keeps.room_ne_zero (keeps : traversal.Keeps contract)
    (marking : traversal.Marking holds marks) (unmarked : ∀ ref, marks.contains ref = false)
    (flagged : ∀ {child}, contract.asked child →
      (marks.flag? (traversal.node child)).isSome = true) {room : Nat}
    (roomy : ∀ path : List ItemRef, path.Nodup →
      (∀ ref ∈ path, (marks.flag? ref).isSome = true) → path.length ≤ room)
    {root : κ} {state : σ} (asked : contract.asked root) (valid : contract.state state)
    (started : holds state) {config : Config σ κ β γ ρ}
    (reached : traversal.Reaches marks root state room config) {child : κ}
    (next : config.child? = some child)
    (closed : config.marks.contains (traversal.node child) = false) : config.room ≠ 0 := by
  obtain ⟨ordered, laid⟩ := reached.ordered marking unmarked started
  obtain ⟨-, nested⟩ := keeps.reaches asked valid reached
  obtain ⟨left, stack, current, after⟩ := config
  cases stack with
  | nil => cases next
  | cons frame around =>
    obtain ⟨stands, -⟩ := nested
    obtain ⟨node, held, alternative, results, pending, rest⟩ := frame
    cases pending with
    | nil => cases next
    | cons first pending =>
      obtain rfl : first = child := Option.some.inj next
      obtain ⟨offer, children, offered, member⟩ := stands.offers
      have aside : traversal.node first ∉ traversal.node node :: traversal.nodes around := by
        intro listed
        have open' := (ordered.marked _).mpr listed
        rw [closed] at open'
        cases open'
      have space := roomy (traversal.node first :: traversal.node node :: traversal.nodes around)
        (List.nodup_cons.mpr ⟨aside, ordered.distinct⟩) <| by
          intro ref listed
          rcases List.mem_cons.mp listed with rfl | listed
          · exact flagged (keeps.children stands.asked offered first member)
          · have marked := (ordered.marked ref).mpr listed
            rw [← ordered.flags]
            simp only [Marks.contains, beq_iff_eq] at marked
            rw [marked]
            rfl
      have size := laid.room
      simp only [List.length_cons, nodes, List.length_map] at size space
      change left ≠ 0
      omega

/-- Where no node is below itself, and there is room for all nodes that can be marked, a search
rejects no child without entering it. -/
theorem Keeps.not_prunes (keeps : traversal.Keeps contract)
    (marking : traversal.Marking holds marks) (unmarked : ∀ ref, marks.contains ref = false)
    (descends : ∀ {child alternative children}, contract.offered child alternative children →
      ∀ other ∈ children, below (traversal.node child) (traversal.node other))
    (acyclic : ∀ ref, ¬ TransGen below ref ref)
    (flagged : ∀ {child}, contract.asked child →
      (marks.flag? (traversal.node child)).isSome = true) {room : Nat}
    (roomy : ∀ path : List ItemRef, path.Nodup →
      (∀ ref ∈ path, (marks.flag? ref).isSome = true) → path.length ≤ room)
    {root : κ} {state : σ} (asked : contract.asked root) (valid : contract.state state)
    (started : holds state) {config : Config σ κ β γ ρ}
    (reached : traversal.Reaches marks root state room config) :
    traversal.prunes config = false := by
  obtain ⟨ordered, laid⟩ := reached.ordered marking unmarked started
  obtain ⟨-, nested⟩ := keeps.reaches asked valid reached
  obtain ⟨left, stack, current, after⟩ := config
  cases stack with
  | nil => rfl
  | cons frame around =>
    obtain ⟨stands, nested⟩ := nested
    obtain ⟨node, held, alternative, results, pending, rest⟩ := frame
    cases pending with
    | nil => rfl
    | cons child pending =>
      obtain ⟨offer, children, offered, member⟩ := stands.offers
      have step := descends offered child member
      have above : ∀ ref ∈ traversal.node node :: traversal.nodes around,
          TransGen below ref (traversal.node child) := by
        intro ref listed
        rcases List.mem_cons.mp listed with rfl | listed
        · exact .single step
        · exact (nested_below descends nested laid.busy ref listed).tail step
      have aside : traversal.node child ∉ traversal.node node :: traversal.nodes around :=
        fun listed => acyclic _ (above _ listed)
      have free : current.contains (traversal.node child) = false :=
        Bool.eq_false_iff.mpr fun marked => aside ((ordered.marked _).mp marked)
      have space : left ≠ 0 :=
        keeps.room_ne_zero marking unmarked flagged roomy asked valid started reached rfl free
      simp [prunes, free, space]

end ChartParser.Traversal
