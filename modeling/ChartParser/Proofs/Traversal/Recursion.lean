import ChartParser.Traversal.Stack
import Mathlib.Data.List.Nodup

namespace ChartParser

namespace Marks

theorem isSome_flag_write (marks : Marks) (written read : ItemRef) (flag : Bool) :
    ((marks.write written flag).flag? read).isSome = (marks.flag? read).isSome := by
  rw [flag?_write]
  split
  · rw [Option.isSome_map]
  · rfl

theorem contains_insert_iff {marks : Marks} {written : ItemRef}
    (known : (marks.flag? written).isSome = true) (read : ItemRef) :
    (marks.insert written).contains read = true ↔
      read = written ∨ marks.contains read = true := by
  rw [contains_insert, Bool.or_eq_true, decide_eq_true_eq]
  constructor
  · rintro (⟨same, -⟩ | before)
    · exact .inl same.symm
    · exact .inr before
  · rintro (rfl | before)
    · exact .inl ⟨rfl, known⟩
    · exact .inr before

theorem isFree_iff (marks : Marks) (ref : ItemRef) :
    marks.isFree ref = true ↔ (marks.flag? ref).isSome = true ∧ marks.contains ref = false := by
  unfold isFree contains
  cases marks.flag? ref with
  | none => simp
  | some flag => cases flag <;> simp

end Marks

namespace Traversal

variable {σ κ β γ ρ ε : Type} (traversal : Traversal σ κ β γ ρ ε)

def nodes (stack : List (Frame κ β γ ρ)) : List ItemRef :=
  stack.map fun frame => traversal.node frame.child

/-- What is left to be done at an open node: the children of its current alternative, and then the
alternatives after that. -/
def finish (visit : κ → σ → Except ε (σ × Option ρ)) (frame : Frame κ β γ ρ) (state : σ) :
    Except ε (σ × Option ρ) := do
  let (state, held) ← match frame.current with
    | none => .ok (state, frame.held)
    | some alternative => do
      let (state, results) ← visitChildren visit frame.pending state
      match results with
      | none => .ok (state, frame.held)
      | some results =>
        traversal.accept frame.child frame.held alternative (frame.results ++ results) state
  let (state, held) ← traversal.visitAlternatives visit frame.child frame.rest held state
  traversal.leave frame.child held state

/-- What the nodes around an innermost node make of its result. -/
def resume : Nat → List (Frame κ β γ ρ) → Option ρ → σ → Except ε (σ × Option ρ)
  | _, [], result, state => .ok (state, result)
  | room, frame :: around, result, state => do
    let (state, result) ← traversal.finish
      (traversal.visit room (traversal.nodes (frame :: around))) (frame.receive result) state
    resume (room + 1) around result state

def outcome (config : Config σ κ β γ ρ) : Except ε (σ × Option ρ) :=
  match config with
  | ⟨_, [], _, state⟩ => .ok (state, none)
  | ⟨room, frame :: around, _, state⟩ => do
    let (state, result) ← traversal.finish
      (traversal.visit room (traversal.nodes (frame :: around))) frame state
    traversal.resume (room + 1) around result state

/-- In the states of an invariant, the nodes that can be opened can be marked. -/
structure Marking (holds : σ → Prop) (marks : Marks) : Prop where
  enter : ∀ {child state next arrival}, holds state →
    traversal.enter child state = .ok (next, arrival) → holds next
  opened : ∀ {child state next alternatives held}, holds state →
    traversal.enter child state = .ok (next, .opened alternatives held) →
    (marks.flag? (traversal.node child)).isSome = true
  accept : ∀ {child held alternative results state next after}, holds state →
    traversal.accept child held alternative results state = .ok (next, after) → holds next
  leave : ∀ {child held state next result}, holds state →
    traversal.leave child held state = .ok (next, result) → holds next

/-- The marks are on the open nodes, and only an alternative that is searched has children that
have not been entered. -/
structure Ordered (holds : σ → Prop) (marks : Marks) (config : Config σ κ β γ ρ) : Prop where
  state : holds config.state
  idle : ∀ frame ∈ config.stack, frame.current = none → frame.pending = []
  marked : ∀ ref, config.marks.contains ref = true ↔ ref ∈ traversal.nodes config.stack
  distinct : (traversal.nodes config.stack).Nodup
  flags : ∀ ref, (config.marks.flag? ref).isSome = (marks.flag? ref).isSome

variable {traversal} {holds : σ → Prop} {marks : Marks}

theorem nodes_cons (frame : Frame κ β γ ρ) (around : List (Frame κ β γ ρ)) :
    traversal.nodes (frame :: around) =
      traversal.node frame.child :: traversal.nodes around := rfl

theorem child_receive (frame : Frame κ β γ ρ) (result : Option ρ) :
    (frame.receive result).child = frame.child := by
  cases result <;> rfl

theorem idle_receive {frame : Frame κ β γ ρ} (idle : frame.current = none → frame.pending = [])
    (result : Option ρ) :
    (frame.receive result).current = none → (frame.receive result).pending = [] := by
  cases result with
  | none => exact fun _ => rfl
  | some result => exact idle

theorem Ordered.replace {room : Nat} {current : Marks} {state next : σ}
    {frame other : Frame κ β γ ρ} {around : List (Frame κ β γ ρ)}
    (ordered : traversal.Ordered holds marks ⟨room, frame :: around, current, state⟩)
    (same : other.child = frame.child) (idle : other.current = none → other.pending = [])
    (after : holds next) :
    traversal.Ordered holds marks ⟨room, other :: around, current, next⟩ := by
  have nodes : traversal.nodes (other :: around) = traversal.nodes (frame :: around) := by
    rw [nodes_cons, nodes_cons, same]
  refine ⟨after, ?_, ?_, ?_, ordered.flags⟩
  · intro inner member
    rcases List.mem_cons.mp member with rfl | member
    · exact idle
    · exact ordered.idle inner (by simp [member])
  · intro ref
    rw [nodes]
    exact ordered.marked ref
  · rw [nodes]
    exact ordered.distinct

/-- A child that fails ends the alternative, and one that does not is one child less. -/
theorem finish_child (visit : κ → σ → Except ε (σ × Option ρ)) (child first : κ) (held : γ)
    (alternative : β) (results : List ρ) (pending : List κ) (rest : List (β × List κ)) (state : σ) :
    traversal.finish visit ⟨child, held, some alternative, results, first :: pending, rest⟩ state =
      visit first state >>= fun (state, result) => traversal.finish visit
        (Frame.receive ⟨child, held, some alternative, results, pending, rest⟩ result) state := by
  simp only [finish, visitChildren]
  cases visit first state with
  | error stop => rfl
  | ok entered =>
    obtain ⟨state, result⟩ := entered
    cases result with
    | none => rfl
    | some result =>
      simp only [Frame.receive, Except.bind, bind]
      cases visitChildren visit pending state with
      | error stop => rfl
      | ok visited =>
        obtain ⟨state, results⟩ := visited
        cases results with
        | none => rfl
        | some results => simp

/-- A step leads to the outcome expected of the search. -/
def Agrees (traversal : Traversal σ κ β γ ρ ε) (holds : σ → Prop) (marks : Marks)
    (expected : Except ε (σ × Option ρ)) : Progress σ κ β γ ρ ε → Prop
  | .next config => traversal.Ordered holds marks config ∧ traversal.outcome config = expected
  | .done outcome => outcome = expected

private theorem agrees_receive {room : Nat} {current : Marks} {state : σ}
    {frame : Frame κ β γ ρ} {around : List (Frame κ β γ ρ)}
    (ordered : traversal.Ordered holds marks ⟨room, frame :: around, current, state⟩)
    (result : Option ρ) {next : σ} (after : holds next) :
    traversal.Agrees holds marks
      (traversal.finish (traversal.visit room (traversal.nodes (frame :: around)))
        (frame.receive result) next >>= fun (state, result) =>
          traversal.resume (room + 1) around result state)
      (.next ⟨room, frame.receive result :: around, current, next⟩) := by
  have idle := idle_receive (ordered.idle frame (by simp)) result
  refine ⟨ordered.replace (child_receive frame result) idle after, ?_⟩
  simp only [outcome, nodes_cons, child_receive]

private theorem agrees_descend (marking : traversal.Marking holds marks) {room : Nat}
    {current : Marks} {state : σ} {frame : Frame κ β γ ρ} {around : List (Frame κ β γ ρ)}
    (child : κ)
    (ordered : traversal.Ordered holds marks ⟨room, frame :: around, current, state⟩) :
    traversal.Agrees holds marks
      (traversal.visit room (traversal.nodes (frame :: around)) child state >>=
        fun (state, result) =>
          traversal.finish (traversal.visit room (traversal.nodes (frame :: around)))
            (frame.receive result) state >>= fun (state, result) =>
              traversal.resume (room + 1) around result state)
      (traversal.descend room current state frame around child) := by
  cases room with
  | zero => exact agrees_receive ordered none ordered.state
  | succ room =>
    unfold descend visit
    by_cases active : traversal.node child ∈ traversal.nodes (frame :: around)
    · rw [if_pos active]
      simp only [(ordered.marked _).mpr active, if_true]
      exact agrees_receive ordered none ordered.state
    · have unmarked : current.contains (traversal.node child) = false := by
        rw [Bool.eq_false_iff]
        exact fun marked => active ((ordered.marked _).mp marked)
      rw [if_neg active]
      simp only [unmarked, Bool.false_eq_true, if_false]
      cases entered : traversal.enter child state with
      | error stop => rfl
      | ok entry =>
        obtain ⟨next, arrival⟩ := entry
        have after := marking.enter ordered.state entered
        cases arrival with
        | closed result => exact agrees_receive ordered result after
        | opened alternatives held =>
          have flagged := marking.opened ordered.state entered
          rw [← ordered.flags] at flagged
          refine ⟨⟨after, ?_, ?_, ?_, ?_⟩, ?_⟩
          · intro other member
            rcases List.mem_cons.mp member with rfl | member
            · exact fun _ => rfl
            · exact ordered.idle other member
          · intro ref
            rw [Marks.contains_insert_iff flagged, ordered.marked]
            exact List.mem_cons.symm
          · exact List.nodup_cons.mpr ⟨active, ordered.distinct⟩
          · intro ref
            rw [← ordered.flags]
            exact Marks.isSome_flag_write _ _ _ _
          · simp only [outcome, resume, finish, Frame.start]
            rfl

private theorem agrees_ascend (marking : traversal.Marking holds marks) {room : Nat}
    {current : Marks} {state : σ} {frame : Frame κ β γ ρ} {around : List (Frame κ β γ ρ)}
    (ordered : traversal.Ordered holds marks ⟨room, frame :: around, current, state⟩) :
    traversal.Agrees holds marks
      (traversal.leave frame.child frame.held state >>= fun (state, result) =>
        traversal.resume (room + 1) around result state)
      (traversal.ascend room current state frame around) := by
  unfold ascend
  cases left : traversal.leave frame.child frame.held state with
  | error stop => rfl
  | ok exit =>
    obtain ⟨next, result⟩ := exit
    have after := marking.leave ordered.state left
    cases around with
    | nil => rfl
    | cons parent around =>
      have distinct : traversal.node frame.child ∉ traversal.nodes (parent :: around) ∧
          (traversal.nodes (parent :: around)).Nodup := List.nodup_cons.mp ordered.distinct
      have outer : traversal.Ordered holds marks
          ⟨room + 1, parent :: around, current.erase (traversal.node frame.child), next⟩ := by
        refine ⟨after, fun other member => ordered.idle other (by simp [member]), ?_,
          distinct.2, ?_⟩
        · intro ref
          have marked := ordered.marked ref
          simp only [Marks.contains_erase, Bool.and_eq_true, Bool.not_eq_true',
            decide_eq_false_iff_not, marked]
          constructor
          · intro kept
            obtain ⟨apart, member⟩ := kept
            exact (List.mem_cons.mp member).resolve_left (Ne.symm apart)
          · intro member
            refine ⟨?_, List.mem_cons.mpr (.inr member)⟩
            rintro rfl
            exact distinct.1 member
        · intro ref
          rw [← ordered.flags]
          exact Marks.isSome_flag_write _ _ _ _
      exact agrees_receive outer result after

/-- A step does not change the outcome of the search. -/
theorem step_agrees (marking : traversal.Marking holds marks) {config : Config σ κ β γ ρ}
    (ordered : traversal.Ordered holds marks config) :
    traversal.Agrees holds marks (traversal.outcome config) (traversal.step config) := by
  obtain ⟨room, stack, current, state⟩ := config
  cases stack with
  | nil => rfl
  | cons frame around =>
    obtain ⟨child, held, alternative, results, pending, rest⟩ := frame
    cases pending with
    | cons first pending =>
      cases alternative with
      | none =>
        have idle := ordered.idle _ (List.mem_cons_self) rfl
        cases idle
      | some alternative =>
        have inner : traversal.Ordered holds marks
            ⟨room, ⟨child, held, some alternative, results, pending, rest⟩ :: around, current,
              state⟩ :=
          ordered.replace rfl (by simp) ordered.state
        have agrees := agrees_descend marking first inner
        simp only [outcome, finish_child, bind_assoc]
        exact agrees
    | nil =>
      cases alternative with
      | some alternative =>
        simp only [step]
        cases accepted : traversal.accept child held alternative results state with
        | error stop =>
          simp [Agrees, outcome, finish, visitChildren, bind, Except.bind, accepted]
        | ok accepted' =>
          obtain ⟨next, after⟩ := accepted'
          refine ⟨ordered.replace rfl (fun _ => rfl) (marking.accept ordered.state accepted), ?_⟩
          simp only [outcome, finish, visitChildren, bind, Except.bind, List.append_nil, accepted]
          rfl
      | none =>
        cases rest with
        | nil => exact agrees_ascend marking ordered
        | cons entry rest =>
          obtain ⟨alternative, children⟩ := entry
          refine ⟨ordered.replace rfl (by simp) ordered.state, ?_⟩
          simp only [outcome, finish, visitAlternatives, bind, Except.bind, nodes_cons]
          cases visitChildren (traversal.visit room (traversal.node child ::
              traversal.nodes around)) children state with
          | error stop => rfl
          | ok visited =>
            obtain ⟨next, results⟩ := visited
            cases results with
            | none => rfl
            | some results =>
              simp only [List.nil_append]
              cases traversal.accept child held alternative results next with
              | error stop => rfl
              | ok accepted => rfl

theorem run_eq_outcome (marking : traversal.Marking holds marks) {config : Config σ κ β γ ρ}
    (ordered : traversal.Ordered holds marks config) :
    traversal.run config = traversal.outcome config := by
  fun_induction run traversal config with
  | case1 config next step ih =>
    have agrees := step_agrees marking ordered
    rw [step] at agrees
    rw [ih agrees.1, agrees.2]
  | case2 config result step =>
    have agrees := step_agrees marking ordered
    rw [step] at agrees
    exact agrees

theorem ordered_start (marking : traversal.Marking holds marks)
    (unmarked : ∀ ref, marks.contains ref = false) (room : Nat) {child : κ} {state next : σ}
    {alternatives : List (β × List κ)} {held : γ} (started : holds state)
    (entered : traversal.enter child state = .ok (next, .opened alternatives held)) :
    traversal.Ordered holds marks ⟨room, [.start child alternatives held],
      marks.insert (traversal.node child), next⟩ := by
  have flagged := marking.opened started entered
  refine ⟨marking.enter started entered, ?_, ?_, ?_, ?_⟩
  · intro frame member
    obtain rfl := List.mem_singleton.mp member
    exact fun _ => rfl
  · intro ref
    rw [Marks.contains_insert_iff flagged, unmarked]
    simp [nodes, Frame.start]
  · exact List.nodup_singleton _
  · intro ref
    exact Marks.isSome_flag_write _ _ _ _

/-- A search that starts without marks is the search by recursion. -/
theorem traverse_eq_visit (marking : traversal.Marking holds marks)
    (unmarked : ∀ ref, marks.contains ref = false) (room : Nat) (child : κ) (state : σ)
    (started : holds state) :
    traversal.traverse room marks child state = traversal.visit room [] child state := by
  cases room with
  | zero => rfl
  | succ room =>
    simp only [traverse, visit, List.not_mem_nil, if_false]
    cases entered : traversal.enter child state with
    | error stop => rfl
    | ok entry =>
      obtain ⟨next, arrival⟩ := entry
      cases arrival with
      | closed result => rfl
      | opened alternatives held =>
        have ordered := ordered_start marking unmarked room started entered
        refine (run_eq_outcome marking ordered).trans ?_
        simp only [outcome, finish, resume, Frame.start]
        exact bind_pure _

end Traversal

end ChartParser
