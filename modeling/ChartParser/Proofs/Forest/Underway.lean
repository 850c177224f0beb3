import ChartParser.Proofs.Forest.Choices
import ChartParser.Proofs.Traversal.State

/-! The configurations that the resolution of a chart goes through, with cycles of any shape. The
open nodes are unresolved, the derivations that they hold are built of resolved nodes, and the
children that have succeeded are resolved. -/
namespace ChartParser.Resolution

open Traversal

variable {chart : Chart} {prefer : Nat → Nat → Bool} {depth : Nat} {resolution next : Resolution}
  {root : ItemRef}

/-- What the open nodes stand for when the nodes of a chart have been resolved this far. -/
def tracks (chart : Chart) (resolution : Resolution) :
    Contract Resolution ItemRef Derivation Contest Unit Empty where
  asked ref := (chart.item? ref).isSome = true
  offered ref derivation children :=
    derivation ∈ chart.derivations ref ∧ children = derivation.children
  held ref contest := contest.several = decide (1 < (chart.derivations ref).size) ∧
    ∀ best ∈ contest.best, best ∈ chart.derivations ref ∧ resolution.Built best
  given ref _ := resolution.resolved.contains ref = true
  state _ := True
  stop _ := False

theorem tracks_open_later (later : resolution.Later next) {awaited : List ItemRef}
    {frame : Frame ItemRef Derivation Contest Unit}
    (stands : (tracks chart resolution).Open awaited frame) :
    (tracks chart next).Open awaited frame := by
  refine ⟨stands.asked, ⟨stands.held.1, ?_⟩, ?_, stands.idle, stands.rest⟩
  · intro best won
    obtain ⟨member, built⟩ := stands.held.2 best won
    exact ⟨member, built.later later⟩
  · intro alternative current
    obtain ⟨visited, offered, given⟩ := stands.current alternative current
    exact ⟨visited, offered, given.imp fun _ _ done => later.resolved done⟩

theorem tracks_nested_later (later : resolution.Later next) {awaited : List ItemRef}
    {stack : List (Frame ItemRef Derivation Contest Unit)}
    (nested : (tracks chart resolution).Nested root awaited stack) :
    (tracks chart next).Nested root awaited stack := by
  induction stack generalizing awaited with
  | nil => exact nested
  | cons frame around ih => exact ⟨tracks_open_later later nested.1, ih nested.2⟩

/-- A derivation is built of resolved nodes when all of its children have been searched. -/
theorem tracks_open_built {frame : Frame ItemRef Derivation Contest Unit} {derivation : Derivation}
    (stands : (tracks chart resolution).Open [] frame) (searched : frame.current = some derivation)
    (done : frame.pending = []) :
    derivation ∈ chart.derivations frame.child ∧ resolution.Built derivation := by
  obtain ⟨visited, ⟨member, whole⟩, given⟩ := stands.current derivation searched
  rw [done, List.append_nil, List.append_nil] at whole
  have resolved : ∀ child ∈ visited, resolution.resolved.contains child = true :=
    ((List.forall₂_and_left _ _).mp (given.imp fun _ _ done => And.intro done trivial)).1
  exact ⟨member, fun child listed => resolved child (whole ▸ listed)⟩

theorem tracks_open_child {ref child : ItemRef} {contest : Contest} {current : Option Derivation}
    {results : List Unit} {pending : List ItemRef} {rest : List (Derivation × List ItemRef)}
    (stands : (tracks chart resolution).Open []
      ⟨ref, contest, current, results, child :: pending, rest⟩) : chart.Child ref child := by
  obtain ⟨derivation, children, ⟨member, rfl⟩, listed⟩ := stands.offers
  exact ⟨derivation, member, listed⟩

/-- Entering a node changes nothing that has been resolved. The node itself is resolved if it has no
derivations. -/
theorem Settling.enters (settling : Settling chart resolution) {ref : ItemRef}
    {arrival : Arrival ItemRef Derivation Contest Unit}
    (entered : resolution.enter ref = (next, arrival)) :
    resolution.Later next ∧ ∀ {other}, next.resolved.contains other = true →
      resolution.resolved.contains other = true ∨
        other = ref ∧ chart.derivations other = #[] := by
  cases done : resolution.resolved.contains ref with
  | true =>
    obtain ⟨rfl, -⟩ := Prod.mk.inj ((enter_done done).symm.trans entered)
    exact ⟨.refl _, .inl⟩
  | false =>
    by_cases bare : resolution.chart.derivations ref = #[]
    · obtain ⟨rfl, -⟩ := Prod.mk.inj ((enter_bare done bare).symm.trans entered)
      refine ⟨⟨fun before => by simp [Marks.contains_insert, before], fun _ => rfl⟩,
        fun {other} marked => ?_⟩
      rw [Marks.contains_insert, Bool.or_eq_true, decide_eq_true_eq] at marked
      rcases marked with ⟨rfl, -⟩ | before
      · exact .inr ⟨rfl, (settling.untouched done).symm.trans bare⟩
      · exact .inl before
    · obtain ⟨rfl, -⟩ := Prod.mk.inj ((enter_opened done bare).symm.trans entered)
      exact ⟨.refl _, .inl⟩

theorem Settling.closes (settling : Settling chart resolution) {ref : ItemRef}
    (known : (chart.item? ref).isSome = true) {result : Option Unit}
    (entered : resolution.enter ref = (next, .closed result)) :
    Settling chart next ∧ next.resolved.contains ref = true := by
  cases done : resolution.resolved.contains ref with
  | true =>
    obtain ⟨rfl, -⟩ := Prod.mk.inj ((enter_done done).symm.trans entered)
    exact ⟨settling, done⟩
  | false =>
    by_cases bare : resolution.chart.derivations ref = #[]
    · obtain ⟨rfl, -⟩ := Prod.mk.inj ((enter_bare done bare).symm.trans entered)
      obtain ⟨settling, -, done⟩ := settling.mark
        ⟨resolution.chart, resolution.resolved.insert ref, resolution.collapsed⟩ known done rfl rfl
        (fun _ => rfl) (.inl bare)
      exact ⟨settling, done⟩
    · rw [enter_opened done bare] at entered
      cases entered

/-- A node that is opened is unresolved, and nothing has been done for it yet. All of its
derivations are ahead of it. -/
theorem Settling.opens (settling : Settling chart resolution) {ref : ItemRef}
    (known : (chart.item? ref).isSome = true) {alternatives : List (Derivation × List ItemRef)}
    {held : Contest} (entered : resolution.enter ref = (next, .opened alternatives held)) :
    next = resolution ∧ resolution.resolved.contains ref = false ∧
      (tracks chart resolution).Open [] (.start ref alternatives held) ∧
      alternatives.map Prod.fst = (chart.derivations ref).toList ∧ held.best = none := by
  cases done : resolution.resolved.contains ref with
  | true =>
    rw [enter_done done] at entered
    cases entered
  | false =>
    by_cases bare : resolution.chart.derivations ref = #[]
    · rw [enter_bare done bare] at entered
      cases entered
    · rw [enter_opened done bare, settling.untouched done] at entered
      obtain ⟨rfl, opened⟩ := Prod.mk.inj entered
      obtain ⟨rfl, rfl⟩ := Arrival.opened.inj opened
      refine ⟨rfl, rfl, ⟨known, ⟨rfl, by simp [Frame.start]⟩, by simp [Frame.start], fun _ => rfl,
        fun entry listed => ?_⟩, by simp [Function.comp_def], rfl⟩
      obtain ⟨derivation, member, rfl⟩ := List.mem_map.mp listed
      exact ⟨Array.mem_toList_iff.mp member, rfl⟩

/-- An open node that is left is resolved with its best derivation, and no other one is resolved
with it. Without a best derivation, nothing changes. -/
theorem Settling.leaves (settling : Settling chart resolution)
    {frame : Frame ItemRef Derivation Contest Unit}
    (unresolved : resolution.resolved.contains frame.child = false)
    (stands : (tracks chart resolution).Open [] frame) {result : Option Unit}
    (left : resolution.leave frame.child frame.held = (next, result)) :
    Settling chart next ∧ resolution.Later next ∧
      (∀ value ∈ result, next.resolved.contains frame.child = true) ∧
      (∀ {other}, next.resolved.contains other = true →
        resolution.resolved.contains other = true ∨
          other = frame.child ∧ frame.held.best.isSome = true) ∧
      ∀ best ∈ frame.held.best, next.resolved.contains frame.child = true ∧
        next.chart.derivations frame.child = #[best] := by
  cases won : frame.held.best with
  | none =>
    have idle : resolution.leave frame.child frame.held = (resolution, none) := by
      simp only [leave, won]
    obtain ⟨rfl, rfl⟩ := Prod.mk.inj (idle.symm.trans left)
    exact ⟨settling, .refl _, by simp, .inl, by simp⟩
  | some best =>
    obtain ⟨wide, held⟩ := stands.held
    obtain ⟨member, built⟩ := held best won
    rw [← settling.untouched unresolved] at wide member
    have known := Chart.holds_iff_item.mp (Chart.exists_holds member)
    obtain ⟨other, left', marked, skeleton, others, sole⟩ := leave_eq known won wide member
    obtain ⟨rfl, -⟩ := Prod.mk.inj (left'.symm.trans left)
    obtain ⟨settling', later, done⟩ := settling.mark other stands.asked unresolved marked
      skeleton others (.inr ⟨best, sole, built⟩)
    refine ⟨settling', later, fun _ _ => done, fun {other} marked' => ?_, fun winner won => ?_⟩
    · rw [marked] at marked'
      rcases (Marks.contains_insert_iff ((settling.flags _).trans stands.asked) other).mp marked'
        with same | before
      · exact .inr ⟨same, rfl⟩
      · exact .inl before
    · obtain rfl := Option.some.inj won
      exact ⟨done, sole⟩

structure Underway (chart : Chart) (root : ItemRef)
    (config : Config Resolution ItemRef Derivation Contest Unit) : Prop where
  settling : Settling chart config.state
  unresolved : ∀ frame ∈ config.stack, config.state.resolved.contains frame.child = false
  nested : (tracks chart config.state).Nested root [] config.stack

namespace Underway

variable {room : Nat} {marks current : Marks} {frame : Frame ItemRef Derivation Contest Unit}
  {around : List (Frame ItemRef Derivation Contest Unit)} {child : ItemRef}

private theorem receive (settling : Settling chart next) (later : resolution.Later next)
    (stands : (tracks chart resolution).Open [child] frame)
    (nested : (tracks chart resolution).Nested root [frame.child] around)
    (unresolved : next.resolved.contains frame.child = false ∧
      ∀ other ∈ around, next.resolved.contains other.child = false) {result : Option Unit}
    (given : ∀ value ∈ result, next.resolved.contains child = true) :
    Underway chart root ⟨room, frame.receive result :: around, marks, next⟩ := by
  have kept := child_receive frame result
  refine ⟨settling, List.forall_mem_cons.mpr ?_,
    (tracks_open_later later stands).receive given, ?_⟩
  · rwa [kept]
  · rw [kept]
    exact tracks_nested_later later nested

private theorem unresolved_of_closed {open' : List (Frame ItemRef Derivation Contest Unit)}
    {others : ItemRef → Prop}
    (unresolved : ∀ frame ∈ open', resolution.resolved.contains frame.child = false)
    (aside : child ∉ open'.map Frame.child)
    (only : ∀ {other}, next.resolved.contains other = true →
      resolution.resolved.contains other = true ∨ other = child ∧ others other) :
    ∀ frame ∈ open', next.resolved.contains frame.child = false := by
  intro frame listed
  rw [Bool.eq_false_iff]
  intro done
  rcases only done with before | ⟨same, -⟩
  · rw [unresolved frame listed] at before
    cases before
  · exact aside (same ▸ List.mem_map_of_mem listed)

theorem step (closed : chart.Closed) {holds : Resolution → Prop}
    {config next : Config Resolution ItemRef Derivation Contest Unit}
    (ordered : (traversal prefer depth).Ordered holds marks config)
    (underway : Underway chart root config)
    (proceeds : (traversal prefer depth).step config = .next next) : Underway chart root next := by
  have moves := moves_of_step proceeds
  obtain ⟨settling, unresolved, nested⟩ := underway
  cases moves with
  | rejects =>
    obtain ⟨stands, nested⟩ := nested
    exact receive settling (.refl _) stands.await nested (List.forall_mem_cons.mp unresolved)
      fun _ failed => absurd failed (Option.not_mem_none _)
  | closes free entered =>
    obtain ⟨stands, nested⟩ := nested
    have known := closed (tracks_open_child stands)
    have entered := Except.ok.inj entered
    obtain ⟨later, only⟩ := settling.enters entered
    obtain ⟨settling, done⟩ := settling.closes known entered
    have aside := fun listed => Bool.eq_false_iff.mp free ((ordered.marked _).mpr listed)
    have unresolved := unresolved_of_closed unresolved aside only
    exact receive settling later stands.await nested (List.forall_mem_cons.mp unresolved)
      fun _ _ => done
  | opens free entered =>
    obtain ⟨stands, nested⟩ := nested
    have known := closed (tracks_open_child stands)
    obtain ⟨rfl, fresh, opened, -⟩ := settling.opens known (Except.ok.inj entered)
    refine ⟨settling, List.forall_mem_cons.mpr ⟨fresh, ?_⟩, opened, stands.await, nested⟩
    exact List.forall_mem_cons.mpr (List.forall_mem_cons.mp unresolved)
  | accepts accepted =>
    obtain ⟨stands, nested⟩ := nested
    obtain ⟨member, built⟩ := tracks_open_built stands rfl rfl
    obtain ⟨rfl, rfl⟩ := Prod.mk.inj (Except.ok.inj accepted)
    obtain ⟨best, several⟩ := accept_best _ prefer _ _ depth
    refine ⟨settling, List.forall_mem_cons.mpr (List.forall_mem_cons.mp unresolved),
      .between stands.asked ⟨several.trans stands.held.1, ?_⟩ stands.rest, nested⟩
    intro winner won
    rw [best] at won
    rcases challenge_mem won with rfl | before
    · exact ⟨member, built⟩
    · exact stands.held.2 winner before
  | tries =>
    obtain ⟨stands, nested⟩ := nested
    obtain ⟨offered, rest⟩ := List.forall_mem_cons.mp stands.rest
    exact ⟨settling, List.forall_mem_cons.mpr (List.forall_mem_cons.mp unresolved),
      .searching stands.asked stands.held .nil offered rest, nested⟩
  | leaves left =>
    obtain ⟨stands, waiting, nested⟩ := nested
    obtain ⟨here, unresolved⟩ := List.forall_mem_cons.mp unresolved
    obtain ⟨settling, later, given, only, -⟩ := settling.leaves here stands (Except.ok.inj left)
    have aside := (List.nodup_cons.mp ordered.distinct).1
    have unresolved := unresolved_of_closed unresolved aside only
    exact receive settling later waiting nested (List.forall_mem_cons.mp unresolved) given

theorem reaches (closed : chart.Closed) (known : (chart.item? root).isSome = true) {room : Nat}
    {config : Config Resolution ItemRef Derivation Contest Unit}
    (reached : (traversal prefer chart.itemCount).Reaches chart.marks root
      ⟨chart, chart.marks, 0⟩ room config) : Underway chart root config := by
  induction reached with
  | start entered =>
    have settling := (Progress.start chart prefer).settling
    obtain ⟨rfl, unmarked, opened, -⟩ := settling.opens known (Except.ok.inj entered)
    exact ⟨settling, by simpa [Frame.start] using unmarked, opened, rfl⟩
  | step reached proceeds ih =>
    have ordered := reached.ordered (marking chart prefer) Chart.contains_marks fun _ => rfl
    exact ih.step closed ordered.1 proceeds

theorem later {config : Config Resolution ItemRef Derivation Contest Unit}
    (underway : Underway chart root config) {after : Resolution}
    (left : ((traversal prefer depth).step config).state? = some after) :
    config.state.Later after := by
  rcases step_state left with rfl | ⟨child, -, arrival, entered⟩ |
    ⟨frame, around, open', ⟨derivation, held, accepted⟩ | ⟨result, leaves⟩⟩
  · exact .refl _
  · exact (underway.settling.enters (Except.ok.inj entered)).1
  · obtain rfl := congrArg Prod.fst (Except.ok.inj accepted)
    exact .refl _
  · have nested := underway.nested
    rw [open'] at nested
    have unresolved := underway.unresolved frame (open' ▸ List.mem_cons_self)
    exact (underway.settling.leaves unresolved nested.1 (Except.ok.inj leaves)).2.1

end Underway

end ChartParser.Resolution
