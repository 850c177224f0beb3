import ChartParser.Proofs.Acyclicity
import ChartParser.Proofs.Forest.Underway

/-! The derivations of an item that survive in a disambiguation are those of which all children have
been resolved in turn, so that they are compared. If they are compared by a total preorder, the one
that is kept beats those that were found before it, and is beaten by none. -/
namespace ChartParser

open Traversal

/-- Among all that has a property, the comparison is a total preorder: everything is equal to
itself, the other way round the result is reversed, and whatever is not less than something is not
less than what that is not less than. -/
structure TotalPreorder {β : Type} (among : β → Prop) (compare : β → β → Ordering) : Prop where
  self : ∀ {first}, among first → compare first first = .eq
  swap : ∀ {first second}, among first → among second →
    compare second first = (compare first second).swap
  trans : ∀ {first second third}, among first → among second → among third →
    compare first second ≠ .lt → compare second third ≠ .lt → compare first third ≠ .lt

theorem TotalPreorder.restrict {β : Type} {among fewer : β → Prop}
    {compare other : β → β → Ordering} (preorder : TotalPreorder among compare)
    (inside : ∀ {first}, fewer first → among first)
    (same : ∀ {first second}, fewer first → fewer second →
      compare first second = other first second) : TotalPreorder fewer other where
  self here := by
    rw [← same here here]
    exact preorder.self (inside here)
  swap here there := by
    rw [← same here there, ← same there here]
    exact preorder.swap (inside here) (inside there)
  trans here there beyond := by
    rw [← same here there, ← same there beyond, ← same here beyond]
    exact preorder.trans (inside here) (inside there) (inside beyond)

/-- A derivation does not beat another one, and if it was found earlier, it is beaten. -/
structure Concedes (compare : Derivation → Derivation → Ordering) (found : List Derivation)
    (derivation best : Derivation) : Prop where
  loses : compare derivation best ≠ .gt
  earlier : [derivation, best].Sublist found → compare best derivation = .gt

section Challenge

variable {compare : Derivation → Derivation → Ordering} {among : Derivation → Prop}
  {found tried rest : List Derivation} {derivation best other winner : Derivation}

/-- What concedes to a derivation concedes to one that beats it. -/
theorem Concedes.climb (concedes : Concedes compare found derivation best)
    (preorder : TotalPreorder among compare) (here : among derivation) (there : among best)
    (above : among other) (wins : compare other best = .gt) :
    Concedes compare found derivation other := by
  have beats : compare other derivation = .gt := by
    by_contra fails
    have back : compare derivation other ≠ .lt := by
      rw [preorder.swap above here]
      intro less
      exact fails (Ordering.swap_eq_lt.mp less)
    have unbeaten : compare best derivation ≠ .lt := by
      rw [preorder.swap here there]
      intro less
      exact concedes.loses (Ordering.swap_eq_lt.mp less)
    apply preorder.trans there here above unbeaten back
    rw [preorder.swap above there, wins]
    rfl
  refine ⟨?_, fun _ => beats⟩
  rw [preorder.swap above here, beats]
  exact Ordering.noConfusion

theorem not_sublist_of_nodup (distinct : found.Nodup) (split : found = tried ++ derivation :: rest)
    (before : best ∈ derivation :: tried) : ¬ [derivation, best].Sublist found := by
  subst split
  intro ordered
  obtain ⟨-, single, apart⟩ := List.nodup_append.mp distinct
  obtain ⟨front, back, whole, inside, behind⟩ := List.sublist_append_iff.mp ordered
  cases front with
  | nil =>
    obtain rfl := whole
    have after := List.singleton_sublist.mp (List.cons_sublist_cons.mp behind)
    rcases List.mem_cons.mp before with rfl | before
    · exact (List.nodup_cons.mp single).1 after
    · exact apart _ before _ (List.mem_cons_of_mem _ after) rfl
  | cons first front =>
    obtain ⟨rfl, -⟩ := List.cons.inj whole
    exact apart _ (inside.mem List.mem_cons_self) _ List.mem_cons_self rfl

theorem Concedes.refl (preorder : TotalPreorder among compare) (distinct : found.Nodup)
    (split : found = tried ++ derivation :: rest) (here : among derivation) :
    Concedes compare found derivation derivation := by
  refine ⟨?_, fun ordered =>
    absurd ordered (not_sublist_of_nodup distinct split List.mem_cons_self)⟩
  rw [preorder.self here]
  exact Ordering.noConfusion

theorem concedes_challenge (preorder : TotalPreorder among compare) (distinct : found.Nodup)
    (split : found = tried ++ derivation :: rest) (here : among derivation)
    {current : Option Derivation} (before : ∀ best ∈ current, best ∈ tried)
    (won : challenge (fun first second => compare first second = .gt) current derivation =
      some winner) : Concedes compare found derivation winner := by
  cases current with
  | none =>
    obtain rfl := Option.some.inj won
    exact .refl preorder distinct split here
  | some best =>
    simp only [challenge, decide_eq_true_eq] at won
    split at won
    · obtain rfl := Option.some.inj won
      exact .refl preorder distinct split here
    · obtain rfl := Option.some.inj won
      exact ⟨‹_›, fun ordered => absurd ordered
        (not_sublist_of_nodup distinct split (List.mem_cons_of_mem _ (before best rfl)))⟩

theorem Concedes.stays (concedes : Concedes compare found other best)
    (preorder : TotalPreorder among compare) (there : among other) (held : among best)
    (here : among derivation)
    (won : challenge (fun first second => compare first second = .gt) (some best) derivation =
      some winner) : Concedes compare found other winner := by
  simp only [challenge, decide_eq_true_eq] at won
  split at won
  · obtain rfl := Option.some.inj won
    exact concedes.climb preorder there held here ‹_›
  · obtain rfl := Option.some.inj won
    exact concedes

end Challenge

namespace Resolution

/-- The next step of the resolution accepts the derivation of the item, all children of which have
been resolved, and compares it with the best one so far, if there is one. -/
def Accepts (config : Config Resolution ItemRef Derivation Contest Unit) (ref : ItemRef)
    (derivation : Derivation) : Prop :=
  ∃ frame ∈ config.stack.head?,
    frame.child = ref ∧ frame.pending = [] ∧ frame.current = some derivation

instance (config : Config Resolution ItemRef Derivation Contest Unit) (ref : ItemRef)
    (derivation : Derivation) : Decidable (Accepts config ref derivation) :=
  inferInstanceAs (Decidable (∃ frame ∈ config.stack.head?, _))

/-- The open node is that of the item, and its best derivation so far has the property. -/
def Leads (ref : ItemRef) (wins : Derivation → Prop)
    (frame : Frame ItemRef Derivation Contest Unit) : Prop :=
  frame.child = ref ∧ ∃ best ∈ frame.held.best, wins best

/-- The item is left with a derivation that has the property. -/
def Left (ref : ItemRef) (wins : Derivation → Prop) (resolution : Resolution) : Prop :=
  resolution.resolved.contains ref = true ∧
    ∃ best, resolution.chart.derivations ref = #[best] ∧ wins best

/-- The best derivation of the item, so far or in the end, has the property. -/
def Led (ref : ItemRef) (wins : Derivation → Prop)
    (config : Config Resolution ItemRef Derivation Contest Unit) : Prop :=
  (∃ frame ∈ config.stack, Leads ref wins frame) ∨ Left ref wins config.state

variable {chart : Chart} {prefer : Nat → Nat → Bool} {depth : Nat} {root ref : ItemRef}
  {config next : Config Resolution ItemRef Derivation Contest Unit} {derivation : Derivation}
  {resolution after : Resolution} {wins : Derivation → Prop}

theorem Accepts.built (accepts : Accepts config ref derivation)
    (underway : Underway chart root config) :
    derivation ∈ chart.derivations ref ∧ config.state.Built derivation := by
  obtain ⟨frame, innermost, rfl, done, searched⟩ := accepts
  obtain ⟨around, stacked⟩ := List.head?_eq_some_iff.mp innermost
  have nested := underway.nested
  rw [stacked] at nested
  exact tracks_open_built nested.1 searched done

theorem Leads.receive {frame : Frame ItemRef Derivation Contest Unit}
    (leads : Leads ref wins frame) (result : Option Unit) :
    Leads ref wins (frame.receive result) := by
  cases result <;> exact leads

theorem Left.later (left : Left ref wins resolution) (later : resolution.Later after) :
    Left ref wins after := by
  obtain ⟨done, best, sole, won⟩ := left
  exact ⟨later.resolved done, best, (later.derivations done).trans sole, won⟩

theorem Leads.leave {frame : Frame ItemRef Derivation Contest Unit}
    (leads : Leads ref wins frame) (settling : Settling chart resolution)
    (unresolved : resolution.resolved.contains frame.child = false)
    (stands : (tracks chart resolution).Open [] frame) {result : Option Unit}
    (left : resolution.leave frame.child frame.held = (after, result)) : Left ref wins after := by
  obtain ⟨rfl, best, held, won⟩ := leads
  obtain ⟨-, -, -, -, kept⟩ := settling.leaves unresolved stands left
  exact ⟨(kept best held).1, best, (kept best held).2, won⟩

/-- A property of the best derivation stays true of the winner if the challenge keeps it. -/
theorem Leads.accept {node : ItemRef} {held kept : Contest} {current : Option Derivation}
    {results : List Unit} {pending : List ItemRef} {rest : List (Derivation × List ItemRef)}
    (leads : Leads ref wins ⟨node, held, current, results, pending, rest⟩)
    (challenged : ∀ {best winner}, best ∈ held.best → wins best →
      challenge (resolution.better prefer depth) (some best) derivation = some winner →
      wins winner)
    (accepted : (traversal prefer depth).accept node held derivation results resolution =
      .ok (after, kept)) : Leads ref wins ⟨node, kept, none, results, [], rest⟩ := by
  obtain ⟨same, best, won, holds⟩ := leads
  obtain ⟨rfl, rfl⟩ := Prod.mk.inj (Except.ok.inj accepted)
  refine ⟨same, ?_⟩
  obtain ⟨winner, elected⟩ := Option.isSome_iff_exists.mp
    (isSome_challenge (resolution.better prefer depth) (some best) derivation)
  refine ⟨winner, ?_, challenged won holds elected⟩
  rw [← Option.mem_def.mp won] at elected
  exact (accept_best resolution prefer held derivation depth).1.trans elected

/-- A step keeps a property of the best derivation if all challenges keep it. -/
theorem Led.step (led : Led ref wins config) (underway : Underway chart root config)
    (challenged : ∀ {best derivation winner}, wins best → Accepts config ref derivation →
      best ∈ chart.derivations ref ∧ config.state.Built best →
      challenge (config.state.better prefer depth) (some best) derivation = some winner →
      wins winner)
    (proceeds : (traversal prefer depth).step config = .next next) : Led ref wins next := by
  have later := underway.later (show ((traversal prefer depth).step config).state? = _ by
    rw [proceeds]; rfl)
  rcases led with ⟨frame, listed, leads⟩ | left
  · have moves := moves_of_step proceeds
    obtain ⟨settling, unresolved, nested⟩ := underway
    cases moves with
    | rejects =>
      rcases List.mem_cons.mp listed with rfl | outside
      · exact .inl ⟨_, List.mem_cons_self, leads.receive none⟩
      · exact .inl ⟨frame, List.mem_cons_of_mem _ outside, leads⟩
    | closes =>
      rcases List.mem_cons.mp listed with rfl | outside
      · refine .inl ⟨_, List.mem_cons_self, Leads.receive ?_ _⟩
        exact leads
      · exact .inl ⟨frame, List.mem_cons_of_mem _ outside, leads⟩
    | opens =>
      rcases List.mem_cons.mp listed with rfl | outside
      · exact .inl ⟨_, List.mem_cons_of_mem _ List.mem_cons_self, leads⟩
      · exact .inl ⟨frame, List.mem_cons_of_mem _ (List.mem_cons_of_mem _ outside), leads⟩
    | accepts accepted =>
      rcases List.mem_cons.mp listed with rfl | outside
      · refine .inl ⟨_, List.mem_cons_self, leads.accept (fun held won elected => ?_) accepted⟩
        obtain ⟨rfl, -⟩ := leads
        exact challenged won ⟨_, rfl, rfl, rfl, rfl⟩ (nested.1.held.2 _ held) elected
      · exact .inl ⟨frame, List.mem_cons_of_mem _ outside, leads⟩
    | tries =>
      rcases List.mem_cons.mp listed with rfl | outside
      · exact .inl ⟨_, List.mem_cons_self, leads⟩
      · exact .inl ⟨frame, List.mem_cons_of_mem _ outside, leads⟩
    | leaves left =>
      rcases List.mem_cons.mp listed with rfl | outside
      · exact .inr (leads.leave settling (unresolved _ List.mem_cons_self) nested.1
          (Except.ok.inj left))
      · rcases List.mem_cons.mp outside with rfl | outside
        · exact .inl ⟨_, List.mem_cons_self, leads.receive _⟩
        · exact .inl ⟨frame, List.mem_cons_of_mem _ outside, leads⟩
  · exact .inr (left.later later)

theorem Led.ends (led : Led ref wins config) (underway : Underway chart root config)
    {outcome : Resolution × Option Unit}
    (ended : (traversal prefer depth).step config = .done (.ok outcome)) :
    Left ref wins outcome.1 := by
  have later := underway.later (show ((traversal prefer depth).step config).state? = _ by
    rw [ended]; rfl)
  rcases led with ⟨frame, listed, leads⟩ | left
  · rcases leaves_of_step ended with ⟨bare, -⟩ | ⟨outermost, stacked, -, -, -, leaves⟩
    · rw [bare] at listed
      cases listed
    · obtain ⟨settling, unresolved, nested⟩ := underway
      rw [stacked] at listed nested unresolved
      obtain rfl := List.mem_singleton.mp listed
      exact leads.leave settling (unresolved _ listed) nested.1 (Except.ok.inj leaves)
  · exact left.later later

end Resolution

namespace Forest

open Resolution

inductive Passes (forest : Forest) (prefer : Nat → Nat → Bool) : Resolution → Prop
  | start : Passes forest prefer ⟨forest.chart, forest.chart.marks, 0⟩
  | between (resolves : forest.Resolves prefer config) : Passes forest prefer config.state
  | finish : Passes forest prefer (forest.resolve prefer).1

/-- The first configuration of a disambiguation, with the root as the only open node. -/
def opening (forest : Forest) : Config Resolution ItemRef Derivation Contest Unit :=
  ⟨forest.itemCount - 1, [.start forest.root ((forest.chart.derivations forest.root).toList.map
      fun derivation => (derivation, derivation.children))
    ⟨decide (1 < (forest.chart.derivations forest.root).size), none⟩],
    forest.chart.marks.insert forest.root, ⟨forest.chart, forest.chart.marks, 0⟩⟩

theorem Resolves.opening {forest : Forest} (derived : forest.chart.derivations forest.root ≠ #[])
    (prefer : Nat → Nat → Bool) : forest.Resolves prefer forest.opening := by
  have entered : (traversal prefer forest.itemCount).enter forest.root
      ⟨forest.chart, forest.chart.marks, 0⟩ = .ok _ :=
    congrArg Except.ok (enter_opened (Chart.contains_marks forest.root) derived)
  have reached : (traversal prefer forest.itemCount).Reaches forest.chart.marks forest.root
      ⟨forest.chart, forest.chart.marks, 0⟩ (forest.itemCount - 1 + 1) forest.opening :=
    .start entered
  have roomy : forest.itemCount - 1 + 1 = forest.itemCount := by
    obtain ⟨derivation, member⟩ := Array.exists_mem_of_ne_empty _ derived
    have known := Chart.holds_iff_item.mp (Chart.exists_holds member)
    have listed := List.length_pos_of_mem (Chart.mem_refs.mpr known)
    exact Nat.sub_add_cancel listed
  rwa [roomy] at reached

/-- The derivation of the item survives in the disambiguation: it is accepted at some time. -/
def Survives (forest : Forest) (prefer : Nat → Nat → Bool) (ref : ItemRef)
    (derivation : Derivation) : Prop :=
  ∃ config, forest.Resolves prefer config ∧ Accepts config ref derivation

variable {forest : Forest} {prefer : Nat → Nat → Bool}
  {config next : Config Resolution ItemRef Derivation Contest Unit}

section Run

variable (closed : forest.chart.Closed) (known : (forest.chart.item? forest.root).isSome = true)
include closed known

theorem Resolves.underway (resolves : forest.Resolves prefer config) :
    Underway forest.chart forest.root config := Underway.reaches closed known resolves

theorem Resolves.later (resolves : forest.Resolves prefer config) :
    config.state.Later (forest.resolve prefer).1 := by
  have ended := (Reaches.run_eq resolves).trans (forest.traverse_eq_resolve prefer)
  refine Reaches.run_keeps ?_ resolves (.refl _) ended
  intro other after reached later left
  exact later.trans ((Underway.reaches closed known reached).later left)

theorem Passes.settling {resolution : Resolution} (passes : forest.Passes prefer resolution)
    (last : Settling forest.chart (forest.resolve prefer).1) :
    Settling forest.chart resolution ∧ resolution.Later (forest.resolve prefer).1 := by
  cases passes with
  | start =>
    have nothing {ref : ItemRef} (done : forest.chart.marks.contains ref = true) : False := by
      rw [Chart.contains_marks] at done
      cases done
    exact ⟨(Resolution.Progress.start forest.chart prefer).settling,
      fun done => (nothing done).elim, fun done => (nothing done).elim⟩
  | between resolves =>
    exact ⟨(resolves.underway closed known).settling, resolves.later closed known⟩
  | finish => exact ⟨last, .refl _⟩

end Run

/-- An open node goes through its derivations in order, and the best one so far survives and comes
before what is ahead. -/
def Contends (forest : Forest) (prefer : Nat → Nat → Bool)
    (frame : Frame ItemRef Derivation Contest Unit) : Prop :=
  ∃ tried, (forest.chart.derivations frame.child).toList =
      tried ++ (frame.current.toList ++ frame.rest.map Prod.fst) ∧
    ∀ best ∈ frame.held.best, best ∈ tried ∧ forest.Survives prefer frame.child best

theorem Contends.receive {frame : Frame ItemRef Derivation Contest Unit}
    (contends : forest.Contends prefer frame) (result : Option Unit) :
    forest.Contends prefer (frame.receive result) := by
  cases result with
  | some value => exact contends
  | none =>
    obtain ⟨tried, whole, held⟩ := contends
    refine ⟨tried ++ frame.current.toList, ?_, fun best won => ?_⟩
    · simpa [Frame.receive] using whole
    · exact ⟨List.mem_append_left _ (held best won).1, (held best won).2⟩

theorem Resolves.contends (closed : forest.chart.Closed)
    (known : (forest.chart.item? forest.root).isSome = true)
    (resolves : forest.Resolves prefer config) :
    ∀ frame ∈ config.stack, forest.Contends prefer frame := by
  have opened {ref : ItemRef} {alternatives : List (Derivation × List ItemRef)} {held : Contest}
      (whole : alternatives.map Prod.fst = (forest.chart.derivations ref).toList)
      (fresh : held.best = none) : forest.Contends prefer (.start ref alternatives held) := by
    refine ⟨[], whole.symm, ?_⟩
    intro best won
    rw [Frame.start, fresh] at won
    cases won
  refine Reaches.keeps (fun config => ∀ frame ∈ config.stack, forest.Contends prefer frame)
    ?_ ?_ resolves
  · intro next alternatives held left entered
    have settling := (Resolution.Progress.start forest.chart prefer).settling
    obtain ⟨-, -, -, whole, fresh⟩ := settling.opens known (Except.ok.inj entered)
    simpa using opened whole fresh
  · intro config next reached contends proceeds
    have underway := Underway.reaches closed known reached
    have moves := moves_of_step proceeds
    obtain ⟨settling, -, nested⟩ := underway
    cases moves with
    | rejects =>
      obtain ⟨here, outside⟩ := List.forall_mem_cons.mp contends
      refine List.forall_mem_cons.mpr ⟨Contends.receive ?_ _, outside⟩
      exact here
    | closes =>
      obtain ⟨here, outside⟩ := List.forall_mem_cons.mp contends
      refine List.forall_mem_cons.mpr ⟨Contends.receive ?_ _, outside⟩
      exact here
    | opens _ entered =>
      obtain ⟨here, outside⟩ := List.forall_mem_cons.mp contends
      have known := closed (tracks_open_child nested.1)
      obtain ⟨-, -, -, whole, fresh⟩ := settling.opens known (Except.ok.inj entered)
      exact List.forall_mem_cons.mpr ⟨opened whole fresh,
        List.forall_mem_cons.mpr ⟨here, outside⟩⟩
    | accepts accepted =>
      obtain ⟨⟨tried, whole, held⟩, outside⟩ := List.forall_mem_cons.mp contends
      have survives : forest.Survives prefer _ _ := ⟨_, reached, _, rfl, rfl, rfl, rfl⟩
      obtain ⟨rfl, rfl⟩ := Prod.mk.inj (Except.ok.inj accepted)
      refine List.forall_mem_cons.mpr ⟨⟨tried ++ [_], by simpa using whole, fun best won => ?_⟩,
        outside⟩
      rw [(accept_best _ prefer _ _ _).1] at won
      rcases challenge_mem won with rfl | before
      · exact ⟨by simp, survives⟩
      · exact ⟨List.mem_append_left _ (held best before).1, (held best before).2⟩
    | tries =>
      obtain ⟨⟨tried, whole, held⟩, outside⟩ := List.forall_mem_cons.mp contends
      exact List.forall_mem_cons.mpr ⟨⟨tried, whole, held⟩, outside⟩
    | leaves =>
      obtain ⟨waiting, outside⟩ := List.forall_mem_cons.mp (List.forall_mem_cons.mp contends).2
      exact List.forall_mem_cons.mpr ⟨Contends.receive waiting _, outside⟩

/-- If the item has been resolved, it is left with a derivation that survives. -/
def Vouches (forest : Forest) (prefer : Nat → Nat → Bool) (ref : ItemRef)
    (resolution : Resolution) : Prop :=
  resolution.resolved.contains ref = true → Left ref (forest.Survives prefer ref) resolution

theorem Vouches.enter {ref child : ItemRef} {resolution after : Resolution}
    (vouches : forest.Vouches prefer ref resolution)
    (several : forest.chart.derivations ref ≠ #[]) (settling : Settling forest.chart resolution)
    {arrival : Arrival ItemRef Derivation Contest Unit}
    (entered : resolution.enter child = (after, arrival)) : forest.Vouches prefer ref after := by
  intro done
  obtain ⟨later, only⟩ := settling.enters entered
  rcases only done with before | ⟨rfl, bare⟩
  · exact (vouches before).later later
  · exact absurd bare several

/-- In the end, an item with derivations that has been resolved is left with one that survives. -/
theorem vouches_resolve (closed : forest.chart.Closed)
    (known : (forest.chart.item? forest.root).isSome = true) {ref : ItemRef}
    (several : forest.chart.derivations ref ≠ #[]) :
    forest.Vouches prefer ref (forest.resolve prefer).1 := by
  have nothing : forest.Vouches prefer ref ⟨forest.chart, forest.chart.marks, 0⟩ := by
    intro done
    rw [Chart.contains_marks] at done
    cases done
  have ended := forest.traverse_eq_resolve prefer
  generalize (forest.resolve prefer).1 = resolved at ended ⊢
  refine traverse_keeps nothing ?_ ?_ ended
  · intro after arrival entered
    exact nothing.enter several (Resolution.Progress.start forest.chart prefer).settling
      (Except.ok.inj entered)
  · intro config after reached vouches left
    have underway := Underway.reaches closed known reached
    rcases step_state left with rfl | ⟨child, -, arrival, entered⟩ |
      ⟨frame, around, open', ⟨derivation, held, accepted⟩ | ⟨result, leaves⟩⟩
    · exact vouches
    · exact vouches.enter several underway.settling (Except.ok.inj entered)
    · obtain rfl := congrArg Prod.fst (Except.ok.inj accepted)
      exact vouches
    · intro done
      have nested := underway.nested
      rw [open'] at nested
      have listed : frame ∈ config.stack := open' ▸ List.mem_cons_self
      obtain ⟨-, later, -, only, kept⟩ := underway.settling.leaves
        (underway.unresolved frame listed) nested.1 (Except.ok.inj leaves)
      rcases only done with before | ⟨rfl, won⟩
      · exact (vouches before).later later
      · obtain ⟨best, won⟩ := Option.isSome_iff_exists.mp won
        obtain ⟨tried, -, survives⟩ := Resolves.contends closed known reached frame listed
        exact ⟨done, best, (kept best won).2, (survives best won).2⟩

/-- The comparison of derivations when the disambiguation has ended. -/
def verdict (forest : Forest) (prefer : Nat → Nat → Bool) : Derivation → Derivation → Ordering :=
  (forest.resolve prefer).1.chart.compare prefer forest.itemCount

/-- The derivation is one of those of the item that are built of resolved nodes in the end. -/
def Complete (forest : Forest) (prefer : Nat → Nat → Bool) (ref : ItemRef)
    (derivation : Derivation) : Prop :=
  derivation ∈ forest.chart.derivations ref ∧ (forest.resolve prefer).1.Built derivation

section Verdict

variable (closed : forest.chart.Closed) (known : (forest.chart.item? forest.root).isSome = true)
  {ref : ItemRef} {derivation : Derivation}
include closed known

theorem Resolves.complete (resolves : forest.Resolves prefer config)
    (built : derivation ∈ forest.chart.derivations ref ∧ config.state.Built derivation) :
    forest.Complete prefer ref derivation :=
  ⟨built.1, built.2.later (resolves.later closed known)⟩

/-- A challenge is decided as it would be in the end. -/
theorem Resolves.challenge_eq (resolves : forest.Resolves prefer config)
    {current : Option Derivation} (here : config.state.Built derivation)
    (held : ∀ best ∈ current, config.state.Built best) :
    challenge (config.state.better prefer forest.itemCount) current derivation =
      challenge (fun first second => forest.verdict prefer first second = .gt) current
        derivation := by
  cases current with
  | none => rfl
  | some best =>
    have same : (forest.resolve prefer).1.better prefer forest.itemCount derivation best =
        config.state.better prefer forest.itemCount derivation best :=
      better_later (resolves.underway closed known).settling (resolves.later closed known) here
        (held best rfl) forest.itemCount
    simp only [challenge, ← same]
    rfl

theorem Resolves.led (resolves : forest.Resolves prefer config)
    (accepts : Accepts config ref derivation)
    (distinct : (forest.chart.derivations ref).toList.Nodup)
    (preorder : TotalPreorder (forest.Complete prefer ref) (forest.verdict prefer)) :
    ∃ next, (traversal prefer forest.itemCount).step config = .next next ∧
      Led ref (Concedes (forest.verdict prefer) (forest.chart.derivations ref).toList derivation)
        next := by
  have underway := resolves.underway closed known
  have built := accepts.built underway
  have contends := resolves.contends closed known
  obtain ⟨room, stack, marks, resolution⟩ := config
  obtain ⟨frame, innermost, rfl, done, searched⟩ := accepts
  obtain ⟨around, rfl⟩ := List.head?_eq_some_iff.mp innermost
  obtain ⟨ref, contest, current, results, pending, rest⟩ := frame
  obtain rfl : pending = [] := done
  obtain rfl : current = some derivation := searched
  obtain ⟨tried, whole, survives⟩ := contends _ List.mem_cons_self
  refine ⟨_, rfl, .inl ⟨_, List.mem_cons_self, rfl, ?_⟩⟩
  obtain ⟨winner, elected⟩ := Option.isSome_iff_exists.mp
    (isSome_challenge (resolution.better prefer forest.itemCount) contest.best derivation)
  refine ⟨winner, (accept_best _ _ _ _ _).1.trans elected, ?_⟩
  rw [resolves.challenge_eq closed known built.2 fun best won =>
    (underway.nested.1.held.2 best won).2] at elected
  exact concedes_challenge preorder distinct whole (resolves.complete closed known built)
    (fun best won => (survives best won).1) elected

/-- What concedes to the best derivation so far concedes to the best one after the next step. -/
theorem Resolves.led_step (resolves : forest.Resolves prefer config)
    (complete : forest.Complete prefer ref derivation)
    (preorder : TotalPreorder (forest.Complete prefer ref) (forest.verdict prefer))
    (led : Led ref
      (Concedes (forest.verdict prefer) (forest.chart.derivations ref).toList derivation) config)
    (proceeds : (traversal prefer forest.itemCount).step config = .next next) :
    Led ref (Concedes (forest.verdict prefer) (forest.chart.derivations ref).toList derivation)
      next := by
  have underway := resolves.underway closed known
  refine led.step underway ?_ proceeds
  intro best other winner concedes accepts held elected
  have candidate := accepts.built underway
  have decided : challenge (config.state.better prefer forest.itemCount) (some best) other = _ :=
    resolves.challenge_eq closed known candidate.2 (by simpa using held.2)
  exact concedes.stays preorder complete (resolves.complete closed known held)
    (resolves.complete closed known candidate) (decided.symm.trans elected)

/-- What survives is complete, and concedes to the derivation that is kept, if the verdicts are a
total preorder. -/
theorem Survives.concedes (survives : forest.Survives prefer ref derivation)
    (distinct : (forest.chart.derivations ref).toList.Nodup)
    (preorder : TotalPreorder (forest.Complete prefer ref) (forest.verdict prefer)) :
    forest.Complete prefer ref derivation ∧
      Left ref (Concedes (forest.verdict prefer) (forest.chart.derivations ref).toList derivation)
        (forest.resolve prefer).1 := by
  obtain ⟨config, resolves, accepts⟩ := survives
  have complete := resolves.complete closed known (accepts.built (resolves.underway closed known))
  refine ⟨complete, ?_⟩
  obtain ⟨next, proceeds, led⟩ := resolves.led closed known accepts distinct preorder
  have onward : forest.Resolves prefer next := resolves.step proceeds
  obtain ⟨last, reached, led, ended⟩ := onward.last _
    (fun reached led proceeds =>
      Resolves.led_step closed known reached complete preorder led proceeds) led
  rw [Reaches.run_eq onward] at ended
  have ended := ended.trans (congrArg _ (forest.traverse_eq_resolve prefer))
  have left := led.ends (Resolves.underway closed known reached) ended
  exact left

end Verdict

end Forest

end ChartParser
