import ChartParser.Proofs.Forest.Progress
import ChartParser.Proofs.Traversal.Recursion

/-! The search that resolves a forest makes progress at every node, and it does not fail at a node
that can be unfolded without the nodes on the path. -/
namespace ChartParser.Resolution

variable {chart : Chart} {prefer : Nat → Nat → Bool} {resolution next : Resolution}
  {path : List ItemRef}

/-- The node can be unfolded without the nodes on the path, at most so many levels deep, if what has
been resolved is not entered. -/
inductive Resolvable (chart : Chart) (resolution : Resolution) (path : List ItemRef) :
    Nat → ItemRef → Prop
  | done (done : resolution.resolved.contains ref = true) :
      Resolvable chart resolution path rank ref
  | leaf (aside : ref ∉ path) (bare : chart.derivations ref = #[]) :
      Resolvable chart resolution path rank ref
  | node (aside : ref ∉ path) (member : derivation ∈ chart.derivations ref)
      (below : ∀ child ∈ derivation.children, Resolvable chart resolution path rank child) :
      Resolvable chart resolution path (rank + 1) ref

theorem Resolvable.mono {rank more : Nat} {ref : ItemRef} (deeper : rank ≤ more)
    (resolvable : Resolvable chart resolution path rank ref) :
    Resolvable chart resolution path more ref := by
  induction resolvable generalizing more with
  | done done => exact .done done
  | leaf aside bare => exact .leaf aside bare
  | node aside member below ih =>
    cases more with
    | zero => exact absurd deeper (Nat.not_succ_le_zero _)
    | succ more =>
      exact .node aside member fun child listed => ih child listed (Nat.le_of_succ_le_succ deeper)

theorem Resolvable.later (later : resolution.Later next) {rank : Nat} {ref : ItemRef}
    (resolvable : Resolvable chart resolution path rank ref) :
    Resolvable chart next path rank ref := by
  induction resolvable with
  | done done => exact .done (later.resolved done)
  | leaf aside bare => exact .leaf aside bare
  | node aside member below ih => exact .node aside member ih

/-- What can be unfolded in fewer levels than a node is unfolded without that node. -/
theorem Resolvable.avoid {rank : Nat} {ref node : ItemRef}
    (deep : ¬ Resolvable chart resolution path rank ref)
    (resolvable : Resolvable chart resolution path rank node) :
    Resolvable chart resolution (ref :: path) rank node := by
  induction resolvable with
  | done done => exact .done done
  | leaf aside bare =>
    refine .leaf ?_ bare
    intro member
    rcases List.mem_cons.mp member with rfl | member
    · exact deep (.leaf aside bare)
    · exact aside member
  | node aside member below ih =>
    refine .node ?_ member fun child listed =>
      ih child listed fun shallow => deep (shallow.mono (Nat.le_succ _))
    intro member'
    rcases List.mem_cons.mp member' with rfl | member'
    · exact deep (.node aside member below)
    · exact aside member'

/-- A node that can be unfolded at all has a derivation that is unfolded without it: that of the
shallowest way to unfold it. -/
theorem Resolvable.descend {rank : Nat} {ref : ItemRef}
    (resolvable : Resolvable chart resolution path rank ref)
    (unresolved : resolution.resolved.contains ref = false)
    (several : chart.derivations ref ≠ #[]) :
    ∃ derivation ∈ chart.derivations ref, ∀ child ∈ derivation.children,
      ∃ rank, Resolvable chart resolution (ref :: path) rank child := by
  classical
  -- the least rank at which the node is resolvable leaves it out of its own unfolding
  have exists' : ∃ rank, Resolvable chart resolution path rank ref := ⟨rank, resolvable⟩
  have least := Nat.find_spec exists'
  have minimal := fun rank => Nat.find_min exists' (m := rank)
  generalize Nat.find exists' = smallest at least minimal
  cases least with
  | done done =>
    rw [unresolved] at done
    cases done
  | leaf aside bare => exact absurd bare several
  | @node _ _ rank aside member below =>
    have deep := minimal rank (Nat.lt_succ_self _)
    exact ⟨_, member, fun child listed => ⟨_, (below child listed).avoid deep⟩⟩

section Search

/-- When a search below a path begins, and when it ends, the nodes on the path are unresolved. -/
structure Ready (chart : Chart) (prefer : Nat → Nat → Bool) (path : List ItemRef)
    (resolution : Resolution) : Prop where
  progress : Progress chart prefer resolution
  unresolved : ∀ node ∈ path, resolution.resolved.contains node = false

theorem Settled.resolvable (ready : Ready chart prefer path next) {height : Nat} {ref : ItemRef}
    (settled : next.Settled height ref) : Resolvable chart resolution path height ref := by
  have aside {ref : ItemRef} (done : next.resolved.contains ref = true) : ref ∉ path := by
    intro active
    rw [ready.unresolved ref active] at done
    cases done
  induction settled with
  | leaf done bare => exact .leaf (aside done) (ready.progress.bare bare)
  | node done sole below ih =>
    refine .node (aside done) (ready.progress.extends.derivations ?_) ih
    rw [sole]
    exact Array.mem_singleton.mpr rfl

theorem Resolvable.earlier (ready : Ready chart prefer path next) {rank : Nat} {ref : ItemRef}
    (resolvable : Resolvable chart next path rank ref) :
    Resolvable chart resolution path (rank + chart.itemCount) ref := by
  induction resolvable with
  | done done =>
    exact Resolvable.mono (by omega) ((ready.progress.settled done).resolvable ready)
  | leaf aside bare => exact .leaf aside bare
  | @node derivation ref rank aside member below ih =>
    rw [Nat.add_right_comm]
    exact .node aside member ih

/-- The way in which a search of the nodes below a path is meant to work. -/
def Searches (chart : Chart) (prefer : Nat → Nat → Bool) (path : List ItemRef)
    (visit : ItemRef → Resolution → Except Empty (Resolution × Option Unit)) : Prop :=
  ∀ {ref resolution}, (chart.item? ref).isSome = true →
    (∀ node ∈ path, Relation.TransGen chart.Child node ref) →
    Ready chart prefer path resolution →
    ∃ next result, visit ref resolution = .ok (next, result) ∧
      Ready chart prefer path next ∧ resolution.Later next ∧
      (result.isSome = true → next.resolved.contains ref = true) ∧
      ((∃ rank, Resolvable chart resolution path rank ref) → result.isSome = true)

variable {visit : ItemRef → Resolution → Except Empty (Resolution × Option Unit)}

theorem visitChildren_spec (searches : Searches chart prefer path visit)
    {children : List ItemRef} (known : ∀ child ∈ children, (chart.item? child).isSome = true)
    (below : ∀ child ∈ children, ∀ node ∈ path, Relation.TransGen chart.Child node child)
    (ready : Ready chart prefer path resolution) :
    ∃ next results, Traversal.visitChildren visit children resolution = .ok (next, results) ∧
      Ready chart prefer path next ∧ resolution.Later next ∧
      (results.isSome = true → ∀ child ∈ children, next.resolved.contains child = true) ∧
      ((∀ child ∈ children, ∃ rank, Resolvable chart resolution path rank child) →
        results.isSome = true) := by
  induction children generalizing resolution with
  | nil => exact ⟨resolution, some [], rfl, ready, .refl _, by simp, fun _ => rfl⟩
  | cons child children ih =>
    obtain ⟨middle, result, visited, first, later, done, success⟩ :=
      searches (known child (by simp)) (below child (by simp)) ready
    cases result with
    | none =>
      refine ⟨middle, none, ?_, first, later, by simp, ?_⟩
      · simp only [Traversal.visitChildren, visited, bind, Except.bind]
      · intro resolvable
        exact absurd (success (resolvable child (by simp))) Bool.false_ne_true
    | some found =>
      obtain ⟨last, results, visited', second, later', done', success'⟩ :=
        ih (fun other member => known other (by simp [member]))
          (fun other member => below other (by simp [member])) first
      refine ⟨last, results.map (found :: ·), ?_, second, later.trans later', ?_, ?_⟩
      · simp only [Traversal.visitChildren, visited, visited', bind, Except.bind]
      · intro some other member
        rw [Option.isSome_map] at some
        rcases List.mem_cons.mp member with rfl | member
        · exact later'.resolved (done rfl)
        · exact done' some other member
      · intro resolvable
        rw [Option.isSome_map]
        apply success'
        intro other member
        obtain ⟨rank, unfolds⟩ := resolvable other (by simp [member])
        exact ⟨rank, unfolds.later later⟩

theorem enter_done {ref : ItemRef} (done : resolution.resolved.contains ref = true) :
    resolution.enter ref = (resolution, .closed (some ())) := by
  simp only [enter, done, if_true]

theorem enter_bare {ref : ItemRef} (unresolved : resolution.resolved.contains ref = false)
    (bare : resolution.chart.derivations ref = #[]) :
    resolution.enter ref =
      ({ resolution with resolved := resolution.resolved.insert ref }, .closed (some ())) := by
  simp [enter, unresolved, bare]

theorem enter_opened {ref : ItemRef} (unresolved : resolution.resolved.contains ref = false)
    (derived : resolution.chart.derivations ref ≠ #[]) :
    resolution.enter ref = (resolution, .opened
      ((resolution.chart.derivations ref).toList.map fun derivation =>
        (derivation, derivation.children))
      ⟨decide (1 < (resolution.chart.derivations ref).size), none⟩) := by
  simp [enter, unresolved, derived]

theorem accept_best (resolution : Resolution) (prefer : Nat → Nat → Bool) (contest : Contest)
    (derivation : Derivation) (depth : Nat) :
    (resolution.accept prefer depth contest derivation).best =
      challenge (resolution.better prefer depth) contest.best derivation ∧
    (resolution.accept prefer depth contest derivation).several = contest.several := by
  unfold accept challenge better
  cases best : contest.best with
  | none => exact ⟨rfl, rfl⟩
  | some current =>
    simp only [decide_eq_true_eq]
    split
    · exact ⟨rfl, rfl⟩
    · exact ⟨best, rfl⟩

/-- While the derivations of a node are tried, those that have failed cannot be unfolded without the
path, whatever is resolved later. -/
def Contending (chart : Chart) (prefer : Nat → Nat → Bool) (path : List ItemRef)
    (resolution : Resolution) (ref : ItemRef) (tried : List Derivation)
    (best : Option Derivation) : Prop :=
  ∃ survivors, survivors.Sublist tried ∧
    (∀ derivation ∈ survivors, resolution.Built derivation) ∧
    (chart.Acyclic ref → survivors = tried) ∧
    (∀ derivation ∈ tried, derivation ∉ survivors →
      ¬ ∀ child ∈ derivation.children, ∃ rank, Resolvable chart resolution path rank child) ∧
    elect (resolution.better prefer chart.itemCount) survivors = best

theorem Contending.contested {ref : ItemRef} {tried : List Derivation} {best : Option Derivation}
    (contending : Contending chart prefer path resolution ref tried best) :
    Contested chart prefer resolution ref tried best := by
  obtain ⟨survivors, among, built, all, failed, won⟩ := contending
  refine ⟨survivors, among, built, all, fun derivation member other listed same => ?_, won⟩
  by_contra absent
  apply failed other listed absent
  intro child below
  rw [same] at below
  exact ⟨0, .done (built derivation member child below)⟩

theorem Contending.later {ref : ItemRef} {tried : List Derivation} {best : Option Derivation}
    (progress : Progress chart prefer resolution) (later : resolution.Later next)
    (ready : Ready chart prefer path next)
    (contending : Contending chart prefer path resolution ref tried best) :
    Contending chart prefer path next ref tried best := by
  obtain ⟨survivors, among, built, all, failed, won⟩ := contending
  refine ⟨survivors, among, fun derivation member => (built derivation member).later later, all,
    fun derivation member absent resolvable => ?_,
    (elect_later progress.settling later chart.itemCount built).trans won⟩
  apply failed derivation member absent
  intro child below
  obtain ⟨rank, resolvable⟩ := resolvable child below
  exact ⟨_, resolvable.earlier ready⟩

theorem Contending.accept {ref : ItemRef} {tried : List Derivation} {best : Option Derivation}
    {derivation : Derivation}
    (contending : Contending chart prefer path resolution ref tried best)
    (built : resolution.Built derivation) :
    Contending chart prefer path resolution ref (tried ++ [derivation])
      (challenge (resolution.better prefer chart.itemCount) best derivation) := by
  obtain ⟨survivors, among, built', all, failed, won⟩ := contending
  refine ⟨survivors ++ [derivation], among.append (.refl _), ?_, fun acyclic => ?_, ?_, ?_⟩
  · intro other member
    rcases List.mem_append.mp member with old | last
    · exact built' other old
    · rw [List.mem_singleton.mp last]
      exact built
  · rw [all acyclic]
  · intro other member absent
    rw [List.mem_append, not_or] at absent
    exact failed other ((List.mem_append.mp member).resolve_right absent.2) absent.1
  · rw [elect_append, won]

theorem Contending.reject {ref : ItemRef} {tried : List Derivation} {best : Option Derivation}
    {derivation : Derivation}
    (contending : Contending chart prefer path resolution ref tried best)
    (cyclic : ¬ chart.Acyclic ref)
    (fails : ¬ ∀ child ∈ derivation.children,
      ∃ rank, Resolvable chart resolution path rank child) :
    Contending chart prefer path resolution ref (tried ++ [derivation]) best := by
  obtain ⟨survivors, among, built, all, failed, won⟩ := contending
  refine ⟨survivors, among.trans (List.sublist_append_left _ _), built,
    fun acyclic => absurd acyclic cyclic, fun other member absent => ?_, won⟩
  rcases List.mem_append.mp member with old | last
  · exact failed other old absent
  · rw [List.mem_singleton.mp last]
    exact fails

/-- The derivations of an open node are tried in order, and those that do not fail are compared. If
one can be unfolded without the path, there is a best one in the end. -/
theorem visitAlternatives_spec (searches : Searches chart prefer path visit) (ref : ItemRef)
    (tried candidates : List Derivation) (contest : Contest)
    (known : ∀ derivation ∈ candidates, ∀ child ∈ derivation.children,
      (chart.item? child).isSome = true)
    (below : ∀ derivation ∈ candidates, ∀ child ∈ derivation.children, ∀ node ∈ path,
      Relation.TransGen chart.Child node child)
    (acyclic : chart.Acyclic ref → ∀ derivation ∈ candidates, ∀ child ∈ derivation.children,
      ∃ rank, Resolvable chart resolution path rank child)
    (ready : Ready chart prefer path resolution)
    (contending : Contending chart prefer path resolution ref tried contest.best) :
    ∃ next after, (traversal prefer chart.itemCount).visitAlternatives visit ref
        (candidates.map fun derivation => (derivation, derivation.children)) contest resolution =
          .ok (next, after) ∧
      Ready chart prefer path next ∧ resolution.Later next ∧
      Contending chart prefer path next ref (tried ++ candidates) after.best ∧
      after.several = contest.several ∧
      ((contest.best.isSome = true ∨ ∃ derivation ∈ candidates, ∀ child ∈ derivation.children,
        ∃ rank, Resolvable chart resolution path rank child) → after.best.isSome = true) := by
  induction candidates generalizing resolution tried contest with
  | nil =>
    refine ⟨resolution, contest, rfl, ready, .refl _, ?_, rfl, ?_⟩
    · rwa [List.append_nil]
    · rintro (some | ⟨derivation, member, -⟩)
      · exact some
      · cases member
  | cons derivation candidates ih =>
    obtain ⟨middle, results, visited, first, later, done, success⟩ :=
      visitChildren_spec searches (known derivation (by simp)) (below derivation (by simp)) ready
    have contending' := contending.later ready.progress later first
    have acyclic' : chart.Acyclic ref → ∀ other ∈ candidates, ∀ child ∈ other.children,
        ∃ rank, Resolvable chart middle path rank child := by
      intro sure other member child listed
      obtain ⟨rank, unfolds⟩ := acyclic sure other (by simp [member]) child listed
      exact ⟨rank, unfolds.later later⟩
    have known' := fun other member => known other (List.mem_cons_of_mem derivation member)
    have below' := fun other member => below other (List.mem_cons_of_mem derivation member)
    cases results with
    | none =>
      have cyclic : ¬ chart.Acyclic ref := fun sure =>
        Bool.false_ne_true (success (acyclic sure derivation (by simp)))
      have fails : ¬ ∀ child ∈ derivation.children,
          ∃ rank, Resolvable chart middle path rank child := by
        intro resolvable
        apply Bool.false_ne_true
        apply success
        intro child listed
        obtain ⟨rank, resolvable⟩ := resolvable child listed
        exact ⟨_, resolvable.earlier first⟩
      obtain ⟨last, after, visited', second, later', contended, several, found⟩ :=
        ih _ _ known' below' acyclic' first (contending'.reject cyclic fails)
      refine ⟨last, after, ?_, second, later.trans later', ?_, several, ?_⟩
      · simp only [List.map_cons, Traversal.visitAlternatives, visited, visited', bind, Except.bind]
      · rwa [List.append_assoc] at contended
      · intro possible
        apply found
        rcases possible with some | ⟨other, member, unfolds⟩
        · exact .inl some
        · right
          rcases List.mem_cons.mp member with rfl | member
          · exact absurd (success unfolds) Bool.false_ne_true
          · refine ⟨other, member, fun child listed => ?_⟩
            obtain ⟨rank, unfolds⟩ := unfolds child listed
            exact ⟨rank, unfolds.later later⟩
    | some results =>
      obtain ⟨best, several⟩ := accept_best middle prefer contest derivation
        chart.itemCount
      have accepted := contending'.accept (done rfl)
      rw [← best] at accepted
      obtain ⟨last, after, visited', second, later', contended, several', found⟩ :=
        ih _ _ known' below' acyclic' first accepted
      refine ⟨last, after, ?_, second, later.trans later', ?_, several'.trans several, ?_⟩
      · simp only [List.map_cons, Traversal.visitAlternatives, visited, bind, Except.bind]
        exact visited'
      · rwa [List.append_assoc] at contended
      · intro _
        apply found
        left
        rw [best]
        exact isSome_challenge _ _ _

theorem Ready.not_resolvable (ready : Ready chart prefer path resolution) {ref : ItemRef}
    (active : ref ∈ path) (rank : Nat) : ¬ Resolvable chart resolution path rank ref := by
  intro resolvable
  cases resolvable with
  | done done =>
    rw [ready.unresolved ref active] at done
    cases done
  | leaf aside => exact aside active
  | node aside => exact aside active

variable {α : Type} {grammar : Grammar α} {input : Array String}

theorem resolvable_of_unfolds (sound : chart.Sound grammar input) (resolution : Resolution)
    (path : List ItemRef) {nodes : List ItemRef} {trees : List Tree}
    (unfolds : chart.Unfolds nodes trees)
    (aside : ∀ ref ∈ nodes, ∀ node ∈ path, ¬ Relation.ReflTransGen chart.Child ref node) :
    ∃ rank, ∀ ref ∈ nodes, Resolvable chart resolution path rank ref := by
  have inner {ref : ItemRef} {nodes : List ItemRef} {derivation : Derivation} {first second : Nat}
      (aside : ∀ other ∈ ref :: nodes, ∀ node ∈ path,
        ¬ Relation.ReflTransGen chart.Child other node)
      (member : derivation ∈ chart.derivations ref)
      (below : ∀ child ∈ derivation.children, Resolvable chart resolution path first child)
      (rest : ∀ other ∈ nodes, Resolvable chart resolution path second other) :
      ∃ rank, ∀ other ∈ ref :: nodes, Resolvable chart resolution path rank other := by
    refine ⟨max (first + 1) second, fun other listed => ?_⟩
    rcases List.mem_cons.mp listed with rfl | listed
    · have free : other ∉ path := fun active => aside other (by simp) other active .refl
      exact (Resolvable.node free member below).mono (le_max_left _ _)
    · exact (rest other listed).mono (le_max_right _ _)
  have child {ref : ItemRef} {nodes : List ItemRef} {derivation : Derivation}
      (aside : ∀ other ∈ ref :: nodes, ∀ node ∈ path,
        ¬ Relation.ReflTransGen chart.Child other node)
      (member : derivation ∈ chart.derivations ref) :
      ∀ child ∈ derivation.children, ∀ node ∈ path,
        ¬ Relation.ReflTransGen chart.Child child node :=
    fun child listed node active reached =>
      aside ref (by simp) node active (.head ⟨derivation, member, listed⟩ reached)
  induction unfolds with
  | nil => exact ⟨0, by simp⟩
  | @lexeme ref offset start nodes trees held _ ih =>
    obtain ⟨rank, rest⟩ := ih fun other listed => aside other (by simp [listed])
    refine ⟨rank, fun other listed => ?_⟩
    rcases List.mem_cons.mp listed with rfl | listed
    · have free : other ∉ path := fun active => aside other (by simp) other active .refl
      exact .leaf free (sound.derivations_lexeme held)
    · exact rest other listed
  | dotted held member _ _ ih ih' =>
    obtain ⟨first, below⟩ := ih (child aside member)
    obtain ⟨second, rest⟩ := ih' fun other listed => aside other (by simp [listed])
    exact inner aside member below rest
  | rule held member _ _ ih ih' =>
    obtain ⟨first, below⟩ := ih (child aside member)
    obtain ⟨second, rest⟩ := ih' fun other listed => aside other (by simp [listed])
    exact inner aside member below rest

theorem resolvable_child (sound : chart.Sound grammar input) (resolution : Resolution)
    {ref child : ItemRef} (acyclic : chart.Acyclic ref) (step : chart.Child ref child)
    (below : ∀ node ∈ path, Relation.TransGen chart.Child node child) :
    ∃ rank, Resolvable chart resolution path rank child := by
  obtain ⟨tag, start, held, advanced⟩ := sound.child step
  obtain ⟨trees, unfolds⟩ := sound.grounded held advanced
  have aside : ∀ other ∈ [child], ∀ node ∈ path,
      ¬ Relation.ReflTransGen chart.Child other node := by
    intro other listed node active reached
    obtain rfl := List.mem_singleton.mp listed
    exact acyclic node (.head step reached) ((below node active).trans_left reached)
  obtain ⟨rank, resolvable⟩ := resolvable_of_unfolds sound resolution path unfolds aside
  exact ⟨rank, resolvable child (by simp)⟩

/-- Leaving an open node marks it, and reduces it to its best derivation if it has several. -/
theorem leave_eq {ref : ItemRef} (known : (resolution.chart.item? ref).isSome = true)
    {contest : Contest} {best : Derivation} (chosen : contest.best = some best)
    (wide : contest.several = decide (1 < (resolution.chart.derivations ref).size))
    (member : best ∈ resolution.chart.derivations ref) :
    ∃ next, resolution.leave ref contest = (next, some ()) ∧
      next.resolved = resolution.resolved.insert ref ∧
      next.chart.skeleton = resolution.chart.skeleton ∧
      (∀ {other}, other ≠ ref →
        next.chart.derivations other = resolution.chart.derivations other) ∧
      next.chart.derivations ref = #[best] := by
  obtain ⟨tag, start, held⟩ := Chart.holds_iff_item.mpr known
  unfold leave
  rw [chosen]
  cases several : contest.several with
  | true =>
    exact ⟨_, rfl, rfl, Chart.skeleton_collapse ref best,
      fun apart => Chart.derivations_collapse_other apart best,
      Chart.derivations_collapse_same held⟩
  | false =>
    refine ⟨_, rfl, rfl, rfl, fun _ => rfl, ?_⟩
    rw [several] at wide
    exact Chart.sole_of_mem member (of_decide_eq_false wide.symm)

private theorem leave_spec {ref : ItemRef} (known : (chart.item? ref).isSome = true)
    (ready : Ready chart prefer (ref :: path) resolution) (aside : ref ∉ path)
    {contest : Contest} {best : Derivation} (chosen : contest.best = some best)
    (wide : contest.several = decide (1 < (chart.derivations ref).size))
    (contested :
      Contested chart prefer resolution ref (chart.derivations ref).toList contest.best) :
    ∃ next, resolution.leave ref contest = (next, some ()) ∧ Ready chart prefer path next ∧
      resolution.Later next ∧ next.resolved.contains ref = true := by
  have unresolved := ready.unresolved ref (by simp)
  have untouched := ready.progress.untouched unresolved
  have elected : Elected chart prefer resolution ref best := by
    rw [chosen] at contested
    exact contested
  have member : best ∈ resolution.chart.derivations ref := by
    obtain ⟨survivors, among, -, -, -, won⟩ := elected
    rw [untouched]
    exact Array.mem_toList_iff.mp (among.mem (elect_mem won))
  rw [← untouched] at wide
  have known' : (resolution.chart.item? ref).isSome = true := by
    obtain ⟨tag, start, held⟩ := Chart.holds_iff_item.mpr known
    exact Chart.holds_iff_item.mp ⟨tag, start, ready.progress.holds.mpr held⟩
  obtain ⟨next, left, marked, skeleton, others, sole⟩ := leave_eq known' chosen wide member
  obtain ⟨progress, later, done⟩ :=
    ready.progress.mark next known unresolved marked skeleton others (.inr ⟨best, sole, elected⟩)
  refine ⟨next, left, ⟨progress, fun node active => ?_⟩, later, done⟩
  have apart : ref ≠ node := fun same => aside (same ▸ active)
  rw [marked, Marks.contains_insert, ready.unresolved node (by simp [active])]
  simp [apart]

private theorem bare_spec {ref : ItemRef} (known : (chart.item? ref).isSome = true)
    (ready : Ready chart prefer path resolution) (aside : ref ∉ path)
    (unresolved : resolution.resolved.contains ref = false) (bare : chart.derivations ref = #[]) :
    ∃ next, resolution.enter ref = (next, .closed (some ())) ∧ Ready chart prefer path next ∧
      resolution.Later next ∧ next.resolved.contains ref = true := by
  have untouched := (ready.progress.untouched unresolved).trans bare
  obtain ⟨progress, later, done⟩ := ready.progress.mark
    ⟨resolution.chart, resolution.resolved.insert ref, resolution.collapsed⟩ known unresolved rfl
    rfl (fun _ => rfl) (.inl ⟨bare, untouched⟩)
  refine ⟨_, enter_bare unresolved untouched, ⟨progress, fun node active => ?_⟩, later, done⟩
  have apart : ref ≠ node := fun same => aside (same ▸ active)
  rw [Marks.contains_insert, ready.unresolved node active]
  simp [apart]

private theorem opened_spec (sound : chart.Sound grammar input) {ref : ItemRef}
    (searches : Searches chart prefer (ref :: path) visit)
    (known : (chart.item? ref).isSome = true)
    (below : ∀ node ∈ path, Relation.TransGen chart.Child node ref)
    (ready : Ready chart prefer path resolution) (aside : ref ∉ path)
    (unresolved : resolution.resolved.contains ref = false)
    (several : chart.derivations ref ≠ #[]) :
    ∃ next result, ((traversal prefer chart.itemCount).visitAlternatives visit ref
        ((chart.derivations ref).toList.map fun derivation => (derivation, derivation.children))
        ⟨decide (1 < (chart.derivations ref).size), none⟩ resolution >>= fun (state, held) =>
          .ok (state.leave ref held)) = .ok (next, result) ∧
      Ready chart prefer path next ∧ resolution.Later next ∧
      (result.isSome = true → next.resolved.contains ref = true) ∧
      ((∃ rank, Resolvable chart resolution path rank ref) → result.isSome = true) := by
  have child {derivation : Derivation} {child : ItemRef}
      (member : derivation ∈ (chart.derivations ref).toList)
      (listed : child ∈ derivation.children) : chart.Child ref child :=
    ⟨derivation, Array.mem_toList_iff.mp member, listed⟩
  have below' : ∀ derivation ∈ (chart.derivations ref).toList, ∀ child ∈ derivation.children,
      ∀ node ∈ ref :: path, Relation.TransGen chart.Child node child := by
    intro derivation member other listed node active
    rcases List.mem_cons.mp active with rfl | active
    · exact .single (child member listed)
    · exact (below node active).tail (child member listed)
  have ready' : Ready chart prefer (ref :: path) resolution := by
    refine ⟨ready.progress, fun node active => ?_⟩
    rcases List.mem_cons.mp active with rfl | active
    · exact unresolved
    · exact ready.unresolved node active
  obtain ⟨next, after, visited, ready'', later, contended, wide, found⟩ :=
    visitAlternatives_spec searches ref [] (chart.derivations ref).toList
      ⟨decide (1 < (chart.derivations ref).size), none⟩
      (fun derivation member other listed =>
        have ⟨tag, start, held, _⟩ := sound.child (child member listed)
        Chart.holds_iff_item.mp ⟨tag, start, held⟩)
      below'
      (fun acyclic derivation member other listed =>
        resolvable_child sound resolution acyclic (child member listed)
          (below' derivation member other listed))
      ready' ⟨[], .refl _, by simp, fun _ => rfl, by simp, rfl⟩
  rw [visited]
  cases best : after.best with
  | none =>
    refine ⟨next, none, ?_, ⟨ready''.progress, fun node active => ready''.unresolved node
      (List.mem_cons_of_mem ref active)⟩, later, by simp, ?_⟩
    · simp only [bind, Except.bind, leave, best]
    · intro possible
      obtain ⟨rank, resolvable⟩ := possible
      obtain ⟨derivation, member, unfolds⟩ := resolvable.descend unresolved several
      have some := found (.inr ⟨derivation, Array.mem_toList_iff.mpr member, unfolds⟩)
      rw [best] at some
      exact absurd some Bool.false_ne_true
  | some best' =>
    obtain ⟨last, left, ready''', later', done⟩ :=
      leave_spec known ready'' aside best wide contended.contested
    refine ⟨last, some (), ?_, ready''', later.trans later', fun _ => done, fun _ => rfl⟩
    simp only [bind, Except.bind, left]

/-- With enough room for all nodes off the path, the search works as it is meant to. -/
theorem visit_spec (sound : chart.Sound grammar input) (prefer : Nat → Nat → Bool) (room : Nat)
    (distinct : path.Nodup) (listed : ∀ node ∈ path, (chart.item? node).isSome = true)
    (roomy : chart.itemCount ≤ path.length + room) :
    Searches chart prefer path ((traversal prefer chart.itemCount).visit room path) := by
  induction room generalizing path with
  | zero =>
    -- without room all nodes of the chart are on the path
    intro ref resolution known below ready
    have active : ref ∈ path := by
      by_contra aside
      have longer := Chart.length_le_itemCount (List.nodup_cons.mpr ⟨aside, distinct⟩) <| by
        intro node member
        rcases List.mem_cons.mp member with rfl | member
        · exact known
        · exact listed node member
      rw [List.length_cons] at longer
      omega
    exact ⟨resolution, none, rfl, ready, .refl _, by simp,
      fun ⟨rank, resolvable⟩ => absurd resolvable (ready.not_resolvable active rank)⟩
  | succ room ih =>
    intro ref resolution known below ready
    by_cases active : ref ∈ path
    · refine ⟨resolution, none, ?_, ready, .refl _, by simp,
        fun ⟨rank, resolvable⟩ => absurd resolvable (ready.not_resolvable active rank)⟩
      exact if_pos active
    · have visited : (traversal prefer chart.itemCount).visit (room + 1) path ref resolution =
          match resolution.enter ref with
          | (state, .closed result) => .ok (state, result)
          | (state, .opened alternatives held) =>
            (traversal prefer chart.itemCount).visitAlternatives
              ((traversal prefer chart.itemCount).visit room (ref :: path)) ref alternatives held
              state >>= fun (state, held) => .ok (state.leave ref held) := by
        refine (if_neg active).trans ?_
        simp only [traversal, bind, Except.bind]
        rcases resolution.enter ref with ⟨state, result | ⟨alternatives, held⟩⟩ <;> rfl
      rw [visited]
      cases done : resolution.resolved.contains ref with
      | true =>
        rw [enter_done done]
        exact ⟨resolution, some (), rfl, ready, .refl _, fun _ => done, fun _ => rfl⟩
      | false =>
        by_cases bare : chart.derivations ref = #[]
        · obtain ⟨next, entered, ready', later, done'⟩ :=
            bare_spec known ready active done bare
          rw [entered]
          exact ⟨next, some (), rfl, ready', later, fun _ => done', fun _ => rfl⟩
        · have untouched := ready.progress.untouched done
          rw [enter_opened done (by rwa [untouched]), untouched]
          have inner : Searches chart prefer (ref :: path)
              ((traversal prefer chart.itemCount).visit room (ref :: path)) := by
            apply ih (List.nodup_cons.mpr ⟨active, distinct⟩)
            · intro node member
              rcases List.mem_cons.mp member with rfl | member
              · exact known
              · exact listed node member
            · rw [List.length_cons]
              omega
          exact opened_spec sound inner known below ready active done bare

theorem marking (chart : Chart) (prefer : Nat → Nat → Bool) :
    (traversal prefer chart.itemCount).Marking
      (fun resolution => ∀ ref, (resolution.chart.item? ref).isSome = (chart.item? ref).isSome)
      chart.marks := by
  constructor
  · intro ref resolution next arrival same entered
    simp only [traversal, Except.ok.injEq, enter] at entered
    split at entered
    · cases entered
      exact same
    · split at entered
      · cases entered
        exact same
      · cases entered
        exact same
  · intro ref resolution next alternatives held same entered
    simp only [traversal, Except.ok.injEq, enter] at entered
    split at entered
    · cases entered
    · split at entered
      · cases entered
      · rename_i several
        refine ((Chart.isSome_flag_marks ref).trans (same ref).symm).trans ?_
        cases found : resolution.chart.item? ref with
        | none => simp [Chart.derivations, found] at several
        | some item => rfl
  · intro ref held alternative results resolution next after same accepted
    cases accepted
    exact same
  · intro ref held resolution next result same left
    simp only [traversal, Except.ok.injEq, leave] at left
    split at left
    · cases left
      exact same
    · cases left
      intro other
      split
      · rw [Chart.item_collapse, Option.isSome_map]
        exact same other
      · exact same other

end Search

end ChartParser.Resolution

namespace ChartParser.Forest

open Resolution

variable {α : Type} {grammar : Grammar α} {input : Array String} {forest : Forest}

/-- Resolving a forest is the search by recursion from the root. -/
theorem resolve_eq_visit (forest : Forest) (prefer : Nat → Nat → Bool) : forest.resolve prefer =
    match (traversal prefer forest.itemCount).visit forest.itemCount [] forest.root
      ⟨forest.chart, forest.chart.marks, 0⟩ with
    | .ok (resolution, result) => (resolution, result.isSome) := by
  have searched : (traversal prefer forest.itemCount).traverse forest.itemCount
      forest.chart.marks forest.root ⟨forest.chart, forest.chart.marks, 0⟩ =
        (traversal prefer forest.itemCount).visit forest.itemCount [] forest.root
          ⟨forest.chart, forest.chart.marks, 0⟩ :=
    Traversal.traverse_eq_visit (marking forest.chart prefer) Chart.contains_marks
      forest.itemCount forest.root ⟨forest.chart, forest.chart.marks, 0⟩ (fun _ => rfl)
  unfold resolve
  generalize (traversal prefer forest.itemCount).visit forest.itemCount [] forest.root _ = visited
    at searched ⊢
  obtain stop | outcome := visited
  · exact stop.elim
  · simp only [searched]

theorem resolve_spec (sound : forest.chart.Sound grammar input) {tag : Tag} {start : Nat}
    (held : forest.chart.Holds forest.root tag start) (advanced : tag.Advanced)
    (prefer : Nat → Nat → Bool) :
    ∃ resolution, forest.resolve prefer = (resolution, true) ∧
      Progress forest.chart prefer resolution ∧
      resolution.resolved.contains forest.root = true := by
  have known := Chart.holds_iff_item.mp ⟨tag, start, held⟩
  have progress := Progress.start forest.chart prefer
  obtain ⟨next, result, visited, ready, -, done, success⟩ :=
    visit_spec sound prefer forest.chart.itemCount List.nodup_nil (by simp)
      (Nat.le_add_left _ _) known (by simp) ⟨progress, by simp⟩
  obtain ⟨trees, unfolds⟩ := sound.grounded held advanced
  obtain ⟨rank, resolvable⟩ := resolvable_of_unfolds sound
    ⟨forest.chart, forest.chart.marks, 0⟩ [] unfolds (by simp)
  have some := success ⟨rank, resolvable _ List.mem_cons_self⟩
  refine ⟨next, ?_, ready.progress, done some⟩
  rw [resolve_eq_visit, itemCount, visited]
  simp [some]

end ChartParser.Forest
