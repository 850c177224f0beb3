import ChartParser.Forest.Basic
import ChartParser.Proofs.Chart.Enter
import Mathlib.Data.List.Perm.Subperm
import Mathlib.Logic.Relation

namespace ChartParser.Chart

variable {chart : Chart}

def Child (chart : Chart) (ref child : ItemRef) : Prop :=
  ∃ derivation ∈ chart.derivations ref, child ∈ derivation.children

/-- All derivations are built of items of the chart. -/
def Closed (chart : Chart) : Prop :=
  ∀ {ref child}, chart.Child ref child → (chart.item? child).isSome = true

/-- No node below this one is its own descendant. -/
def Acyclic (chart : Chart) (ref : ItemRef) : Prop :=
  ∀ node, Relation.ReflTransGen chart.Child ref node → ¬ Relation.TransGen chart.Child node node

theorem Acyclic.child {ref child : ItemRef} (acyclic : chart.Acyclic ref)
    (below : chart.Child ref child) : chart.Acyclic child :=
  fun node reached => acyclic node (.head below reached)

/-- No node below this one has several derivations, nor has the node itself. -/
def Narrow (chart : Chart) (ref : ItemRef) : Prop :=
  ∀ node, Relation.ReflTransGen chart.Child ref node → (chart.derivations node).size ≤ 1

theorem Narrow.child {ref child : ItemRef} (narrow : chart.Narrow ref)
    (below : chart.Child ref child) : chart.Narrow child :=
  fun node reached => narrow node (.head below reached)

theorem sole_of_mem {ref : ItemRef} {derivation : Derivation}
    (member : derivation ∈ chart.derivations ref) (few : ¬ 1 < (chart.derivations ref).size) :
    chart.derivations ref = #[derivation] := by
  have some := Array.size_pos_of_mem member
  obtain ⟨only, same⟩ := Array.size_eq_one_iff.mp (Nat.le_antisymm (Nat.not_lt.mp few) some)
  rw [same, Array.mem_singleton] at member
  rw [same, member]

theorem Narrow.derivation_eq {ref : ItemRef} (narrow : chart.Narrow ref)
    {derivation other : Derivation} (member : derivation ∈ chart.derivations ref)
    (member' : other ∈ chart.derivations ref) : derivation = other := by
  obtain ⟨place, inside, rfl⟩ := Array.mem_iff_getElem.mp member
  obtain ⟨place', inside', rfl⟩ := Array.mem_iff_getElem.mp member'
  have single := narrow ref .refl
  obtain rfl : place = place' := by omega
  rfl

theorem Unfolds.unique {nodes : List ItemRef} {trees others : List Tree}
    (unfolds : chart.Unfolds nodes trees) (narrow : ∀ ref ∈ nodes, chart.Narrow ref)
    (again : chart.Unfolds nodes others) : trees = others := by
  have below {ref : ItemRef} {derivation : Derivation} (narrow : chart.Narrow ref)
      (member : derivation ∈ chart.derivations ref) :
      ∀ child ∈ derivation.children, chart.Narrow child :=
    fun child listed => narrow.child ⟨derivation, member, listed⟩
  induction unfolds generalizing others with
  | nil =>
    cases again
    rfl
  | lexeme held _ ih =>
    rw [List.forall_mem_cons] at narrow
    cases again with
    | lexeme held' rest =>
      obtain ⟨tags, -⟩ := held.unique held'
      cases tags
      rw [ih narrow.2 rest]
    | dotted held' => cases (held.unique held').1
    | rule held' => cases (held.unique held').1
  | dotted held member _ _ ih ih' =>
    rw [List.forall_mem_cons] at narrow
    obtain ⟨here, beside⟩ := narrow
    cases again with
    | lexeme held' => cases (held.unique held').1
    | dotted held' member' inner rest =>
      obtain rfl := here.derivation_eq member' member
      rw [ih (below here member) inner, ih' beside rest]
    | rule held' => cases (held.unique held').1
  | rule held member _ _ ih ih' =>
    rw [List.forall_mem_cons] at narrow
    obtain ⟨here, beside⟩ := narrow
    cases again with
    | lexeme held' => cases (held.unique held').1
    | dotted held' => cases (held.unique held').1
    | rule held' member' inner rest =>
      obtain rfl := here.derivation_eq member' member
      rw [ih (below here member) inner, ih' beside rest]

theorem holds_iff_item {ref : ItemRef} :
    (∃ tag start, chart.Holds ref tag start) ↔ (chart.item? ref).isSome = true := by
  rw [Option.isSome_iff_exists]
  constructor
  · intro held
    obtain ⟨tag, start, item, found, -⟩ := held
    exact ⟨item, found⟩
  · intro known
    obtain ⟨item, found⟩ := known
    exact ⟨item.tag, item.start, item, found, rfl, rfl⟩

theorem sole_eq_some_iff {ref : ItemRef} {derivation : Derivation} :
    chart.sole? ref = some derivation ↔ chart.derivations ref = #[derivation] := by
  unfold sole? derivations
  cases chart.item? ref with
  | none => simp
  | some item =>
    rw [Option.bind_some]
    exact Derivations.sole_eq_some_iff

section Skeleton

def skeleton (chart : Chart) : Chart := ⟨chart.sets.map ItemSet.skeleton⟩

theorem sets_skeleton (offset : Nat) :
    chart.skeleton.sets[offset]? = chart.sets[offset]?.map ItemSet.skeleton := by
  simp [skeleton]

theorem holds_skeleton {ref : ItemRef} {tag : Tag} {start : Nat} :
    chart.skeleton.Holds ref tag start ↔ chart.Holds ref tag start := by
  rw [holds_iff, holds_iff, sets_skeleton]
  cases chart.sets[ref.set]? with
  | none => simp
  | some set => simp [ItemSet.holdsAt_skeleton]

theorem skeleton_collapse (ref : ItemRef) (derivation : Derivation) :
    (chart.collapse ref derivation).skeleton = chart.skeleton := by
  have sets : (chart.collapse ref derivation).skeleton.sets = chart.skeleton.sets := by
    apply Array.ext_getElem?
    intro offset
    rw [sets_skeleton, sets_skeleton, collapse, Array.getElem?_modify]
    split
    · cases chart.sets[offset]? with
      | none => rfl
      | some set => simp [ItemSet.skeleton_collapse]
    · rfl
  exact congrArg Chart.mk sets

end Skeleton

section Collapse

theorem item_collapse (ref other : ItemRef) (derivation : Derivation) :
    (chart.collapse ref derivation).item? other = (chart.item? other).map fun item =>
      if other = ref then { item with ways := item.ways.collapse derivation } else item := by
  obtain ⟨set, place⟩ := ref
  obtain ⟨set', place'⟩ := other
  simp only [item?, collapse, Array.getElem?_modify, ItemRef.mk.injEq]
  by_cases same : set = set'
  · subst same
    cases chart.sets[set]? with
    | none => simp
    | some items =>
      by_cases here : place = place'
      · subst here
        simp [ItemSet.collapse, Array.getElem?_modify]
      · simp [ItemSet.collapse, Array.getElem?_modify, here, Ne.symm here]
  · simp [same, Ne.symm same]

theorem derivations_collapse_same {ref : ItemRef} {derivation : Derivation} {tag : Tag}
    {start : Nat} (held : chart.Holds ref tag start) :
    (chart.collapse ref derivation).derivations ref = #[derivation] := by
  obtain ⟨item, found, -⟩ := held
  rw [derivations, item_collapse, found, Option.map_some, if_pos rfl]
  exact item.ways.toArray_collapse derivation

theorem derivations_collapse_other {ref other : ItemRef} (apart : other ≠ ref)
    (derivation : Derivation) :
    (chart.collapse ref derivation).derivations other = chart.derivations other := by
  simp only [derivations, item_collapse, if_neg apart]
  cases chart.item? other <;> rfl

end Collapse

section Counting

theorem mem_refs {ref : ItemRef} : ref ∈ chart.refs ↔ (chart.item? ref).isSome = true := by
  obtain ⟨set, place⟩ := ref
  simp only [refs, List.mem_flatMap, List.mem_map, List.mem_range, Prod.exists,
    List.mem_zipIdx_iff_getElem?, Array.getElem?_toList, ItemRef.mk.injEq, item?]
  constructor
  · intro listed
    obtain ⟨items, offset, found, other, inside, rfl, rfl⟩ := listed
    simp [found, inside]
  · intro some
    cases found : chart.sets[set]? with
    | none => simp [found] at some
    | some items =>
      refine ⟨items, set, found, place, ?_, rfl, rfl⟩
      simpa [found] using some

theorem length_le_itemCount {path : List ItemRef} (distinct : path.Nodup)
    (known : ∀ ref ∈ path, (chart.item? ref).isSome = true) : path.length ≤ chart.itemCount := by
  apply List.Subperm.length_le
  exact List.subperm_of_subset distinct fun ref member => mem_refs.mpr (known ref member)

theorem flag_marks (ref : ItemRef) :
    chart.marks.flag? ref = (chart.item? ref).map fun _ => false := by
  simp only [marks, Marks.clear, Marks.flag?, item?, Array.getElem?_map, Option.map_map]
  cases chart.sets[ref.set]? with
  | none => simp
  | some set =>
    by_cases inside : ref.place < set.items.size
    · simp [inside]
    · simp [inside]

theorem isSome_flag_marks (ref : ItemRef) :
    (chart.marks.flag? ref).isSome = (chart.item? ref).isSome := by
  rw [flag_marks, Option.isSome_map]

theorem contains_marks (ref : ItemRef) : chart.marks.contains ref = false := by
  rw [Marks.contains, flag_marks]
  cases chart.item? ref <;> rfl

theorem freeCount_marks : chart.marks.freeCount = chart.itemCount := by
  have sizes : chart.sets.toList.map (fun set => set.items.size) =
      (chart.sets.toList.zipIdx.map Prod.fst).map fun set => set.items.size := by
    rw [List.zipIdx_map_fst]
  simp only [marks, Marks.clear, Marks.freeCount, itemCount, refs, Array.toList_map,
    List.count_flatMap, List.length_flatMap, List.map_map, Function.comp_def, List.length_map,
    List.length_range, Array.toList_replicate, List.count_replicate_self]
  rw [sizes, List.map_map]
  rfl

end Counting

/-- It is enough to look at the items of a chart. -/
theorem closed_of_refs (known : ∀ ref ∈ chart.refs, ∀ derivation ∈ (chart.derivations ref).toList,
    ∀ child ∈ derivation.children, (chart.item? child).isSome = true) : chart.Closed := by
  intro ref child below
  obtain ⟨derivation, member, listed⟩ := below
  exact known ref (mem_refs.mpr (holds_iff_item.mp (exists_holds member))) derivation
    (Array.mem_toList_iff.mpr member) child listed

theorem size_le_of_refs {count : Nat}
    (few : ∀ ref ∈ chart.refs, (chart.derivations ref).size ≤ count) (ref : ItemRef) :
    (chart.derivations ref).size ≤ count := by
  rcases Nat.eq_zero_or_pos (chart.derivations ref).size with none | some
  · exact none ▸ Nat.zero_le count
  · have held := exists_holds (Array.getElem_mem some)
    exact few ref (mem_refs.mpr (holds_iff_item.mp held))

/-- In a chart of which the children have smaller ranks no node is its own descendant. -/
theorem acyclic_of_rank (rank : ItemRef → Nat)
    (falls : ∀ ref ∈ chart.refs, ∀ derivation ∈ (chart.derivations ref).toList,
      ∀ child ∈ derivation.children, rank child < rank ref) (ref : ItemRef) :
    chart.Acyclic ref := by
  intro node _ cycle
  have below {ref other : ItemRef} (descends : Relation.TransGen chart.Child ref other) :
      rank other < rank ref := by
    have step {ref child : ItemRef} (below : chart.Child ref child) : rank child < rank ref := by
      obtain ⟨derivation, member, listed⟩ := below
      exact falls ref (mem_refs.mpr (holds_iff_item.mp (exists_holds member))) derivation
        (Array.mem_toList_iff.mpr member) child listed
    induction descends with
    | single below => exact step below
    | tail _ below ih => exact (step below).trans ih
  exact Nat.lt_irrefl _ (below cycle)

variable {α : Type} {grammar : Grammar α} {input : Array String}

private theorem Splits.child {tag : Tag} {start stop : Nat} {derivation : Derivation}
    (split : chart.Splits grammar input tag start stop derivation) {child : ItemRef}
    (listed : child ∈ derivation.children) :
    ∃ tag start, chart.Holds child tag start ∧ tag.Advanced := by
  cases split with
  | empty => cases listed
  | step held next covers left =>
    rcases List.mem_append.mp listed with before | last
    · cases left with
      | nothing => cases before
      | first dot symbol opens same =>
        obtain rfl := List.mem_singleton.mp before
        obtain ⟨tag, held, advanced⟩ := Sound.advanced_of_covers opens
        exact ⟨tag, _, held, advanced⟩
      | waiting dot =>
        obtain rfl := List.mem_singleton.mp before
        exact ⟨_, _, held, Nat.ne_of_gt (Nat.lt_of_lt_of_le Nat.two_pos dot)⟩
    · obtain rfl := List.mem_singleton.mp last
      obtain ⟨tag, held, advanced⟩ := Sound.advanced_of_covers covers
      exact ⟨tag, _, held, advanced⟩

theorem Sound.child (sound : chart.Sound grammar input) {ref child : ItemRef}
    (below : chart.Child ref child) :
    ∃ tag start, chart.Holds child tag start ∧ tag.Advanced := by
  obtain ⟨derivation, member, listed⟩ := below
  obtain ⟨tag, start, held⟩ := exists_holds member
  exact (sound.derived held member).child listed

theorem Sound.closed (sound : chart.Sound grammar input) : chart.Closed := by
  intro ref child below
  obtain ⟨tag, start, held, -⟩ := sound.child below
  exact holds_iff_item.mp ⟨tag, start, held⟩

theorem Sound.derivations_lexeme (sound : chart.Sound grammar input) {ref : ItemRef}
    {offset start : Nat} (held : chart.Holds ref (.lexeme offset) start) :
    chart.derivations ref = #[] := by
  apply Array.eq_empty_iff_forall_not_mem.mpr
  intro derivation member
  exact (sound.derived held member).not_lexeme offset rfl

theorem Sound.lexeme_of_bare (sound : chart.Sound grammar input) {ref : ItemRef} {tag : Tag}
    {start : Nat} (held : chart.Holds ref tag start) (advanced : tag.Advanced)
    (bare : chart.derivations ref = #[]) : ∃ offset, tag = .lexeme offset := by
  obtain ⟨trees, unfolds⟩ := sound.grounded held advanced
  cases unfolds with
  | lexeme held' =>
    obtain ⟨tags, -⟩ := held.unique held'
    exact ⟨_, tags⟩
  | dotted _ member =>
    rw [bare] at member
    exact absurd member (Array.not_mem_empty _)
  | rule _ member =>
    rw [bare] at member
    exact absurd member (Array.not_mem_empty _)

end ChartParser.Chart
