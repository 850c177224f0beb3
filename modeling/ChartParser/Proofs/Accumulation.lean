import ChartParser.Accumulation
import Mathlib.Data.List.Induction
import Mathlib.Data.List.Nodup

namespace ChartParser

variable {β : Type} [BEq β] [LawfulBEq β]

theorem nodup_pushNew {known : Array β} (distinct : known.toList.Nodup) (value : β) :
    (pushNew known value).toList.Nodup := by
  by_cases present : value ∈ known
  · rwa [pushNew_found present]
  · rw [pushNew_absent present, Array.toList_push]
    refine distinct.append (List.nodup_singleton _) ?_
    rw [List.disjoint_singleton, Array.mem_toList_iff]
    exact present

theorem mem_foldl_pushNew {known : Array β} {values : List β} {value : β} :
    value ∈ values.foldl pushNew known ↔ value ∈ known ∨ value ∈ values := by
  induction values generalizing known with
  | nil => simp
  | cons first rest ih => rw [List.foldl_cons, ih, mem_pushNew, List.mem_cons, or_assoc]

theorem nodup_foldl_pushNew {known : Array β} (distinct : known.toList.Nodup) (values : List β) :
    (values.foldl pushNew known).toList.Nodup := by
  induction values generalizing known with
  | nil => exact distinct
  | cons first rest ih => exact ih (nodup_pushNew distinct first)

/-- What is collected behind the known values. -/
theorem toList_foldl_pushNew (known : Array β) (values : List β) :
    (values.foldl pushNew known).toList =
      known.toList ++ (values.removeAll known.toList).eraseDups := by
  induction values using List.reverseRecOn with
  | nil => simp
  | append_singleton before value ih =>
    have parts : (before ++ [value]).removeAll known.toList =
        before.removeAll known.toList ++ [value].removeAll known.toList := List.filter_append ..
    rw [List.foldl_append, List.foldl_cons, List.foldl_nil, parts, List.eraseDups_append,
      ← List.append_assoc, ← ih]
    by_cases present : value ∈ known
    · rw [pushNew_found (mem_foldl_pushNew.mpr (.inl present))]
      simp [List.removeAll, present]
    · by_cases repeated : value ∈ before
      · rw [pushNew_found (mem_foldl_pushNew.mpr (.inr repeated))]
        simp [List.removeAll, present, repeated]
      · rw [pushNew_absent fun member => (mem_foldl_pushNew.mp member).elim present repeated]
        simp [List.removeAll, present, repeated, List.eraseDups_cons]

theorem toList_foldl_pushNew_empty (values : List β) :
    (values.foldl pushNew #[]).toList = values.eraseDups := by
  rw [toList_foldl_pushNew]
  simp [List.removeAll]

theorem nodup_eraseDups (values : List β) : values.eraseDups.Nodup := by
  rw [← toList_foldl_pushNew_empty]
  exact nodup_foldl_pushNew List.nodup_nil values

theorem eraseDups_of_nodup {values : List β} (distinct : values.Nodup) :
    values.eraseDups = values := by
  induction values with
  | nil => rfl
  | cons value rest ih =>
    obtain ⟨absent, distinct⟩ := List.nodup_cons.mp distinct
    have others : rest.filter (fun other => !other == value) = rest :=
      List.filter_eq_self.mpr fun other member => by
        have apart : other ≠ value := fun same => absent (same ▸ member)
        simpa using apart
    rw [List.eraseDups_cons, others, ih distinct]

end ChartParser
