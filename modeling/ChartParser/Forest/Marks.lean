import ChartParser.Chart.Item

namespace ChartParser

/-- One flag for every item, set by set. -/
structure Marks where
  rows : Array (Array Bool)

namespace Marks

/-- No item is marked. The sizes are those of the item sets. -/
def clear (sizes : Array Nat) : Marks := ⟨sizes.map fun size => Array.replicate size false⟩

/-- The flag of an item, if there is such an item. -/
def flag? (marks : Marks) (ref : ItemRef) : Option Bool :=
  marks.rows[ref.set]?.bind (·[ref.place]?)

def contains (marks : Marks) (ref : ItemRef) : Bool := marks.flag? ref == some true

/-- Is there such an item, and is it not marked? -/
def isFree (marks : Marks) (ref : ItemRef) : Bool := marks.flag? ref == some false

def write (marks : Marks) (ref : ItemRef) (flag : Bool) : Marks :=
  ⟨marks.rows.modify ref.set fun row => row.setIfInBounds ref.place flag⟩

def insert (marks : Marks) (ref : ItemRef) : Marks := marks.write ref true

def erase (marks : Marks) (ref : ItemRef) : Marks := marks.write ref false

def freeCount (marks : Marks) : Nat := (marks.rows.toList.flatMap Array.toList).count false

/-- Writing a flag changes the flag of that item only, and only if there is such an item. -/
theorem flag?_write (marks : Marks) (written read : ItemRef) (flag : Bool) :
    (marks.write written flag).flag? read =
      if written = read then (marks.flag? read).map fun _ => flag else marks.flag? read := by
  rcases written with ⟨set, place⟩
  rcases read with ⟨otherSet, otherPlace⟩
  simp only [write, flag?, Array.getElem?_modify, ItemRef.mk.injEq]
  by_cases sameSet : set = otherSet
  · subst sameSet
    cases found : marks.rows[set]? with
    | none => simp
    | some row =>
      by_cases samePlace : place = otherPlace
      · subst samePlace
        by_cases inside : place < row.size <;> simp [inside]
      · simp [samePlace]
  · simp [sameSet]

@[simp] theorem contains_insert (marks : Marks) (written read : ItemRef) :
    (marks.insert written).contains read =
      ((written = read ∧ (marks.flag? read).isSome) || marks.contains read) := by
  by_cases same : written = read
  · cases found : marks.flag? read <;> simp [insert, contains, flag?_write, same, found]
  · simp [insert, contains, flag?_write, same]

@[simp] theorem contains_erase (marks : Marks) (written read : ItemRef) :
    (marks.erase written).contains read = (!decide (written = read) && marks.contains read) := by
  by_cases same : written = read
  · cases found : marks.flag? read <;> simp [erase, contains, flag?_write, same, found]
  · simp [erase, contains, flag?_write, same]

private theorem count_modify_lt {row : Array Bool} {place : Nat} (free : row[place]? = some false) :
    (row.setIfInBounds place true).count false < row.count false := by
  obtain ⟨inside, value⟩ := Array.getElem?_eq_some_iff.mp free
  have member : false ∈ row := value ▸ Array.getElem_mem inside
  have positive := Array.count_pos_iff.mpr member
  simp only [Array.setIfInBounds, inside, dite_true, Array.count_set, value]
  simp
  omega

private theorem count_flatMap_modify_lt {rows : List (Array Bool)} {set : Nat} {row : Array Bool}
    (found : rows[set]? = some row) (change : Array Bool → Array Bool)
    (smaller : (change row).count false < row.count false) :
    ((rows.modify set change).flatMap Array.toList).count false <
      (rows.flatMap Array.toList).count false := by
  induction rows generalizing set with
  | nil => simp at found
  | cons first rest ih =>
    cases set with
    | zero =>
      obtain rfl : first = row := by simpa using found
      simpa using smaller
    | succ set =>
      have later := @ih set (by simpa using found)
      simpa using later

theorem freeCount_insert_lt {marks : Marks} {ref : ItemRef} (free : marks.isFree ref = true) :
    (marks.insert ref).freeCount < marks.freeCount := by
  simp only [isFree, flag?, beq_iff_eq, Option.bind_eq_some_iff] at free
  obtain ⟨row, found, flag⟩ := free
  simp only [freeCount, insert, write, Array.toList_modify]
  exact count_flatMap_modify_lt (by simpa using found) _ (count_modify_lt flag)

end Marks

end ChartParser
