import Laminar.Lib.Merge

/-!
# Label sets

`LabelSet` is an immutable, sorted array of `long`s.  A set is modelled by the list
of its first `len` labels, and the loops over positions by loops over the rest of
the lists.

Every operation returns the object `EMPTY` when the result is empty, so the tests
`== EMPTY` are tests for the empty list.  The other tests on references are short
cuts for equal arguments, and the loops give the same answers on equal lists; they
are written as tests on the lists.  `Vm.LabelObjects` has the arrays and references of
the source and shows that they behave like these lists.
-/

namespace Laminar.Vm

open Laminar.Lib

/-- A label, a Java `long`. -/
abbrev Label := Int64

/-- `LabelSet`, with its guarantee. -/
structure LabelSet where
  labels : List Label
  sorted : Increasing labels
deriving DecidableEq

namespace LabelSet

/-- `EMPTY`. -/
def empty : LabelSet := ⟨[], .nil⟩

instance : Membership Label LabelSet := ⟨fun set l => l ∈ set.labels⟩

theorem eq_of_labels {set set' : LabelSet} (h : set.labels = set'.labels) : set = set' := by
  obtain ⟨labels, _⟩ := set
  obtain ⟨labels', _⟩ := set'
  obtain rfl : labels = labels' := h
  rfl

theorem mem_def {set : LabelSet} {l : Label} : l ∈ set ↔ l ∈ set.labels := Iff.rfl

@[simp] theorem not_mem_empty (l : Label) : l ∉ empty := List.not_mem_nil

instance (set : LabelSet) (l : Label) : Decidable (l ∈ set) :=
  inferInstanceAs (Decidable (l ∈ set.labels))

/-- `getLabelSet(long)`. -/
def getLabelSet (label : Label) : LabelSet := ⟨[label], List.pairwise_singleton _ _⟩

/-! ## Operations -/

/-- `isSubsetOfSlowPath`. -/
def isSubsetOfSlowPath (this other : LabelSet) : Bool := mergeSubset this.labels other.labels

/-- `isSubsetOf`. -/
def isSubsetOf (this other : LabelSet) : Bool :=
  if this = empty then true
  else if this = other then true
  else isSubsetOfSlowPath this other

/-- `unionSlowPath`; an argument is returned if it will do. -/
def unionSlowPath (l1 l2 : LabelSet) : LabelSet :=
  let new := mergeUnion l1.labels l2.labels
  if new.length = l1.labels.length then l1
  else if new.length = l2.labels.length then l2
  else ⟨new, mergeUnion_increasing l1.sorted l2.sorted⟩

/-- `union(LabelSet, LabelSet)`. -/
def union (l1 l2 : LabelSet) : LabelSet :=
  if l2 = empty then l1
  else if l1 = empty then l2
  else if l1 = l2 then l1
  else unionSlowPath l1 l2

/-- `union(LabelSet, long)`. -/
def unionLabel (l1 : LabelSet) (l2 : Label) : LabelSet :=
  let new := mergeUnion l1.labels [l2]
  if new.length = l1.labels.length then l1
  else ⟨new, mergeUnion_increasing l1.sorted (List.pairwise_singleton _ _)⟩

/-- `minusSlowPath`. -/
def minusSlowPath (l1 l2 : LabelSet) : LabelSet :=
  ⟨mergeMinus l1.labels l2.labels, l1.sorted.sublist (mergeMinus_sublist _ _)⟩

/-- `minus`. -/
def minus (l1 l2 : LabelSet) : LabelSet :=
  if l1 = empty ∨ l2 = empty then l1
  else if l1 = l2 then empty
  else minusSlowPath l1 l2

/-- `checkInUnionSlowPath`. -/
def checkInUnionSlowPath (this firstSet secondSet : LabelSet) : Bool :=
  mergeInUnion this.labels firstSet.labels secondSet.labels

/-- `checkInUnion`. -/
def checkInUnion (this firstSet secondSet : LabelSet) : Bool :=
  if this = empty then true
  else if firstSet = empty then this.isSubsetOf secondSet
  else if secondSet = empty then this.isSubsetOf firstSet
  else checkInUnionSlowPath this firstSet secondSet

/-! ## What they compute -/

/-- Only the empty set has no labels. -/
theorem eq_empty_iff {set : LabelSet} : set = empty ↔ ∀ l, l ∉ set := by
  refine ⟨fun h => by rw [h]; exact not_mem_empty, fun h => ?_⟩
  exact eq_of_labels (List.eq_nil_iff_forall_not_mem.2 h)

theorem isSubsetOf_iff {this other : LabelSet} :
    this.isSubsetOf other = true ↔ ∀ l ∈ this, l ∈ other := by
  unfold isSubsetOf
  split
  · rename_i h
    simp [h]
  split
  · rename_i h
    simp [h]
  · exact mergeSubset_iff this.sorted other.sorted

/-- The slow path returns the merged list, also when it returns an argument. -/
theorem labels_unionSlowPath (l1 l2 : LabelSet) :
    (unionSlowPath l1 l2).labels = mergeUnion l1.labels l2.labels := by
  dsimp only [unionSlowPath]
  split
  · rename_i hlen
    exact (sublist_mergeUnion_left l1.labels l2.labels).eq_of_length hlen.symm
  split
  · rename_i hlen
    exact (sublist_mergeUnion_right l1.labels l2.labels).eq_of_length hlen.symm
  · rfl

/-- The short cuts return what the loop would. -/
theorem labels_union (l1 l2 : LabelSet) :
    (union l1 l2).labels = mergeUnion l1.labels l2.labels := by
  unfold union
  split
  · rename_i h
    rw [h]
    exact (mergeUnion_nil_right l1.labels).symm
  split
  · rename_i h
    rw [h, empty, mergeUnion]
  split
  · rename_i h
    rw [h, mergeUnion_self]
  · exact labels_unionSlowPath l1 l2

theorem labels_unionLabel (l1 : LabelSet) (l2 : Label) :
    (unionLabel l1 l2).labels = mergeUnion l1.labels [l2] := by
  dsimp only [unionLabel]
  split
  · rename_i hlen
    exact (sublist_mergeUnion_left l1.labels [l2]).eq_of_length hlen.symm
  · rfl

theorem union_empty (l1 : LabelSet) : union l1 empty = l1 := if_pos rfl

theorem empty_union (l2 : LabelSet) : union empty l2 = l2 := by
  apply eq_of_labels
  rw [labels_union, empty, mergeUnion]

theorem union_self (l1 : LabelSet) : union l1 l1 = l1 := by
  apply eq_of_labels
  rw [labels_union, mergeUnion_self]

/-- A result as long as an argument is that argument. -/
theorem union_eq_left {l1 l2 : LabelSet} (h : (union l1 l2).labels.length = l1.labels.length) :
    union l1 l2 = l1 := by
  rw [labels_union] at h
  apply eq_of_labels
  rw [labels_union]
  exact ((sublist_mergeUnion_left _ _).eq_of_length h.symm).symm

theorem union_eq_right {l1 l2 : LabelSet} (h : (union l1 l2).labels.length = l2.labels.length) :
    union l1 l2 = l2 := by
  rw [labels_union] at h
  apply eq_of_labels
  rw [labels_union]
  exact ((sublist_mergeUnion_right _ _).eq_of_length h.symm).symm

theorem unionLabel_eq {l1 : LabelSet} {l2 : Label}
    (h : (unionLabel l1 l2).labels.length = l1.labels.length) : unionLabel l1 l2 = l1 := by
  rw [labels_unionLabel] at h
  apply eq_of_labels
  rw [labels_unionLabel]
  exact ((sublist_mergeUnion_left _ _).eq_of_length h.symm).symm

theorem labels_minus (l1 l2 : LabelSet) :
    (minus l1 l2).labels = mergeMinus l1.labels l2.labels := by
  unfold minus
  split
  · rename_i h
    rcases h with rfl | rfl
    · rw [empty, mergeMinus]
    · exact (mergeMinus_nil_right l1.labels).symm
  split
  · rename_i h
    rw [h, mergeMinus_self]
    rfl
  · rfl

theorem empty_minus (l2 : LabelSet) : minus empty l2 = empty := if_pos (.inl rfl)

theorem minus_empty (l1 : LabelSet) : minus l1 empty = l1 := if_pos (.inr rfl)

theorem minus_self (l1 : LabelSet) : minus l1 l1 = empty := by
  apply eq_of_labels
  rw [labels_minus, mergeMinus_self]
  rfl

theorem mem_union {l1 l2 : LabelSet} {l : Label} : l ∈ union l1 l2 ↔ l ∈ l1 ∨ l ∈ l2 := by
  rw [mem_def, labels_union]
  exact mem_mergeUnion

theorem union_ne_empty {l1 : LabelSet} (h : l1 ≠ empty) (l2 : LabelSet) : union l1 l2 ≠ empty := by
  intro hempty
  apply h
  rw [eq_empty_iff] at hempty ⊢
  exact fun l hl => hempty l (mem_union.2 (.inl hl))

theorem mem_unionLabel {l1 : LabelSet} {l2 l : Label} :
    l ∈ unionLabel l1 l2 ↔ l ∈ l1 ∨ l = l2 := by
  rw [mem_def, labels_unionLabel, mem_mergeUnion, List.mem_singleton]
  exact Iff.rfl

theorem unionLabel_ne_empty (l1 : LabelSet) (l2 : Label) : unionLabel l1 l2 ≠ empty := by
  intro hempty
  exact eq_empty_iff.1 hempty l2 (mem_unionLabel.2 (.inr rfl))

theorem mem_minus {l1 l2 : LabelSet} {l : Label} : l ∈ minus l1 l2 ↔ l ∈ l1 ∧ l ∉ l2 := by
  rw [mem_def, labels_minus]
  exact mem_mergeMinus l1.sorted l2.sorted

theorem checkInUnion_iff {this firstSet secondSet : LabelSet} :
    this.checkInUnion firstSet secondSet = true ↔
      ∀ l ∈ this, l ∈ firstSet ∨ l ∈ secondSet := by
  unfold checkInUnion
  split
  · rename_i h
    simp [h]
  split
  · rename_i h
    simp [h, isSubsetOf_iff]
  split
  · rename_i h
    simp [h, isSubsetOf_iff]
  · exact mergeInUnion_iff this.sorted firstSet.sorted secondSet.sorted

/-- The short cuts of the checks answer what the loops would. -/
theorem isSubsetOf_eq (this other : LabelSet) :
    this.isSubsetOf other = mergeSubset this.labels other.labels := by
  rw [Bool.eq_iff_iff, isSubsetOf_iff, mergeSubset_iff this.sorted other.sorted]
  exact Iff.rfl

theorem checkInUnion_eq (this firstSet secondSet : LabelSet) :
    this.checkInUnion firstSet secondSet =
      mergeInUnion this.labels firstSet.labels secondSet.labels := by
  rw [Bool.eq_iff_iff, checkInUnion_iff,
    mergeInUnion_iff this.sorted firstSet.sorted secondSet.sorted]
  exact Iff.rfl

end LabelSet

end Laminar.Vm
