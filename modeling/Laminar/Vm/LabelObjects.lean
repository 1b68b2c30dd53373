import Mathlib.Data.Set.Insert
import Laminar.Lib.Run
import Laminar.Vm.LabelArray

/-!
# Label sets as objects

`LabelSet` objects on a heap: an array that may be longer than the set and the number of
labels in it.  A reference is the number of an object, and `EMPTY` is the first.  The tests
on references are what they are in the source, so an operation may return one of its
arguments, or `EMPTY`, or a new object.

`Denotes` ties an object to the list of `Vm.LabelSet`, and the operations follow the lists:
in particular only `EMPTY` denotes the empty set, so the test for `EMPTY` is the test for
the empty list.  `labelSets_of_run` says it for whatever a program builds.
-/

namespace Laminar.Vm

open Laminar.Lib

/-- `LabelSet`: `labels` and `len`. -/
structure LabelObject where
  labels : List Label
  len : Nat
deriving DecidableEq

/-- A reference to a `LabelSet`. -/
abbrev LabelRef := Nat

/-- `EMPTY`. -/
def emptyRef : LabelRef := 0

/-- All `LabelSet` objects, in the order in which they were built. -/
structure LabelObjects where
  objects : List LabelObject
deriving DecidableEq

namespace LabelObjects

/-! ## Operations -/

/-- At boot there is `EMPTY`. -/
def boot : LabelObjects := ⟨[⟨[], 0⟩]⟩

/-- Follow a reference. -/
def deref (h : LabelObjects) (l : LabelRef) : Except ArrayFault LabelObject :=
  match h.objects[l]? with
  | some o => .ok o
  | none => .error .noObject

/-- `new LabelSet(labels, len)`. -/
def new (h : LabelObjects) (labels : List Label) (len : Nat) : LabelRef × LabelObjects :=
  (h.objects.length, ⟨h.objects ++ [⟨labels, len⟩]⟩)

/-- `getLabelSet(long)`. -/
def getLabelSet (h : LabelObjects) (label : Label) : LabelRef × LabelObjects := h.new [label] 1

/-- `unionSlowPath`. -/
def unionSlowPath (h : LabelObjects) (l1 l2 : LabelRef) :
    Except ArrayFault (LabelRef × LabelObjects) := do
  let o1 ← h.deref l1
  let o2 ← h.deref l2
  let newLabels ← newLongArray (o1.len + o2.len)
  let (newLabels, newPos) ← unionLoop o1.labels o1.len (labelAt o2.labels) o2.len newLabels
  if newPos = o1.len then return (l1, h)
  else if newPos = o2.len then return (l2, h)
  else return h.new newLabels newPos

/-- `union(LabelSet, LabelSet)`. -/
def union (h : LabelObjects) (l1 l2 : LabelRef) : Except ArrayFault (LabelRef × LabelObjects) :=
  if l2 = emptyRef then .ok (l1, h)
  else if l1 = emptyRef then .ok (l2, h)
  else if l1 = l2 then .ok (l1, h)
  else h.unionSlowPath l1 l2

/-- `union(LabelSet, long)`. -/
def unionLabel (h : LabelObjects) (l1 : LabelRef) (l2 : Label) :
    Except ArrayFault (LabelRef × LabelObjects) := do
  let o1 ← h.deref l1
  let newLabels ← newLongArray (o1.len + 1)
  let (newLabels, newPos) ← unionLoop o1.labels o1.len (fun _ => .ok l2) 1 newLabels
  if newPos = o1.len then return (l1, h)
  else return h.new newLabels newPos

/-- `getLabelSet(long, long)`. -/
def getLabelSet2 (h : LabelObjects) (label1 label2 : Label) :
    Except ArrayFault (LabelRef × LabelObjects) :=
  let (l, h) := h.getLabelSet label1
  h.unionLabel l label2

/-- `getLabelSet(long, long, long)`. -/
def getLabelSet3 (h : LabelObjects) (label1 label2 label3 : Label) :
    Except ArrayFault (LabelRef × LabelObjects) := do
  let (l, h) ← h.getLabelSet2 label1 label2
  h.unionLabel l label3

/-- `minusSlowPath`. -/
def minusSlowPath (h : LabelObjects) (l1 l2 : LabelRef) :
    Except ArrayFault (LabelRef × LabelObjects) := do
  let o1 ← h.deref l1
  let o2 ← h.deref l2
  let newLabels ← newLongArray o1.len
  let (newLabels, newPos) ← minusLoop o1.labels o1.len o2.labels o2.len newLabels
  if newPos = 0 then return (emptyRef, h)
  else return h.new newLabels newPos

/-- `minus`. -/
def minus (h : LabelObjects) (l1 l2 : LabelRef) : Except ArrayFault (LabelRef × LabelObjects) :=
  if l1 = emptyRef ∨ l2 = emptyRef then .ok (l1, h)
  else if l1 = l2 then .ok (emptyRef, h)
  else h.minusSlowPath l1 l2

/-- `isSubsetOfSlowPath`. -/
def isSubsetOfSlowPath (h : LabelObjects) (this other : LabelRef) : Except ArrayFault Bool := do
  let o1 ← h.deref this
  let o2 ← h.deref other
  subsetLoop o1.labels o1.len o2.labels o2.len

/-- `isSubsetOf`. -/
def isSubsetOf (h : LabelObjects) (this other : LabelRef) : Except ArrayFault Bool :=
  if this = emptyRef then .ok true
  else if this = other then .ok true
  else h.isSubsetOfSlowPath this other

/-- `checkInUnionSlowPath`. -/
def checkInUnionSlowPath (h : LabelObjects) (this firstSet secondSet : LabelRef) :
    Except ArrayFault Bool := do
  let o ← h.deref this
  let o1 ← h.deref firstSet
  let o2 ← h.deref secondSet
  inUnionLoop o.labels o.len o1.labels o1.len o2.labels o2.len

/-- `checkInUnion`. -/
def checkInUnion (h : LabelObjects) (this firstSet secondSet : LabelRef) : Except ArrayFault Bool :=
  if this = emptyRef then .ok true
  else if firstSet = emptyRef then h.isSubsetOf this secondSet
  else if secondSet = emptyRef then h.isSubsetOf this firstSet
  else h.checkInUnionSlowPath this firstSet secondSet

end LabelObjects

/-! ## What an object denotes -/

/-- The object holds the labels of `set`, perhaps with some room behind them. -/
structure LabelObject.Holds (o : LabelObject) (set : LabelSet) : Prop where
  labels : o.labels.take o.len = set.labels
  fits : o.len ≤ o.labels.length
  size : o.labels.length < 2 ^ 31

theorem LabelObject.Holds.length {o : LabelObject} {set : LabelSet} (h : o.Holds set) :
    o.len = set.labels.length := by
  rw [← h.labels, List.length_take, Nat.min_eq_left h.fits]

theorem LabelObject.Holds.reads {o : LabelObject} {set : LabelSet} (h : o.Holds set) :
    Reads (labelAt o.labels) set.labels := by
  rw [← h.labels]
  exact reads_take _ _ _

/-- An array that was filled by a merge. -/
theorem LabelObject.holds_merged {merge : List Label → List Label → List Label} {xs ys : List Label}
    {size : Nat} {r : List Label × Nat} (h : Filling.Merged merge xs ys size r)
    (hsize : size < 2 ^ 31) {set : LabelSet} (hset : set.labels = merge xs ys) :
    LabelObject.Holds ⟨r.1, r.2⟩ set := by
  refine ⟨h.labels.trans hset.symm, ?_, ?_⟩
  · have hcount := congrArg List.length h.labels
    rw [List.length_take, ← h.count] at hcount
    show r.2 ≤ r.1.length
    omega
  · show r.1.length < 2 ^ 31
    rw [h.length]
    exact hsize

theorem newLongArray_ok {size : Nat} (h : size < 2 ^ 31) :
    ∃ newLabels, newLongArray size = .ok newLabels ∧ newLabels.length = size :=
  ⟨_, if_pos h, List.length_replicate⟩

/-- Allocating and filling the array of a union. -/
theorem LabelObject.filled_union {labels1 xs ys : List Label}
    {label2 : Nat → Except ArrayFault Label} (h1 : Reads (labelAt labels1) xs)
    (h2 : Reads label2 ys) (hsize : xs.length + ys.length < 2 ^ 31) {set : LabelSet}
    (hset : set.labels = mergeUnion xs ys) :
    ∃ newLabels filled newPos, newLongArray (xs.length + ys.length) = .ok newLabels ∧
      unionLoop labels1 xs.length label2 ys.length newLabels = .ok (filled, newPos) ∧
      newPos = set.labels.length ∧ LabelObject.Holds ⟨filled, newPos⟩ set := by
  obtain ⟨newLabels, hnew, hlength⟩ := newLongArray_ok hsize
  obtain ⟨⟨filled, newPos⟩, hloop, hmerged⟩ := unionLoop_ok h1 h2 hlength
  refine ⟨newLabels, filled, newPos, hnew, hloop, ?_, holds_merged hmerged hsize hset⟩
  rw [hset]
  exact hmerged.count

namespace LabelObjects

/-- The object at `l` holds `set`, and it is `EMPTY` just when the set is empty. -/
def Denotes (h : LabelObjects) (l : LabelRef) (set : LabelSet) : Prop :=
  ∃ o, h.objects[l]? = some o ∧ o.Holds set ∧ (l = emptyRef ↔ set = .empty)

/-- Every object is a set. -/
structure WellFormed (h : LabelObjects) : Prop where
  empty : h.Denotes emptyRef .empty
  built : ∀ l < h.objects.length, ∃ set, h.Denotes l set

theorem wellFormed_boot : boot.WellFormed := by
  have hempty : boot.Denotes emptyRef .empty :=
    ⟨⟨[], 0⟩, rfl, ⟨rfl, Nat.le_refl 0, by decide⟩, iff_of_true rfl rfl⟩
  refine ⟨hempty, ?_⟩
  intro l hl
  obtain rfl : l = 0 := Nat.lt_one_iff.1 hl
  exact ⟨_, hempty⟩

section Denotes

variable {h h' : LabelObjects} {l : LabelRef} {set set' : LabelSet}

theorem Denotes.lt (hd : h.Denotes l set) : l < h.objects.length := by
  obtain ⟨o, ho, -⟩ := hd
  exact (List.getElem?_eq_some_iff.1 ho).1

theorem Denotes.deref (hd : h.Denotes l set) : ∃ o, h.deref l = .ok o ∧ o.Holds set := by
  obtain ⟨o, ho, hholds, -⟩ := hd
  refine ⟨o, ?_, hholds⟩
  rw [LabelObjects.deref, ho]

/-- Only `EMPTY` denotes the empty set. -/
theorem Denotes.empty_iff (hd : h.Denotes l set) : l = emptyRef ↔ set = .empty := by
  obtain ⟨o, -, -, hempty⟩ := hd
  exact hempty

theorem Denotes.unique (hd : h.Denotes l set) (hd' : h.Denotes l set') : set = set' := by
  obtain ⟨o, ho, hholds, -⟩ := hd
  obtain ⟨o', ho', hholds', -⟩ := hd'
  obtain rfl : o = o' := Option.some.inj (ho.symm.trans ho')
  exact LabelSet.eq_of_labels (hholds.labels.symm.trans hholds'.labels)

/-- Objects are never changed. -/
theorem Denotes.mono (hd : h.Denotes l set) (hle : h.objects <+: h'.objects) :
    h'.Denotes l set := by
  have hlt := hd.lt
  obtain ⟨o, ho, hrest⟩ := hd
  obtain ⟨newer, hnewer⟩ := hle
  refine ⟨o, ?_, hrest⟩
  rw [← hnewer, List.getElem?_append_left hlt, ho]

end Denotes

/-! ## The operations follow the lists -/

/-- The operation returns an object for `set` and leaves all objects as they are, or the new
array is too large for an `int`. -/
def Yields (h : LabelObjects) (set : LabelSet) (size : Nat) :
    Except ArrayFault (LabelRef × LabelObjects) → Prop
  | .ok (l, h') => h'.WellFormed ∧ h.objects <+: h'.objects ∧ h'.Denotes l set
  | .error fault => fault = .negativeArraySize ∧ 2 ^ 31 ≤ size

section Operations

variable {h : LabelObjects} {l l1 l2 : LabelRef} {set s1 s2 : LabelSet} {size : Nat}

/-- An object that is there already. -/
theorem WellFormed.yields_old (hwf : h.WellFormed) (hd : h.Denotes l set) :
    h.Yields set size (.ok (l, h)) := ⟨hwf, List.prefix_refl _, hd⟩

/-- A new object, which must not be empty. -/
theorem WellFormed.yields_new (hwf : h.WellFormed) {labels : List Label} {len : Nat}
    (hholds : LabelObject.Holds ⟨labels, len⟩ set) (hne : set ≠ .empty) :
    h.Yields set size (.ok (h.new labels len)) := by
  have hle : h.objects <+: (h.new labels len).2.objects := List.prefix_append _ _
  have hold := fun l set (hd : h.Denotes l set) => hd.mono hle
  -- `EMPTY` is there already, so the new object is another one
  have hpos : h.objects.length ≠ emptyRef := Nat.ne_of_gt hwf.empty.lt
  have hnew : (h.new labels len).2.Denotes h.objects.length set :=
    ⟨⟨labels, len⟩, List.getElem?_concat_length, hholds, iff_of_false hpos hne⟩
  refine ⟨⟨hold _ _ hwf.empty, ?_⟩, hle, hnew⟩
  intro l hl
  rw [List.length_append, List.length_singleton] at hl
  by_cases hlt : l < h.objects.length
  · obtain ⟨old, hd⟩ := hwf.built l hlt
    exact ⟨old, hold _ _ hd⟩
  · obtain rfl : l = h.objects.length := by omega
    exact ⟨set, hnew⟩

theorem WellFormed.unionSlowPath_yields (hwf : h.WellFormed) (h1 : h.Denotes l1 s1)
    (h2 : h.Denotes l2 s2) (hne : s1 ≠ .empty) :
    h.Yields (s1.union s2) (s1.labels.length + s2.labels.length) (h.unionSlowPath l1 l2) := by
  obtain ⟨o1, hderef1, hholds1⟩ := h1.deref
  obtain ⟨o2, hderef2, hholds2⟩ := h2.deref
  rw [unionSlowPath, hderef1, hderef2]
  dsimp only [bind, Except.bind]
  rw [hholds1.length, hholds2.length]
  by_cases hsize : s1.labels.length + s2.labels.length < 2 ^ 31
  · obtain ⟨newLabels, filled, newPos, hnew, hloop, hcount, hholds⟩ :=
      LabelObject.filled_union hholds1.reads hholds2.reads hsize (s1.labels_union s2)
    rw [hnew]
    dsimp only
    rw [hloop]
    dsimp only
    split
    · rename_i hlen
      rw [LabelSet.union_eq_left (hcount.symm.trans hlen)]
      exact hwf.yields_old h1
    split
    · rename_i hlen
      rw [LabelSet.union_eq_right (hcount.symm.trans hlen)]
      exact hwf.yields_old h2
    · exact hwf.yields_new hholds (LabelSet.union_ne_empty hne s2)
  · rw [newLongArray, if_neg hsize]
    exact ⟨rfl, Nat.le_of_not_lt hsize⟩

theorem WellFormed.union_yields (hwf : h.WellFormed) (h1 : h.Denotes l1 s1)
    (h2 : h.Denotes l2 s2) :
    h.Yields (s1.union s2) (s1.labels.length + s2.labels.length) (h.union l1 l2) := by
  unfold union
  split
  · rename_i hempty
    rw [h2.empty_iff.1 hempty, LabelSet.union_empty]
    exact hwf.yields_old h1
  split
  · rename_i hempty
    rw [h1.empty_iff.1 hempty, LabelSet.empty_union]
    exact hwf.yields_old h2
  rename_i hne
  split
  · rename_i heq
    subst heq
    rw [← h1.unique h2, LabelSet.union_self]
    exact hwf.yields_old h1
  · -- two objects with the same labels get here, too, and the first is returned
    exact hwf.unionSlowPath_yields h1 h2 (mt h1.empty_iff.2 hne)

theorem WellFormed.unionLabel_yields (hwf : h.WellFormed) (h1 : h.Denotes l1 s1) (label : Label) :
    h.Yields (s1.unionLabel label) (s1.labels.length + 1) (h.unionLabel l1 label) := by
  obtain ⟨o1, hderef1, hholds1⟩ := h1.deref
  rw [unionLabel, hderef1]
  dsimp only [bind, Except.bind]
  rw [hholds1.length]
  by_cases hsize : s1.labels.length + 1 < 2 ^ 31
  · obtain ⟨newLabels, filled, newPos, hnew, hloop, hcount, hholds⟩ :=
      LabelObject.filled_union hholds1.reads (reads_singleton label) hsize
        (s1.labels_unionLabel label)
    rw [List.length_singleton] at hnew hloop
    rw [hnew]
    dsimp only
    rw [hloop]
    dsimp only
    split
    · rename_i hlen
      rw [LabelSet.unionLabel_eq (hcount.symm.trans hlen)]
      exact hwf.yields_old h1
    · exact hwf.yields_new hholds (s1.unionLabel_ne_empty label)
  · rw [newLongArray, if_neg hsize]
    exact ⟨rfl, Nat.le_of_not_lt hsize⟩

theorem WellFormed.minusSlowPath_yields (hwf : h.WellFormed) (h1 : h.Denotes l1 s1)
    (h2 : h.Denotes l2 s2) : h.Yields (s1.minus s2) 0 (h.minusSlowPath l1 l2) := by
  obtain ⟨o1, hderef1, hholds1⟩ := h1.deref
  obtain ⟨o2, hderef2, hholds2⟩ := h2.deref
  have hlabels := s1.labels_minus s2
  have hsize : s1.labels.length < 2 ^ 31 :=
    hholds1.length ▸ Nat.lt_of_le_of_lt hholds1.fits hholds1.size
  rw [minusSlowPath, hderef1, hderef2]
  dsimp only [bind, Except.bind]
  rw [hholds1.length, hholds2.length]
  obtain ⟨newLabels, hnew, hlength⟩ := newLongArray_ok hsize
  obtain ⟨⟨filled, newPos⟩, hloop, hmerged⟩ := minusLoop_ok hholds1.reads hholds2.reads hlength
  rw [hnew]
  dsimp only
  rw [hloop]
  dsimp only
  have hcount : newPos = (s1.minus s2).labels.length := by
    rw [hlabels]
    exact hmerged.count
  split
  · rename_i hzero
    have hempty : s1.minus s2 = .empty :=
      LabelSet.eq_of_labels (List.length_eq_zero_iff.1 (hcount.symm.trans hzero))
    rw [hempty]
    exact hwf.yields_old hwf.empty
  · rename_i hpos
    refine hwf.yields_new (LabelObject.holds_merged hmerged hsize hlabels) fun hempty => hpos ?_
    rw [hcount, hempty]
    rfl

theorem WellFormed.minus_yields (hwf : h.WellFormed) (h1 : h.Denotes l1 s1)
    (h2 : h.Denotes l2 s2) : h.Yields (s1.minus s2) 0 (h.minus l1 l2) := by
  unfold minus
  split
  · rename_i hempty
    rcases hempty with hempty | hempty
    · have hs1 := h1.empty_iff.1 hempty
      subst hs1
      rw [LabelSet.empty_minus]
      exact hwf.yields_old h1
    · rw [h2.empty_iff.1 hempty, LabelSet.minus_empty]
      exact hwf.yields_old h1
  split
  · rename_i heq
    subst heq
    rw [← h1.unique h2, LabelSet.minus_self]
    exact hwf.yields_old hwf.empty
  · exact hwf.minusSlowPath_yields h1 h2

/-- A small array is always allocated. -/
theorem Yields.of_small {out : Except ArrayFault (LabelRef × LabelObjects)}
    (hy : h.Yields set size out) (hsize : size < 2 ^ 31) :
    ∃ l h', out = .ok (l, h') ∧ h'.WellFormed ∧ h.objects <+: h'.objects ∧ h'.Denotes l set := by
  cases out with
  | error fault => exact absurd hsize (Nat.not_lt_of_le hy.2)
  | ok r => exact ⟨r.1, r.2, rfl, hy⟩

theorem WellFormed.getLabelSet_yields (hwf : h.WellFormed) (label : Label) :
    h.Yields (.getLabelSet label) 0 (.ok (h.getLabelSet label)) := by
  have hsize : 1 < 2 ^ 31 := by decide
  refine hwf.yields_new ⟨rfl, Nat.le_refl 1, hsize⟩ ?_
  intro hempty
  exact LabelSet.eq_empty_iff.1 hempty label List.mem_cons_self

theorem WellFormed.getLabelSet2_yields (hwf : h.WellFormed) (label1 label2 : Label) :
    h.Yields ((LabelSet.getLabelSet label1).unionLabel label2) 0
      (h.getLabelSet2 label1 label2) := by
  have hsize : 2 < 2 ^ 31 := by decide
  obtain ⟨hwf1, hle1, hd1⟩ := hwf.getLabelSet_yields label1
  obtain ⟨l, h', heq, hwf2, hle2, hd2⟩ := (hwf1.unionLabel_yields hd1 label2).of_small hsize
  have hcall : h.getLabelSet2 label1 label2 = .ok (l, h') := heq
  rw [hcall]
  exact ⟨hwf2, hle1.trans hle2, hd2⟩

theorem WellFormed.getLabelSet3_yields (hwf : h.WellFormed) (label1 label2 label3 : Label) :
    h.Yields (((LabelSet.getLabelSet label1).unionLabel label2).unionLabel label3) 0
      (h.getLabelSet3 label1 label2 label3) := by
  obtain ⟨l1, h1, heq1, hwf1, hle1, hd1⟩ :=
    (hwf.getLabelSet2_yields label1 label2).of_small (by decide)
  have hlength : ((LabelSet.getLabelSet label1).unionLabel label2).labels.length + 1 < 2 ^ 31 := by
    have hsize : 3 < 2 ^ 31 := by decide
    have hle := length_mergeUnion_le [label1] [label2]
    rw [LabelSet.labels_unionLabel]
    exact Nat.lt_of_le_of_lt (Nat.succ_le_succ hle) hsize
  obtain ⟨l2, h2, heq2, hwf2, hle2, hd2⟩ := (hwf1.unionLabel_yields hd1 label3).of_small hlength
  have hcall : h.getLabelSet3 label1 label2 label3 = .ok (l2, h2) := by
    rw [getLabelSet3, heq1]
    exact heq2
  rw [hcall]
  exact ⟨hwf2, hle1.trans hle2, hd2⟩

/-- The loops answer as the checks do on the lists. -/
theorem Denotes.isSubsetOfSlowPath_eq (h1 : h.Denotes l1 s1) (h2 : h.Denotes l2 s2) :
    h.isSubsetOfSlowPath l1 l2 = .ok (s1.isSubsetOf s2) := by
  obtain ⟨o1, hderef1, hholds1⟩ := h1.deref
  obtain ⟨o2, hderef2, hholds2⟩ := h2.deref
  rw [isSubsetOfSlowPath, hderef1, hderef2]
  dsimp only [bind, Except.bind]
  rw [hholds1.length, hholds2.length, subsetLoop_eq hholds1.reads hholds2.reads,
    LabelSet.isSubsetOf_eq]

theorem Denotes.checkInUnionSlowPath_eq (hd : h.Denotes l set) (h1 : h.Denotes l1 s1)
    (h2 : h.Denotes l2 s2) : h.checkInUnionSlowPath l l1 l2 = .ok (set.checkInUnion s1 s2) := by
  obtain ⟨o, hderef, hholds⟩ := hd.deref
  obtain ⟨o1, hderef1, hholds1⟩ := h1.deref
  obtain ⟨o2, hderef2, hholds2⟩ := h2.deref
  rw [checkInUnionSlowPath, hderef, hderef1, hderef2]
  dsimp only [bind, Except.bind]
  rw [hholds.length, hholds1.length, hholds2.length,
    inUnionLoop_eq hholds.reads hholds1.reads hholds2.reads, LabelSet.checkInUnion_eq]

/-- So do the checks with their short cuts. -/
theorem Denotes.isSubsetOf_eq (h1 : h.Denotes l1 s1) (h2 : h.Denotes l2 s2) :
    h.isSubsetOf l1 l2 = .ok (s1.isSubsetOf s2) := by
  unfold isSubsetOf
  split
  · rename_i hempty
    rw [h1.empty_iff.1 hempty, LabelSet.isSubsetOf, if_pos rfl]
  split
  · rename_i heq
    subst heq
    rw [← h1.unique h2, LabelSet.isSubsetOf, if_pos rfl, ite_self]
  · exact h1.isSubsetOfSlowPath_eq h2

theorem Denotes.checkInUnion_eq (hd : h.Denotes l set) (h1 : h.Denotes l1 s1)
    (h2 : h.Denotes l2 s2) : h.checkInUnion l l1 l2 = .ok (set.checkInUnion s1 s2) := by
  unfold checkInUnion
  split
  · rename_i hempty
    rw [hd.empty_iff.1 hempty, LabelSet.checkInUnion, if_pos rfl]
  rename_i hne
  have hset : set ≠ .empty := mt hd.empty_iff.2 hne
  split
  · rename_i hempty
    rw [h1.empty_iff.1 hempty, LabelSet.checkInUnion, if_neg hset, if_pos rfl,
      hd.isSubsetOf_eq h2]
  rename_i hne1
  split
  · rename_i hempty
    rw [h2.empty_iff.1 hempty, LabelSet.checkInUnion, if_neg hset,
      if_neg (mt h1.empty_iff.2 hne1), if_pos rfl, hd.isSubsetOf_eq h1]
  · exact hd.checkInUnionSlowPath_eq h1 h2

end Operations

end LabelObjects

/-! ## Whatever a program builds -/

private theorem forall_pair {P : LabelRef → Prop} {l1 l2 : LabelRef} :
    (∀ l ∈ [l1, l2], P l) ↔ P l1 ∧ P l2 := by
  rw [List.forall_mem_cons, List.forall_mem_singleton]

/-- The calls that return a label set. -/
inductive LabelSetCall
  | getLabelSet (label : Label)
  | getLabelSet2 (label1 label2 : Label)
  | getLabelSet3 (label1 label2 label3 : Label)
  | union (l1 l2 : LabelRef)
  | unionLabel (l1 : LabelRef) (l2 : Label)
  | minus (l1 l2 : LabelRef)

namespace LabelSetCall

/-- The references a call is given. -/
def refs : LabelSetCall → List LabelRef
  | .getLabelSet _ | .getLabelSet2 _ _ | .getLabelSet3 _ _ _ => []
  | .union l1 l2 => [l1, l2]
  | .unionLabel l1 _ => [l1]
  | .minus l1 l2 => [l1, l2]

/-- The set a call is for. -/
def meaning (elements : LabelRef → Set Label) : LabelSetCall → Set Label
  | .getLabelSet label => {label}
  | .getLabelSet2 label1 label2 => {label1, label2}
  | .getLabelSet3 label1 label2 label3 => {label1, label2, label3}
  | .union l1 l2 => elements l1 ∪ elements l2
  | .unionLabel l1 l2 => elements l1 ∪ {l2}
  | .minus l1 l2 => elements l1 \ elements l2

/-- The size of an array that may be larger than those of the arguments. -/
def size (len : LabelRef → Nat) : LabelSetCall → Nat
  | .union l1 l2 => len l1 + len l2
  | .unionLabel l1 _ => len l1 + 1
  | _ => 0

theorem size_congr {len len' : LabelRef → Nat} (c : LabelSetCall)
    (h : ∀ l ∈ c.refs, len l = len' l) : c.size len = c.size len' := by
  cases c with
  | union l1 l2 =>
      obtain ⟨h1, h2⟩ := forall_pair.1 h
      rw [size, h1, h2, size]
  | unionLabel l1 l2 => rw [size, (List.forall_mem_cons.1 h).1, size]
  | _ => rfl

/-- The call on lists. -/
def onLists (sets : LabelRef → LabelSet) : LabelSetCall → LabelSet
  | .getLabelSet label => .getLabelSet label
  | .getLabelSet2 label1 label2 => (LabelSet.getLabelSet label1).unionLabel label2
  | .getLabelSet3 label1 label2 label3 =>
      ((LabelSet.getLabelSet label1).unionLabel label2).unionLabel label3
  | .union l1 l2 => (sets l1).union (sets l2)
  | .unionLabel l1 l2 => (sets l1).unionLabel l2
  | .minus l1 l2 => (sets l1).minus (sets l2)

theorem meaning_eq {elements : LabelRef → Set Label} {sets : LabelRef → LabelSet}
    (c : LabelSetCall) (h : ∀ l ∈ c.refs, elements l = { x | x ∈ sets l }) :
    c.meaning elements = { x | x ∈ c.onLists sets } := by
  ext x
  have hone : ∀ label, x ∈ LabelSet.getLabelSet label ↔ x = label := fun _ => List.mem_singleton
  cases c with
  | getLabelSet label => exact (hone label).symm
  | getLabelSet2 label1 label2 =>
      show x = label1 ∨ x = label2 ↔ x ∈ (LabelSet.getLabelSet label1).unionLabel label2
      rw [LabelSet.mem_unionLabel, hone]
  | getLabelSet3 label1 label2 label3 =>
      show x = label1 ∨ x = label2 ∨ x = label3 ↔
        x ∈ ((LabelSet.getLabelSet label1).unionLabel label2).unionLabel label3
      rw [LabelSet.mem_unionLabel, LabelSet.mem_unionLabel, hone, or_assoc]
  | union l1 l2 =>
      obtain ⟨h1, h2⟩ := forall_pair.1 h
      show x ∈ elements l1 ∨ x ∈ elements l2 ↔ _
      rw [h1, h2]
      exact LabelSet.mem_union.symm
  | unionLabel l1 l2 =>
      obtain ⟨h1, -⟩ := List.forall_mem_cons.1 h
      show x ∈ elements l1 ∨ x = l2 ↔ _
      rw [h1]
      exact LabelSet.mem_unionLabel.symm
  | minus l1 l2 =>
      obtain ⟨h1, h2⟩ := forall_pair.1 h
      show x ∈ elements l1 ∧ x ∉ elements l2 ↔ _
      rw [h1, h2]
      exact LabelSet.mem_minus.symm

end LabelSetCall

namespace LabelObjects

/-- Make a call. -/
def call (h : LabelObjects) : LabelSetCall → Except ArrayFault (LabelRef × LabelObjects)
  | .getLabelSet label => .ok (h.getLabelSet label)
  | .getLabelSet2 label1 label2 => h.getLabelSet2 label1 label2
  | .getLabelSet3 label1 label2 label3 => h.getLabelSet3 label1 label2 label3
  | .union l1 l2 => h.union l1 l2
  | .unionLabel l1 l2 => h.unionLabel l1 l2
  | .minus l1 l2 => h.minus l1 l2

/-- A program makes a call with objects it has; a call that throws builds nothing. -/
def step (h : LabelObjects) (c : LabelSetCall) : Option LabelObjects :=
  if ∀ l ∈ c.refs, l < h.objects.length then
    match h.call c with
    | .ok (_, h') => some h'
    | .error _ => some h
  else none

/-- The labels in `labels[0..len)`. -/
def elements (h : LabelObjects) (l : LabelRef) : Set Label :=
  { x | ∃ o, h.objects[l]? = some o ∧ x ∈ o.labels.take o.len }

/-- The field `len`. -/
def len (h : LabelObjects) (l : LabelRef) : Nat := (h.objects[l]?.map LabelObject.len).getD 0

section Built

variable {h : LabelObjects}

theorem Denotes.elements_eq {l : LabelRef} {set : LabelSet} (hd : h.Denotes l set) :
    h.elements l = { x | x ∈ set } := by
  obtain ⟨o, ho, hholds, -⟩ := hd
  ext x
  show (∃ o, h.objects[l]? = some o ∧ x ∈ o.labels.take o.len) ↔ x ∈ set.labels
  rw [← hholds.labels, ho]
  simp

theorem Denotes.len_eq {l : LabelRef} {set : LabelSet} (hd : h.Denotes l set) :
    h.len l = set.labels.length := by
  obtain ⟨o, ho, hholds, -⟩ := hd
  rw [len, ho, ← hholds.length]
  rfl

/-- Every call does on the objects what it does on the lists they denote. -/
theorem WellFormed.call_yields (hwf : h.WellFormed) (c : LabelSetCall)
    {sets : LabelRef → LabelSet} (hsets : ∀ l ∈ c.refs, h.Denotes l (sets l)) :
    h.Yields (c.onLists sets) (c.size fun l => (sets l).labels.length) (h.call c) := by
  cases c with
  | getLabelSet label => exact hwf.getLabelSet_yields label
  | getLabelSet2 label1 label2 => exact hwf.getLabelSet2_yields label1 label2
  | getLabelSet3 label1 label2 label3 => exact hwf.getLabelSet3_yields label1 label2 label3
  | union l1 l2 =>
      obtain ⟨h1, h2⟩ := forall_pair.1 hsets
      exact hwf.union_yields h1 h2
  | unionLabel l1 l2 => exact hwf.unionLabel_yields (List.forall_mem_cons.1 hsets).1 l2
  | minus l1 l2 =>
      obtain ⟨h1, h2⟩ := forall_pair.1 hsets
      exact hwf.minus_yields h1 h2

/-- The list that each object denotes. -/
theorem WellFormed.exists_sets (hwf : h.WellFormed) :
    ∃ sets : LabelRef → LabelSet, ∀ l < h.objects.length, h.Denotes l (sets l) := by
  classical
  refine ⟨fun l => if hl : l < h.objects.length then (hwf.built l hl).choose else .empty, ?_⟩
  intro l hl
  dsimp only
  rw [dif_pos hl]
  exact (hwf.built l hl).choose_spec

theorem WellFormed.step {h' : LabelObjects} {c : LabelSetCall} (hwf : h.WellFormed)
    (hstep : h.step c = some h') : h'.WellFormed := by
  obtain ⟨sets, hsets⟩ := hwf.exists_sets
  unfold LabelObjects.step at hstep
  split at hstep
  · rename_i hrefs
    have hyields := hwf.call_yields c fun l hl => hsets l (hrefs l hl)
    split at hstep
    · rename_i l h₁ hcall
      cases hstep
      rw [hcall] at hyields
      exact hyields.1
    · cases hstep
      exact hwf
  · cases hstep

theorem wellFormed_of_run {calls : List LabelSetCall}
    (hrun : Run step (fun _ _ => True) boot calls h) : h.WellFormed :=
  hrun.invariant wellFormed_boot fun _ _ _ hwf _ hstep => hwf.step hstep

/-- What `LabelSet` guarantees of its objects. -/
structure Guaranteed (h : LabelObjects) : Prop where
  increasing : ∀ o ∈ h.objects, Increasing (o.labels.take o.len)
  fits : ∀ o ∈ h.objects, o.len ≤ o.labels.length
  empty : ∀ l o, h.objects[l]? = some o → (o.len = 0 ↔ l = emptyRef)

theorem WellFormed.guaranteed (hwf : h.WellFormed) : h.Guaranteed := by
  have hholds : ∀ l o, h.objects[l]? = some o →
      ∃ set, o.Holds set ∧ (l = emptyRef ↔ set = .empty) := by
    intro l o ho
    obtain ⟨set, o', ho', hrest⟩ := hwf.built l (List.getElem?_eq_some_iff.1 ho).1
    obtain rfl : o' = o := Option.some.inj (ho'.symm.trans ho)
    exact ⟨set, hrest⟩
  have hmem : ∀ o ∈ h.objects, ∃ set, o.Holds set := by
    intro o ho
    obtain ⟨l, hl⟩ := List.getElem?_of_mem ho
    obtain ⟨set, hset, -⟩ := hholds l o hl
    exact ⟨set, hset⟩
  refine ⟨?_, ?_, ?_⟩
  · intro o ho
    obtain ⟨set, hset⟩ := hmem o ho
    rw [hset.labels]
    exact set.sorted
  · intro o ho
    obtain ⟨set, hset⟩ := hmem o ho
    exact hset.fits
  · intro l o ho
    obtain ⟨set, hset, hempty⟩ := hholds l o ho
    rw [hempty, hset.length, List.length_eq_zero_iff]
    exact ⟨fun hnil => LabelSet.eq_of_labels hnil, fun heq => congrArg LabelSet.labels heq⟩

/-- The call returns an object for the set it is for and leaves all objects as they are.
It fails only if the new array is too large for an `int`. -/
def Computes (h : LabelObjects) (c : LabelSetCall) : Prop :=
  match h.call c with
  | .ok (l, h') => h'.Guaranteed ∧ h.objects <+: h'.objects ∧ l < h'.objects.length ∧
      h'.elements l = c.meaning h.elements
  | .error fault => fault = .negativeArraySize ∧ 2 ^ 31 ≤ c.size h.len

theorem WellFormed.computes (hwf : h.WellFormed) {c : LabelSetCall}
    (hrefs : ∀ l ∈ c.refs, l < h.objects.length) : h.Computes c := by
  obtain ⟨sets, hsets⟩ := hwf.exists_sets
  have hyields := hwf.call_yields c fun l hl => hsets l (hrefs l hl)
  have hmeaning := c.meaning_eq fun l hl => (hsets l (hrefs l hl)).elements_eq
  have hsize : c.size h.len = c.size fun l => (sets l).labels.length :=
    c.size_congr fun l hl => (hsets l (hrefs l hl)).len_eq
  unfold Computes
  split
  · rename_i l h' hcall
    rw [hcall] at hyields
    obtain ⟨hwf', hle, hd⟩ := hyields
    exact ⟨hwf'.guaranteed, hle, hd.lt, hd.elements_eq.trans hmeaning.symm⟩
  · rename_i fault hcall
    rw [hcall, ← hsize] at hyields
    exact hyields

/-- The checks on two or three objects answer whether the elements are included, and so meet
no fault. -/
def Answers (h : LabelObjects) : Prop :=
  (∀ this < h.objects.length, ∀ other < h.objects.length,
      ∃ answer, h.isSubsetOf this other = .ok answer ∧
        (answer = true ↔ h.elements this ⊆ h.elements other)) ∧
    ∀ this < h.objects.length, ∀ firstSet < h.objects.length, ∀ secondSet < h.objects.length,
      ∃ answer, h.checkInUnion this firstSet secondSet = .ok answer ∧
        (answer = true ↔ h.elements this ⊆ h.elements firstSet ∪ h.elements secondSet)

theorem WellFormed.answers (hwf : h.WellFormed) : h.Answers := by
  obtain ⟨sets, hsets⟩ := hwf.exists_sets
  refine ⟨?_, ?_⟩
  · intro this hthis other hother
    refine ⟨_, (hsets this hthis).isSubsetOf_eq (hsets other hother), ?_⟩
    rw [LabelSet.isSubsetOf_iff, (hsets this hthis).elements_eq, (hsets other hother).elements_eq]
    exact Iff.rfl
  · intro this hthis firstSet hfirst secondSet hsecond
    refine ⟨_, (hsets this hthis).checkInUnion_eq (hsets firstSet hfirst)
      (hsets secondSet hsecond), ?_⟩
    rw [LabelSet.checkInUnion_iff, (hsets this hthis).elements_eq,
      (hsets firstSet hfirst).elements_eq, (hsets secondSet hsecond).elements_eq]
    exact Iff.rfl

/-- **Label sets are finite sets.**  Whatever a program has built from `EMPTY`, every object
is strictly increasing up to `len`, fits its array, and is empty only if it is `EMPTY`.  Every
further call computes the union or difference it is for, and no loop leaves an array. -/
theorem labelSets_of_run {calls : List LabelSetCall}
    (hrun : Run step (fun _ _ => True) boot calls h) :
    h.Guaranteed ∧ (∀ c, (∀ l ∈ c.refs, l < h.objects.length) → h.Computes c) ∧ h.Answers := by
  have hwf := wellFormed_of_run hrun
  exact ⟨hwf.guaranteed, fun _ hrefs => hwf.computes hrefs, hwf.answers⟩

/-- A set of three labels, one of them twice, and the difference of two objects: the array of
the last object is longer than the set. -/
theorem labelSets_of_run_minus :
    let h : LabelObjects := ⟨[⟨[], 0⟩, ⟨[5], 1⟩, ⟨[-3, 5], 2⟩, ⟨[-3, 0], 1⟩]⟩
    Run step (fun _ _ => True) boot
        ([] ++ [LabelSetCall.getLabelSet3 5 (-3) 5] ++ [LabelSetCall.minus 2 1]) h ∧
      h.Guaranteed ∧ h.Computes (.union 1 3) ∧ h.Answers := by
  have hfirst : Run step (fun _ _ => True) boot ([] ++ [LabelSetCall.getLabelSet3 5 (-3) 5])
      ⟨[⟨[], 0⟩, ⟨[5], 1⟩, ⟨[-3, 5], 2⟩]⟩ := .snoc .nil trivial (by decide +kernel)
  have hrun : Run step (fun _ _ => True) boot
      ([] ++ [LabelSetCall.getLabelSet3 5 (-3) 5] ++ [LabelSetCall.minus 2 1])
      ⟨[⟨[], 0⟩, ⟨[5], 1⟩, ⟨[-3, 5], 2⟩, ⟨[-3, 0], 1⟩]⟩ := .snoc hfirst trivial (by decide +kernel)
  obtain ⟨hguaranteed, hcomputes, hanswers⟩ := labelSets_of_run hrun
  exact ⟨hrun, hguaranteed, hcomputes (.union 1 3) (by decide), hanswers⟩

end Built

end LabelObjects

end Laminar.Vm
