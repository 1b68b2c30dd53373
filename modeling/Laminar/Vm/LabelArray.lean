import Mathlib.Algebra.Group.Nat.Defs
import Laminar.Lib.Cells
import Laminar.Lib.Loop
import Laminar.Vm.LabelSet

/-!
# The loops over label arrays

The loops of `LabelSet` as the source has them: positions into arrays that may be longer
than the set in them, a new array that is filled from the front, and a fault for every
index outside an array.  The rounds of a loop are bounded by the number of positions.

Each loop computes the loop over lists of the same name in `Vm.LabelSet`, meets no fault
and needs no more rounds than it is given.
-/

namespace Laminar.Vm

open Laminar.Lib

/-- What can go wrong: an index outside an array, a size that is negative as an `int`, a
reference to no object, or a loop that does not end. -/
inductive ArrayFault
  | indexOutOfBounds
  | negativeArraySize
  | noObject
  | notFinished
deriving DecidableEq

/-- `labels[pos]`. -/
abbrev labelAt (labels : List Label) (pos : Nat) : Except ArrayFault Label :=
  readAt .indexOutOfBounds labels pos

/-- `new long[size]`.  Sizes are sums of at most two lengths, so from `2^31` on they are
negative. -/
def newLongArray (size : Nat) : Except ArrayFault (List Label) :=
  if size < 2 ^ 31 then .ok (List.replicate size 0) else .error .negativeArraySize

/-! ## The loops -/

/-- The variables of the loops that fill a new array. -/
structure Filling where
  newPos : Nat
  pos1 : Nat
  pos2 : Nat
  newLabels : List Label

/-- `newLabels[newPos] = label`, and the positions go on. -/
def Filling.pick (s : Filling) (label : Label) (step1 step2 : Nat) :
    Except ArrayFault (Round (List Label × Nat) Filling) := do
  let newLabels ← writeAt .indexOutOfBounds s.newLabels s.newPos label
  return .next ⟨s.newPos + 1, s.pos1 + step1, s.pos2 + step2, newLabels⟩

/-- A round of the loop of `unionSlowPath` and of `union(LabelSet, long)`, which have
`labels2[pos2]` and the label itself for `label2 pos2`. -/
def unionRound (labels1 : List Label) (len1 : Nat) (label2 : Nat → Except ArrayFault Label)
    (len2 : Nat) (s : Filling) : Except ArrayFault (Round (List Label × Nat) Filling) :=
  if s.pos1 < len1 ∨ s.pos2 < len2 then
    if s.pos1 = len1 then do
      s.pick (← label2 s.pos2) 0 1
    else if s.pos2 = len2 then do
      s.pick (← labelAt labels1 s.pos1) 1 0
    else do
      let x ← labelAt labels1 s.pos1
      let y ← label2 s.pos2
      if x < y then s.pick x 1 0
      else if y < x then s.pick y 0 1
      else s.pick x 1 1
  else .ok (.leave (s.newLabels, s.newPos))

/-- A round of the loop of `minusSlowPath`. -/
def minusRound (labels1 : List Label) (len1 : Nat) (labels2 : List Label) (len2 : Nat)
    (s : Filling) : Except ArrayFault (Round (List Label × Nat) Filling) :=
  if s.pos1 < len1 then
    if s.pos2 = len2 then do
      s.pick (← labelAt labels1 s.pos1) 1 0
    else do
      let x ← labelAt labels1 s.pos1
      let y ← labelAt labels2 s.pos2
      if x < y then s.pick x 1 0
      else if y < x then return .next { s with pos2 := s.pos2 + 1 }
      else return .next { s with pos1 := s.pos1 + 1, pos2 := s.pos2 + 1 }
  else .ok (.leave (s.newLabels, s.newPos))

/-- The variables of the loop of `isSubsetOfSlowPath`. -/
structure Scanning where
  pos1 : Nat
  pos2 : Nat

/-- A round of the loop of `isSubsetOfSlowPath`. -/
def subsetRound (labels1 : List Label) (len1 : Nat) (labels2 : List Label) (len2 : Nat)
    (s : Scanning) : Except ArrayFault (Round Bool Scanning) :=
  if s.pos1 < len1 then
    if s.pos2 = len2 then .ok (.leave false)
    else do
      let x ← labelAt labels1 s.pos1
      let y ← labelAt labels2 s.pos2
      if y < x then return .next { s with pos2 := s.pos2 + 1 }
      else if x < y then return .leave false
      else return .next ⟨s.pos1 + 1, s.pos2 + 1⟩
  else .ok (.leave true)

/-- The variables of the loop of `checkInUnionSlowPath` that live from round to round. -/
structure Searching where
  pos : Nat
  pos1 : Nat
  pos2 : Nat

/-- What a round does with one of the two sets: is the label at its position, and the
position afterwards. -/
def passAt (labels : List Label) (pos : Nat) (labels1 : List Label) (len1 pos1 : Nat) :
    Except ArrayFault (Bool × Nat) :=
  if pos1 < len1 then do
    let x ← labelAt labels pos
    let y ← labelAt labels1 pos1
    return (x = y, if y ≤ x then pos1 + 1 else pos1)
  else .ok (false, pos1)

/-- A round of the loop of `checkInUnionSlowPath`; `change` is that a position has moved. -/
def inUnionRound (labels : List Label) (len : Nat) (labels1 : List Label) (len1 : Nat)
    (labels2 : List Label) (len2 : Nat) (s : Searching) :
    Except ArrayFault (Round Bool Searching) :=
  if s.pos < len then do
    let (found1, pos1) ← passAt labels s.pos labels1 len1 s.pos1
    let (found2, pos2) ← passAt labels s.pos labels2 len2 s.pos2
    if pos1 = s.pos1 ∧ pos2 = s.pos2 then return .leave false
    else return .next ⟨s.pos + if found1 || found2 then 1 else 0, pos1, pos2⟩
  else .ok (.leave true)

/-- The loop of `unionSlowPath` and of `union(LabelSet, long)`. -/
def unionLoop (labels1 : List Label) (len1 : Nat) (label2 : Nat → Except ArrayFault Label)
    (len2 : Nat) (newLabels : List Label) : Except ArrayFault (List Label × Nat) :=
  loop (unionRound labels1 len1 label2 len2) .notFinished (len1 + len2 + 1) ⟨0, 0, 0, newLabels⟩

/-- The loop of `minusSlowPath`. -/
def minusLoop (labels1 : List Label) (len1 : Nat) (labels2 : List Label) (len2 : Nat)
    (newLabels : List Label) : Except ArrayFault (List Label × Nat) :=
  loop (minusRound labels1 len1 labels2 len2) .notFinished (len1 + len2 + 1) ⟨0, 0, 0, newLabels⟩

/-- The loop of `isSubsetOfSlowPath`. -/
def subsetLoop (labels1 : List Label) (len1 : Nat) (labels2 : List Label) (len2 : Nat) :
    Except ArrayFault Bool :=
  loop (subsetRound labels1 len1 labels2 len2) .notFinished (len1 + len2 + 1) ⟨0, 0⟩

/-- The loop of `checkInUnionSlowPath`. -/
def inUnionLoop (labels : List Label) (len : Nat) (labels1 : List Label) (len1 : Nat)
    (labels2 : List Label) (len2 : Nat) : Except ArrayFault Bool :=
  loop (inUnionRound labels len labels1 len1 labels2 len2) .notFinished (len + len1 + len2 + 1)
    ⟨0, 0, 0⟩

/-! ## Filling the new array -/

namespace Filling

variable {merge : List Label → List Label → List Label} {xs ys : List Label} {size : Nat}

/-- What has been filled in and what the rest of the sets merges to make up the result, for
which there is room. -/
structure Merging (merge : List Label → List Label → List Label) (xs ys : List Label) (size : Nat)
    (s : Filling) : Prop where
  pos1 : s.pos1 ≤ xs.length
  pos2 : s.pos2 ≤ ys.length
  length : s.newLabels.length = size
  filled : s.newPos ≤ size
  merged : s.newLabels.take s.newPos ++ merge (xs.drop s.pos1) (ys.drop s.pos2) = merge xs ys

/-- A result of the merge: the array and the number of labels in it. -/
structure Merged (merge : List Label → List Label → List Label) (xs ys : List Label) (size : Nat)
    (r : List Label × Nat) : Prop where
  length : r.1.length = size
  count : r.2 = (merge xs ys).length
  labels : r.1.take r.2 = merge xs ys

/-- The positions that are left. -/
def left (xs ys : List Label) (s : Filling) : Nat :=
  (xs.length - s.pos1) + (ys.length - s.pos2)

theorem merging_start {newLabels : List Label} (hlength : newLabels.length = size) :
    Merging merge xs ys size ⟨0, 0, 0, newLabels⟩ where
  pos1 := Nat.zero_le _
  pos2 := Nat.zero_le _
  length := hlength
  filled := Nat.zero_le _
  merged := rfl

/-- Picking the next label of the result. -/
theorem Merging.pick {s : Filling} (h : s.Merging merge xs ys size)
    (hroom : (merge xs ys).length ≤ size) {x : Label} {i j : Nat}
    (hi : s.pos1 + i ≤ xs.length) (hj : s.pos2 + j ≤ ys.length) (hmoves : 0 < i + j)
    (hmerge : merge (xs.drop s.pos1) (ys.drop s.pos2) =
      x :: merge (xs.drop (s.pos1 + i)) (ys.drop (s.pos2 + j))) :
    RoundOk (Merging merge xs ys size) (Merged merge xs ys size) (left xs ys) (s.left xs ys)
      (s.pick x i j) := by
  have hmerged := h.merged
  rw [hmerge] at hmerged
  -- the whole result fits, and this label is still missing from it
  have hlt : s.newPos < s.newLabels.length := by
    have hlen := congrArg List.length hmerged
    rw [List.length_append, List.length_take, List.length_cons, h.length,
      Nat.min_eq_left h.filled] at hlen
    rw [h.length]
    omega
  obtain ⟨newLabels, hwrite, hlength, htake⟩ := writeAt_front ArrayFault.indexOutOfBounds hlt x
  rw [Filling.pick, hwrite]
  refine ⟨⟨hi, hj, ?_, ?_, ?_⟩, ?_⟩
  · exact hlength.trans h.length
  · rw [h.length] at hlt
    exact hlt
  · rw [htake, List.append_assoc, List.singleton_append, hmerged]
  · simp only [left]
    omega

theorem Merging.leave {s : Filling} (h : s.Merging merge xs ys size)
    (hdone : merge (xs.drop s.pos1) (ys.drop s.pos2) = []) :
    Merged merge xs ys size (s.newLabels, s.newPos) := by
  have hlabels := h.merged
  rw [hdone, List.append_nil] at hlabels
  refine ⟨h.length, ?_, hlabels⟩
  rw [← hlabels, List.length_take, h.length, Nat.min_eq_left h.filled]

end Filling

/-! ## What the loops compute -/

section Rounds

variable {labels1 labels2 : List Label} {label2 : Nat → Except ArrayFault Label}
  {xs ys : List Label} {size : Nat}

private theorem unionRound_ok (h1 : Reads (labelAt labels1) xs) (h2 : Reads label2 ys)
    (hroom : (mergeUnion xs ys).length ≤ size) (s : Filling)
    (h : s.Merging mergeUnion xs ys size) :
    RoundOk (Filling.Merging mergeUnion xs ys size) (Filling.Merged mergeUnion xs ys size)
      (Filling.left xs ys) (s.left xs ys) (unionRound labels1 xs.length label2 ys.length s) := by
  unfold unionRound
  -- a set that is exhausted has nothing to drop, and the other is copied
  rcases h1.cases h.pos1 with ⟨hend1, hxs⟩ | ⟨hlt1, x, hread1, hxs⟩
  · rcases h2.cases h.pos2 with ⟨hend2, hys⟩ | ⟨hlt2, y, hread2, hys⟩
    · rw [if_neg (by omega)]
      exact h.leave (by rw [hxs, hys, mergeUnion])
    · rw [if_pos (by omega), if_pos hend1, hread2]
      apply h.pick hroom h.pos1 hlt2 (by omega)
      rw [Nat.add_zero s.pos1, hxs, hys, mergeUnion, mergeUnion]
  · rw [if_pos (by omega), if_neg (by omega), hread1]
    rcases h2.cases h.pos2 with ⟨hend2, hys⟩ | ⟨hlt2, y, hread2, hys⟩
    · rw [if_pos hend2]
      apply h.pick hroom hlt1 h.pos2 (by omega)
      rw [Nat.add_zero s.pos2, hys, hxs, mergeUnion_nil_right, mergeUnion_nil_right]
    · rw [if_neg (by omega), hread2]
      dsimp only [bind, Except.bind]
      by_cases hlt : x < y
      · rw [if_pos hlt]
        apply h.pick hroom hlt1 h.pos2 (by omega)
        rw [Nat.add_zero s.pos2, hxs, hys, mergeUnion, if_pos hlt]
      · rw [if_neg hlt]
        by_cases hgt : y < x
        · rw [if_pos hgt]
          apply h.pick hroom h.pos1 hlt2 (by omega)
          rw [Nat.add_zero s.pos1, hxs, hys, mergeUnion, if_neg hlt, if_pos hgt]
        · rw [if_neg hgt]
          apply h.pick hroom hlt1 hlt2 (by omega)
          rw [hxs, hys, mergeUnion, if_neg hlt, if_neg hgt]

private theorem minusRound_ok (h1 : Reads (labelAt labels1) xs) (h2 : Reads (labelAt labels2) ys)
    (hroom : (mergeMinus xs ys).length ≤ size) (s : Filling)
    (h : s.Merging mergeMinus xs ys size) :
    RoundOk (Filling.Merging mergeMinus xs ys size) (Filling.Merged mergeMinus xs ys size)
      (Filling.left xs ys) (s.left xs ys) (minusRound labels1 xs.length labels2 ys.length s) := by
  unfold minusRound
  rcases h1.cases h.pos1 with ⟨hend1, hxs⟩ | ⟨hlt1, x, hread1, hxs⟩
  · rw [if_neg (by omega)]
    exact h.leave (by rw [hxs, mergeMinus])
  · rw [if_pos hlt1, hread1]
    rcases h2.cases h.pos2 with ⟨hend2, hys⟩ | ⟨hlt2, y, hread2, hys⟩
    · rw [if_pos hend2]
      apply h.pick hroom hlt1 h.pos2 (by omega)
      rw [Nat.add_zero s.pos2, hys, hxs, mergeMinus_nil_right, mergeMinus_nil_right]
    · rw [if_neg (by omega), hread2]
      dsimp only [bind, Except.bind]
      have hmerged := h.merged
      rw [hxs, hys, mergeMinus] at hmerged
      -- unless a label is picked, the array stays and only the positions move
      by_cases hlt : x < y
      · rw [if_pos hlt]
        apply h.pick hroom hlt1 h.pos2 (by omega)
        rw [Nat.add_zero s.pos2, hxs, hys, mergeMinus, if_pos hlt]
      · rw [if_neg hlt] at hmerged ⊢
        by_cases hgt : y < x
        · rw [if_pos hgt, ← hxs] at hmerged
          rw [if_pos hgt]
          refine ⟨⟨h.pos1, hlt2, h.length, h.filled, hmerged⟩, ?_⟩
          simp only [Filling.left]
          omega
        · rw [if_neg hgt] at hmerged ⊢
          refine ⟨⟨hlt1, hlt2, h.length, h.filled, hmerged⟩, ?_⟩
          simp only [Filling.left]
          omega

/-- The rest of the sets gives the answer. -/
structure Scanning.Searches (xs ys : List Label) (s : Scanning) : Prop where
  pos1 : s.pos1 ≤ xs.length
  pos2 : s.pos2 ≤ ys.length
  same : mergeSubset (xs.drop s.pos1) (ys.drop s.pos2) = mergeSubset xs ys

def Scanning.left (xs ys : List Label) (s : Scanning) : Nat :=
  (xs.length - s.pos1) + (ys.length - s.pos2)

private theorem subsetRound_ok (h1 : Reads (labelAt labels1) xs) (h2 : Reads (labelAt labels2) ys)
    (s : Scanning) (h : s.Searches xs ys) :
    RoundOk (Scanning.Searches xs ys) (· = mergeSubset xs ys) (Scanning.left xs ys) (s.left xs ys)
      (subsetRound labels1 xs.length labels2 ys.length s) := by
  unfold subsetRound
  have hsame := h.same
  rcases h1.cases h.pos1 with ⟨hend1, hxs⟩ | ⟨hlt1, x, hread1, hxs⟩
  · rw [if_neg (by omega)]
    rw [hxs, mergeSubset] at hsame
    exact hsame
  · rw [if_pos hlt1, hread1]
    rcases h2.cases h.pos2 with ⟨hend2, hys⟩ | ⟨hlt2, y, hread2, hys⟩
    · rw [if_pos hend2]
      rw [hxs, hys, mergeSubset] at hsame
      exact hsame
    · rw [if_neg (by omega), hread2]
      dsimp only [bind, Except.bind]
      rw [hxs, hys, mergeSubset] at hsame
      by_cases hgt : y < x
      · rw [if_pos hgt] at hsame ⊢
        rw [← hxs] at hsame
        refine ⟨⟨h.pos1, hlt2, hsame⟩, ?_⟩
        simp only [Scanning.left]
        omega
      · rw [if_neg hgt] at hsame ⊢
        by_cases hlt : x < y
        · rw [if_pos hlt] at hsame ⊢
          exact hsame
        · rw [if_neg hlt] at hsame ⊢
          refine ⟨⟨hlt1, hlt2, hsame⟩, ?_⟩
          simp only [Scanning.left]
          omega

/-- One of the two sets is passed as its list is. -/
private theorem passAt_ok {labels : List Label} {pos pos1 : Nat} {x : Label}
    (hread : labelAt labels pos = .ok x) (h1 : Reads (labelAt labels1) ys)
    (hpos1 : pos1 ≤ ys.length) :
    ∃ next, passAt labels pos labels1 ys.length pos1 =
        .ok (decide ((ys.drop pos1).head? = some x), next) ∧
      pos1 ≤ next ∧ next ≤ ys.length ∧ passUpTo x (ys.drop pos1) = ys.drop next := by
  unfold passAt
  rcases h1.cases hpos1 with ⟨hend1, hys⟩ | ⟨hlt1, y, hread1, hys⟩
  · rw [if_neg (by omega), hys]
    exact ⟨pos1, rfl, Nat.le_refl _, hpos1, hys.symm⟩
  · rw [if_pos hlt1, hread, hread1, hys, List.head?_cons]
    have hfound : decide (x = y) = decide (some y = some x) :=
      decide_eq_decide.2 ⟨fun heq => congrArg some heq.symm, fun heq => (Option.some.inj heq).symm⟩
    refine ⟨if y ≤ x then pos1 + 1 else pos1, by rw [← hfound]; rfl, ?_⟩
    rw [passUpTo]
    split
    · exact ⟨Nat.le_succ _, hlt1, rfl⟩
    · exact ⟨Nat.le_refl _, hpos1, hys.symm⟩

/-- The rest of the sets gives the answer. -/
structure Searching.Searches (xs ys zs : List Label) (s : Searching) : Prop where
  pos : s.pos ≤ xs.length
  pos1 : s.pos1 ≤ ys.length
  pos2 : s.pos2 ≤ zs.length
  same : mergeInUnion (xs.drop s.pos) (ys.drop s.pos1) (zs.drop s.pos2) = mergeInUnion xs ys zs

def Searching.left (xs ys zs : List Label) (s : Searching) : Nat :=
  (xs.length - s.pos) + (ys.length - s.pos1) + (zs.length - s.pos2)

private theorem inUnionRound_ok {labels zs : List Label} (h : Reads (labelAt labels) xs)
    (h1 : Reads (labelAt labels1) ys) (h2 : Reads (labelAt labels2) zs) (s : Searching)
    (hs : s.Searches xs ys zs) :
    RoundOk (Searching.Searches xs ys zs) (· = mergeInUnion xs ys zs) (Searching.left xs ys zs)
      (s.left xs ys zs) (inUnionRound labels xs.length labels1 ys.length labels2 zs.length s) := by
  unfold inUnionRound
  have hsame := hs.same
  rcases h.cases hs.pos with ⟨hend, hxs⟩ | ⟨hlt, x, hread, hxs⟩
  · rw [if_neg (by omega)]
    rw [hxs, mergeInUnion] at hsame
    exact hsame
  · obtain ⟨next1, hpass1, hge1, hle1, hys⟩ := passAt_ok hread h1 hs.pos1
    obtain ⟨next2, hpass2, hge2, hle2, hzs⟩ := passAt_ok hread h2 hs.pos2
    rw [if_pos hlt, hpass1]
    dsimp only [bind, Except.bind]
    rw [hpass2]
    rw [hxs, mergeInUnion, hys, hzs, List.length_drop, List.length_drop, List.length_drop,
      List.length_drop] at hsame
    have hstuck : (ys.length - next1 = ys.length - s.pos1 ∧
        zs.length - next2 = zs.length - s.pos2) ↔ next1 = s.pos1 ∧ next2 = s.pos2 := by
      omega
    dsimp only
    by_cases hstay : next1 = s.pos1 ∧ next2 = s.pos2
    · rw [if_pos (hstuck.2 hstay)] at hsame
      rw [if_pos hstay]
      exact hsame
    · rw [if_neg (mt hstuck.1 hstay)] at hsame
      rw [if_neg hstay]
      by_cases hfound : (ys.drop s.pos1).head? = some x ∨ (zs.drop s.pos2).head? = some x
      · rw [if_pos hfound] at hsame
        rw [if_pos (by simpa using hfound)]
        refine ⟨⟨hlt, hle1, hle2, hsame⟩, ?_⟩
        simp only [Searching.left]
        omega
      · rw [if_neg hfound, ← hxs] at hsame
        rw [if_neg (by simpa using hfound)]
        refine ⟨⟨hs.pos, hle1, hle2, hsame⟩, ?_⟩
        simp only [Searching.left]
        omega

theorem unionLoop_ok (h1 : Reads (labelAt labels1) xs) (h2 : Reads label2 ys)
    {newLabels : List Label} (hlength : newLabels.length = xs.length + ys.length) :
    ∃ r, unionLoop labels1 xs.length label2 ys.length newLabels = .ok r ∧
      Filling.Merged mergeUnion xs ys (xs.length + ys.length) r :=
  loop_ok (unionRound_ok h1 h2 (length_mergeUnion_le xs ys)) (Filling.merging_start hlength)
    (Nat.lt_succ_self _)

theorem minusLoop_ok (h1 : Reads (labelAt labels1) xs) (h2 : Reads (labelAt labels2) ys)
    {newLabels : List Label} (hlength : newLabels.length = xs.length) :
    ∃ r, minusLoop labels1 xs.length labels2 ys.length newLabels = .ok r ∧
      Filling.Merged mergeMinus xs ys xs.length r :=
  loop_ok (minusRound_ok h1 h2 (mergeMinus_sublist xs ys).length_le)
    (Filling.merging_start hlength) (Nat.lt_succ_self _)

theorem subsetLoop_eq (h1 : Reads (labelAt labels1) xs) (h2 : Reads (labelAt labels2) ys) :
    subsetLoop labels1 xs.length labels2 ys.length = .ok (mergeSubset xs ys) := by
  obtain ⟨answer, hloop, hanswer⟩ :
      ∃ answer, subsetLoop labels1 xs.length labels2 ys.length = .ok answer ∧
        answer = mergeSubset xs ys :=
    loop_ok (subsetRound_ok h1 h2) ⟨Nat.zero_le _, Nat.zero_le _, rfl⟩ (Nat.lt_succ_self _)
  rw [hloop, hanswer]

theorem inUnionLoop_eq {labels zs : List Label} (h : Reads (labelAt labels) xs)
    (h1 : Reads (labelAt labels1) ys) (h2 : Reads (labelAt labels2) zs) :
    inUnionLoop labels xs.length labels1 ys.length labels2 zs.length =
      .ok (mergeInUnion xs ys zs) := by
  obtain ⟨answer, hloop, hanswer⟩ :
      ∃ answer, inUnionLoop labels xs.length labels1 ys.length labels2 zs.length = .ok answer ∧
        answer = mergeInUnion xs ys zs :=
    loop_ok (inUnionRound_ok h h1 h2) ⟨Nat.zero_le _, Nat.zero_le _, Nat.zero_le _, rfl⟩
      (Nat.lt_succ_self _)
  rw [hloop, hanswer]

end Rounds

end Laminar.Vm
