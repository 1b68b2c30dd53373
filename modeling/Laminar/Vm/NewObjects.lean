import Mathlib.Logic.Basic
import Laminar.Vm.ChangeLabel
import Laminar.Vm.LabelChange
import Laminar.Vm.Placement

/-!
# New objects of a region

An object allocated at a site `LABELED` inside a region goes through two decisions.
`allocateScalar` and `allocateArray` ask `shouldAllocLabeledObjectInSR` for the space it is
placed in, and `allocBarrierInsideSR` checks the allocation labels and fills the label slots.

The barrier enforces the allocation rule, also for objects without label slots.  The placement
follows the labels but for one state: a region with empty labels whose allocation labels are
not set places its objects in the labeled space, since the fast path takes `null` for labels
that are not empty.
-/

namespace Laminar.Vm

open Laminar.Lib

/-- The build options of Laminar. -/
def AllocConfig.UsesLaminar (config : AllocConfig) : Prop :=
  config.enabled = true ∧ config.difcBarriers = true ∧ config.isAiravat = false

namespace SRState

/-- The allocation labels are both unset or both set. -/
def AllocPaired (cur : SRState) : Prop :=
  cur.secrecyAllocLabels = none ∧ cur.integrityAllocLabels = none ∨
    ∃ secrecyAlloc integrityAlloc, cur.secrecyAllocLabels = some secrecyAlloc ∧
      cur.integrityAllocLabels = some integrityAlloc

/-- No allocation labels are set and the labels of the region are empty. -/
def EmptyDefault (cur : SRState) : Prop :=
  cur.secrecyAllocLabels = none ∧ cur.integrityAllocLabels = none ∧
    cur.secrecySet = .empty ∧ cur.integritySet = .empty

/-- The rule for the labels `(S', I')` of a new object: secrecy is kept and added to with plus
capabilities, integrity is not invented and given up with minus capabilities. -/
structure AllocRule (cur : SRState) (S' I' : LabelSet) : Prop where
  secrecy_kept : ∀ l ∈ cur.secrecySet, l ∈ S'
  secrecy_added : ∀ l ∈ S', l ∈ cur.secrecySet ∨ l ∈ cur.plusCapabilitySet
  integrity_had : ∀ l ∈ I', l ∈ cur.integritySet
  integrity_given : ∀ l ∈ cur.integritySet, l ∈ I' ∨ l ∈ cur.minusCapabilitySet

theorem allocRule_own (cur : SRState) : cur.AllocRule cur.secrecySet cur.integritySet :=
  ⟨fun _ hl => hl, fun _ hl => Or.inl hl, fun _ hl => hl, fun _ hl => Or.inl hl⟩

end SRState

namespace GreenThread

/-! ## The allocation rule -/

theorem isSubsetOfOrNull_some (this other : LabelSet) :
    isSubsetOfOrNull this (some other) = some (this.isSubsetOf other) := by
  rw [isSubsetOfOrNull, Option.map_some]
  split
  · rename_i hempty
    rw [hempty, LabelSet.isSubsetOf_iff.2 fun l hl => absurd hl (LabelSet.not_mem_empty l)]
  · rfl

/-- On labels that are set, `checkAllocLabels` is the allocation rule. -/
theorem checkAllocLabels_eq_returned {cur : SRState} {secrecyAlloc integrityAlloc : LabelSet}
    (hsecrecy : cur.secrecyAllocLabels = some secrecyAlloc)
    (hintegrity : cur.integrityAllocLabels = some integrityAlloc) :
    checkAllocLabels cur = .returned ↔ cur.AllocRule secrecyAlloc integrityAlloc := by
  have hrule : cur.AllocRule secrecyAlloc integrityAlloc ↔
      cur.secrecySet.isSubsetOf secrecyAlloc = true ∧
      integrityAlloc.isSubsetOf cur.integritySet = true ∧
      secrecyAlloc.checkInUnion cur.secrecySet cur.plusCapabilitySet = true ∧
      cur.integritySet.checkInUnion integrityAlloc cur.minusCapabilitySet = true := by
    rw [LabelSet.isSubsetOf_iff, LabelSet.isSubsetOf_iff, LabelSet.checkInUnion_iff,
      LabelSet.checkInUnion_iff]
    exact ⟨fun h => ⟨h.secrecy_kept, h.integrity_had, h.secrecy_added, h.integrity_given⟩,
      fun h => ⟨h.1, h.2.2.1, h.2.1, h.2.2.2⟩⟩
  rw [hrule, checkAllocLabels, hsecrecy, hintegrity, isSubsetOfOrNull_some]
  cases cur.secrecySet.isSubsetOf secrecyAlloc with
  | false => simp
  | true =>
      simp only [throwIf_else_eq_returned, Bool.not_eq_true', Bool.not_eq_false, true_and,
        and_true]

/-- The barrier returns exactly if the labels it would give obey the rule. -/
theorem allocBarrierInsideSR_eq_returned {th : GreenThread}
    (hpaired : th.currentSRState.AllocPaired) (obj : ObjectLabels) :
    (th.allocBarrierInsideSR obj).1 = .returned ↔ th.currentSRState.AllocRule
      (givenLabels th.currentSRState).1 (givenLabels th.currentSRState).2 := by
  rcases hpaired with hunset | ⟨secrecyAlloc, integrityAlloc, hsecrecy, hintegrity⟩
  · rw [allocBarrierInsideSR, if_pos hunset, givenLabels, hunset.1, hunset.2]
    exact iff_of_true rfl th.currentSRState.allocRule_own
  · have hset : ¬ (th.currentSRState.secrecyAllocLabels = none ∧
        th.currentSRState.integrityAllocLabels = none) := by
      simp [hsecrecy]
    rw [givenLabels, hsecrecy, hintegrity, Option.getD_some, Option.getD_some,
      ← checkAllocLabels_eq_returned hsecrecy hintegrity, allocBarrierInsideSR, if_neg hset]
    cases checkAllocLabels th.currentSRState <;> simp

/-! ## Placement -/

theorem shouldAllocLabeledObjectInSR_eq_false {th : GreenThread} :
    th.shouldAllocLabeledObjectInSR = false ↔
      th.currentSRState.secrecyAllocLabels = some .empty ∧
        th.currentSRState.integrityAllocLabels = some .empty := by
  rw [shouldAllocLabeledObjectInSR]
  by_cases hsecrecy : th.currentSRState.secrecyAllocLabels = some .empty
  · rw [if_neg (not_not_intro hsecrecy)]
    simp [shouldAllocLabeledObjectInSRSlowPath, hsecrecy]
  · rw [if_pos hsecrecy]
    simp [hsecrecy]

/-- The slow path decides by the labels that the object will get. -/
theorem shouldAllocLabeledObjectInSRSlowPath_eq_false {th : GreenThread}
    (hpaired : th.currentSRState.AllocPaired) :
    th.shouldAllocLabeledObjectInSRSlowPath = false ↔
      givenLabels th.currentSRState = (.empty, .empty) := by
  rcases hpaired with ⟨hsecrecy, hintegrity⟩ | ⟨secrecyAlloc, integrityAlloc, hsecrecy, hintegrity⟩
  · simp [shouldAllocLabeledObjectInSRSlowPath, givenLabels, hsecrecy, hintegrity]
  · simp [shouldAllocLabeledObjectInSRSlowPath, givenLabels, hsecrecy, hintegrity]

/-- The fast path decides otherwise for one state. -/
theorem shouldAllocLabeledObjectInSR_eq_false_iff {th : GreenThread}
    (hpaired : th.currentSRState.AllocPaired) :
    th.shouldAllocLabeledObjectInSR = false ↔
      givenLabels th.currentSRState = (.empty, .empty) ∧ ¬ th.currentSRState.EmptyDefault := by
  rw [shouldAllocLabeledObjectInSR_eq_false, SRState.EmptyDefault]
  rcases hpaired with ⟨hsecrecy, hintegrity⟩ | ⟨secrecyAlloc, integrityAlloc, hsecrecy, hintegrity⟩
  · simp [givenLabels, hsecrecy, hintegrity]
  · simp [givenLabels, hsecrecy, hintegrity]

/-- At a site `LABELED` of the Laminar build the region decides. -/
theorem allocate_labeled {th : GreenThread} {config : AllocConfig}
    (hconfig : config.UsesLaminar) (hin : th.inSecureRegion = true) :
    th.allocate config labeledSite true =
      .ok ⟨th.shouldAllocLabeledObjectInSR, none, none⟩ := by
  obtain ⟨henabled, hbarriers, hairavat⟩ := hconfig
  simp [allocate, allocLabeled, allocLaminarLabeled, henabled, hbarriers, hairavat, hin]

section NewObject

variable {th : GreenThread} {config : AllocConfig} {obj : ObjectLabels}

theorem allocBarrierInsideSR_isLabeled (th : GreenThread) (obj : ObjectLabels) :
    (th.allocBarrierInsideSR obj).2.isLabeled = obj.isLabeled := by
  have hset : ∀ secrecyLabels integrityLabels,
      (setObjectLabels obj secrecyLabels integrityLabels).isLabeled = obj.isLabeled := by
    intro secrecyLabels integrityLabels
    rw [setObjectLabels]
    split
    · rename_i hlabeled
      exact hlabeled.symm
    · rfl
  rw [allocBarrierInsideSR]
  split
  · exact hset _ _
  · split
    · exact hset _ _
    · rfl

/-- With or without label slots, a new object has the labels it should be given. -/
theorem sets_newObject (hconfig : config.UsesLaminar) (hin : th.inSecureRegion = true)
    (hpaired : th.currentSRState.AllocPaired)
    (hobj : th.allocate config labeledSite true = .ok obj)
    (hreturned : (th.allocBarrierInsideSR obj).1 = .returned) :
    (th.allocBarrierInsideSR obj).2.sets = some (givenLabels th.currentSRState) := by
  rw [allocBarrierInsideSR_snd hreturned]
  rw [allocate_labeled hconfig hin] at hobj
  obtain rfl := Except.ok.inj hobj
  cases hplace : th.shouldAllocLabeledObjectInSR with
  | true => rfl
  | false =>
      rw [((shouldAllocLabeledObjectInSR_eq_false_iff hpaired).1 hplace).1]
      rfl

/-- **New objects obey the allocation rule**: if the allocation barrier returns, the labels of
the object are within the rule and the region may write the object, and if the labels to be
given are within the rule the barrier returns. -/
theorem newObject_allocRule (th : GreenThread) (config : AllocConfig)
    (hconfig : config.UsesLaminar) (hin : th.inSecureRegion = true)
    (hpaired : th.currentSRState.AllocPaired) (obj : ObjectLabels)
    (hobj : th.allocate config labeledSite true = .ok obj) :
    ((th.allocBarrierInsideSR obj).1 = .returned →
      ∃ S' I', (th.allocBarrierInsideSR obj).2.sets = some (S', I') ∧
        th.currentSRState.AllocRule S' I' ∧
        th.writeBarrierInsideSR (th.allocBarrierInsideSR obj).2 = .returned) ∧
    (th.currentSRState.AllocRule (givenLabels th.currentSRState).1
        (givenLabels th.currentSRState).2 →
      (th.allocBarrierInsideSR obj).1 = .returned) := by
  refine ⟨fun hreturned => ?_, (allocBarrierInsideSR_eq_returned hpaired obj).2⟩
  have hrule := (allocBarrierInsideSR_eq_returned hpaired obj).1 hreturned
  have hsets := sets_newObject hconfig hin hpaired hobj hreturned
  refine ⟨_, _, hsets, hrule, writeBarrierInsideSR_eq_returned.2 ⟨_, _, hsets, ?_⟩⟩
  exact checkAllowed_iff.2 ⟨hrule.secrecy_kept, hrule.integrity_had⟩

end NewObject

/-- A region without labels that allocates under label 5, which it may add. -/
def addsFive : GreenThread :=
  (ownRegion 5).setAllocationLabelsInternal (some (.getLabelSet 5)) (some .empty)

/-- Its object carries the label, and the region may write it. -/
theorem addsFive_allocRule :
    addsFive.allocate usualConfig labeledSite true = .ok ⟨true, none, none⟩ ∧
    (addsFive.allocBarrierInsideSR ⟨true, none, none⟩).1 = .returned ∧
    ∃ S' I', (addsFive.allocBarrierInsideSR ⟨true, none, none⟩).2.sets = some (S', I') ∧
      addsFive.currentSRState.AllocRule S' I' ∧
      addsFive.writeBarrierInsideSR (addsFive.allocBarrierInsideSR ⟨true, none, none⟩).2 =
        .returned :=
  have hreturned : (addsFive.allocBarrierInsideSR ⟨true, none, none⟩).1 = .returned := by
    decide +kernel
  ⟨rfl, hreturned, (newObject_allocRule addsFive usualConfig ⟨rfl, rfl, rfl⟩ rfl
    (Or.inr ⟨_, _, rfl, rfl⟩) _ rfl).1 hreturned⟩

/-! ## After the region -/

/-- **When objects with empty labels stay usable.**  A new object is placed in the labeled space
exactly if its labels are not both empty, the two paths agree on that, and the barriers outside
a region let it be accessed exactly if its labels are empty, unless the region is one with empty
labels and no allocation labels, or the reference of the object is mistaken at an end of the
space. -/
theorem newObject_usable_iff (th : GreenThread) (config : AllocConfig)
    (hconfig : config.UsesLaminar) (hin : th.inSecureRegion = true)
    (hpaired : th.currentSRState.AllocPaired) (obj : ObjectLabels)
    (hobj : th.allocate config labeledSite true = .ok obj) (labeledSpace : Space)
    {otherHeaderBytes : Nat} (cell : ObjectCell otherHeaderBytes)
    (hcell : cell.Places labeledSpace (th.allocBarrierInsideSR obj).2) :
    ((cell.Inside labeledSpace ↔ givenLabels th.currentSRState ≠ (.empty, .empty)) ∧
      th.shouldAllocLabeledObjectInSR = th.shouldAllocLabeledObjectInSRSlowPath ∧
      (labeledSpace.readBarrierOutsideSR cell.ref = .returned ↔
        givenLabels th.currentSRState = (.empty, .empty)) ∧
      (labeledSpace.writeBarrierOutsideSR cell.ref = .returned ↔
        givenLabels th.currentSRState = (.empty, .empty))) ↔
    ¬ th.currentSRState.EmptyDefault ∧ cell.RefClear labeledSpace := by
  have hinside : cell.Inside labeledSpace ↔ ¬ th.shouldAllocLabeledObjectInSR = false := by
    rw [allocate_labeled hconfig hin] at hobj
    rw [hcell.inside_iff, allocBarrierInsideSR_isLabeled, ← Except.ok.inj hobj,
      Bool.not_eq_false]
  have hfast := shouldAllocLabeledObjectInSR_eq_false_iff hpaired
  by_cases hdefault : th.currentSRState.EmptyDefault
  · -- labels that are empty, but the object is in the labeled space
    have hgiven : givenLabels th.currentSRState = (.empty, .empty) := by
      rw [givenLabels, hdefault.1, hdefault.2.1, hdefault.2.2.1, hdefault.2.2.2]
      rfl
    refine iff_of_false (fun h => ?_) fun h => h.1 hdefault
    exact h.1.1 (hinside.2 fun hfalse => (hfast.1 hfalse).2 hdefault) hgiven
  · rw [and_iff_left hdefault] at hfast
    have hplace : cell.Inside labeledSpace ↔
        givenLabels th.currentSRState ≠ (.empty, .empty) := by rw [hinside, hfast]
    have hpaths : th.shouldAllocLabeledObjectInSR =
        th.shouldAllocLabeledObjectInSRSlowPath := by
      rw [Bool.eq_iff_iff, ← Bool.not_eq_false, ← Bool.not_eq_false, hfast,
        shouldAllocLabeledObjectInSRSlowPath_eq_false hpaired]
    have haccess : (labeledSpace.accessOutsideSR cell.ref = .returned ↔
        givenLabels th.currentSRState = (.empty, .empty)) ↔ cell.RefClear labeledSpace := by
      rw [Space.accessOutsideSR_eq_returned,
        ← cell.ref_has_iff labeledSpace hcell.inside_or_outside, hplace, not_iff_comm]
      exact Iff.comm
    rw [Space.readBarrierOutsideSR, Space.writeBarrierOutsideSR, haccess]
    exact ⟨fun h => ⟨hdefault, h.2.2.1⟩, fun h => ⟨hplace, hpaths, h.2, h.2⟩⟩

private theorem firstCell_places (th : GreenThread) :
    firstCell.Places onePage (th.allocBarrierInsideSR ⟨true, none, none⟩).2 := by
  rw [ObjectCell.Places, allocBarrierInsideSR_isLabeled]
  exact ⟨rfl, by decide, by decide⟩

/-- The object of `addsFive`, in the first bytes of the labeled space: outside a region it is
refused, as its labels ask. -/
theorem addsFive_refused :
    (firstCell.Inside onePage ↔ givenLabels addsFive.currentSRState ≠ (.empty, .empty)) ∧
      addsFive.shouldAllocLabeledObjectInSR = addsFive.shouldAllocLabeledObjectInSRSlowPath ∧
      (onePage.readBarrierOutsideSR firstCell.ref = .returned ↔
        givenLabels addsFive.currentSRState = (.empty, .empty)) ∧
      (onePage.writeBarrierOutsideSR firstCell.ref = .returned ↔
        givenLabels addsFive.currentSRState = (.empty, .empty)) :=
  (newObject_usable_iff addsFive usualConfig ⟨rfl, rfl, rfl⟩ rfl (Or.inr ⟨_, _, rfl, rfl⟩)
    ⟨true, none, none⟩ rfl onePage firstCell
    (firstCell_places addsFive)).2
    ⟨fun hdefault => Option.some_ne_none _ hdefault.1,
      firstCell.refClear_of_size onePage (by decide)⟩

/-- A thread starts a region without labels and allocates an object.  The object has empty
labels and is placed in the labeled space, and once the region has ended the thread may neither
read nor write it. -/
theorem emptyRegion_unusable :
    ∃ calls th, Run step (fun _ _ => True) new calls th ∧ th.inSecureRegion = true ∧
      th.currentSRState.secrecyAllocLabels = none ∧
      th.currentSRState.integrityAllocLabels = none ∧
      th.allocate usualConfig labeledSite true = .ok ⟨true, none, none⟩ ∧
      (th.allocBarrierInsideSR ⟨true, none, none⟩).1 = .returned ∧
      givenLabels th.currentSRState = (.empty, .empty) ∧
      firstCell.Places onePage (th.allocBarrierInsideSR ⟨true, none, none⟩).2 ∧
      th.shouldAllocLabeledObjectInSR ≠ th.shouldAllocLabeledObjectInSRSlowPath ∧
      th.endSecureRegion.2.inSecureRegion = false ∧
      onePage.readBarrierOutsideSR firstCell.ref =
        .difcException "Labeled/Poisoned object accessed outside secure region" ∧
      onePage.writeBarrierOutsideSR firstCell.ref =
        .difcException "Labeled/Poisoned object accessed outside secure region" := by
  refine ⟨[] ++ [.start (.startSecureRegion none none)], _, .snoc .nil trivial rfl, rfl, rfl, rfl,
    rfl, rfl, rfl, firstCell_places _, ?_, rfl, ?_, ?_⟩
  · decide +kernel
  · decide
  · decide

end GreenThread

end Laminar.Vm
