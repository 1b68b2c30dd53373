import Laminar.Vm.Space

/-!
# Barriers

The read, write and allocation barriers of class `DIFC`, in the default
configuration.  A barrier sees of an object its reference, whether it lies in the
labeled space, and the two label slots in front of it, which are `null` until its
allocation barrier.  Outside a region only the reference counts.
-/

namespace Laminar.Vm

/-- The labels of an object, as `MemoryManager.isLabeled`, `getSecrecyLabels` and
`getIntegrityLabels` give them. -/
structure ObjectLabels where
  isLabeled : Bool
  secrecyLabels : Option LabelSet
  integrityLabels : Option LabelSet
deriving DecidableEq

/-- The two sets that count: those of the slots in the labeled space, if they were
stored, and empty ones elsewhere. -/
def ObjectLabels.sets (obj : ObjectLabels) : Option (LabelSet × LabelSet) :=
  if obj.isLabeled then
    match obj.secrecyLabels, obj.integrityLabels with
    | some secrecyLabels, some integrityLabels => some (secrecyLabels, integrityLabels)
    | _, _ => none
  else some (.empty, .empty)

theorem ObjectLabels.sets_unlabeled {obj : ObjectLabels} (h : obj.isLabeled = false) :
    obj.sets = some (.empty, .empty) := by
  rw [ObjectLabels.sets, h, if_neg Bool.false_ne_true]

/-- What a barrier is called with: a reference, and the labels of the object it refers
to. -/
structure Referent where
  ref : Address
  labels : ObjectLabels

/-- `null`, which is no object of the labeled space. -/
def Referent.null : Referent := ⟨0, ⟨false, none, none⟩⟩

/-- The reference lies in the labeled space exactly if the object does. -/
def Referent.Clear (obj : Referent) (labeledSpace : Space) : Prop :=
  labeledSpace.Has obj.ref.toNat ↔ obj.labels.isLabeled = true

/-- `checkAllowed`: may information flow from the source to the destination? -/
def checkAllowed (srcSecSet srcIntSet destSecSet destIntSet : LabelSet) : Bool :=
  if !srcSecSet.isSubsetOf destSecSet then false
  else if !destIntSet.isSubsetOf srcIntSet then false
  else true

theorem checkAllowed_iff {srcSecSet srcIntSet destSecSet destIntSet : LabelSet} :
    checkAllowed srcSecSet srcIntSet destSecSet destIntSet = true ↔
      (∀ l ∈ srcSecSet, l ∈ destSecSet) ∧ ∀ l ∈ destIntSet, l ∈ srcIntSet := by
  rw [← LabelSet.isSubsetOf_iff, ← LabelSet.isSubsetOf_iff, checkAllowed]
  cases srcSecSet.isSubsetOf destSecSet <;> cases destIntSet.isSubsetOf srcIntSet <;> simp

namespace GreenThread

/-! ## Reads -/

/-- `readBarrierSlowPath`; labels that are still `null` are followed. -/
def readBarrierSlowPath (th : GreenThread) (obj : ObjectLabels) : Outcome :=
  match obj.secrecyLabels, obj.integrityLabels with
  | some secrecyLabels, some integrityLabels =>
      if !checkAllowed secrecyLabels integrityLabels th.currentSRState.secrecySet
          th.currentSRState.integritySet then
        .difcException "Read access violation"
      else .returned
  | _, _ => .nullPointerException

/-- `readBarrierInsideSR`. -/
def readBarrierInsideSR (th : GreenThread) (obj : ObjectLabels) : Outcome :=
  if !obj.isLabeled then
    if th.currentSRState.integritySet ≠ .empty then
      .difcException ("Read access violation: " ++
        "SR with non-null integrity attempting to read unlabeled data")
    else .returned
  else th.readBarrierSlowPath obj

/-- `readBarrierDynamic`. -/
def readBarrierDynamic (th : GreenThread) (labeledSpace : Space) (obj : Referent) : Outcome :=
  if th.inSecureRegion then th.readBarrierInsideSR obj.labels
  else labeledSpace.readBarrierOutsideSR obj.ref

/-! ## Writes -/

/-- `writeBarrierSlowPath`. -/
def writeBarrierSlowPath (th : GreenThread) (obj : ObjectLabels) : Outcome :=
  match obj.secrecyLabels, obj.integrityLabels with
  | some secrecyLabels, some integrityLabels =>
      if !checkAllowed th.currentSRState.secrecySet th.currentSRState.integritySet
          secrecyLabels integrityLabels then
        .difcException "Write access violation"
      else .returned
  | _, _ => .nullPointerException

/-- `writeBarrierInsideSR`. -/
def writeBarrierInsideSR (th : GreenThread) (obj : ObjectLabels) : Outcome :=
  if !obj.isLabeled then
    if th.currentSRState.secrecySet ≠ .empty then
      .difcException ("Write access violation: " ++
        "SR with non-null secrecy attempting to write unlabeled data")
    else .returned
  else th.writeBarrierSlowPath obj

/-- `writeBarrierDynamic`. -/
def writeBarrierDynamic (th : GreenThread) (labeledSpace : Space) (obj : Referent) : Outcome :=
  if th.inSecureRegion then th.writeBarrierInsideSR obj.labels
  else labeledSpace.writeBarrierOutsideSR obj.ref

/-! ## Allocations -/

/-- `isSubsetOf` with an argument that may be `null`, which only an `EMPTY` set does
not follow. -/
def isSubsetOfOrNull (this : LabelSet) (other : Option LabelSet) : Option Bool :=
  if this = .empty then some true else other.map this.isSubsetOf

/-- `checkAllocLabels`.  Either of the allocation labels may be `null`. -/
def checkAllocLabels (cur : SRState) : Outcome :=
  match isSubsetOfOrNull cur.secrecySet cur.secrecyAllocLabels, cur.integrityAllocLabels with
  | none, _ => .nullPointerException
  | some false, _ =>
      .difcException "Object does not have labels compatible to secure-region"
  | some true, none => .nullPointerException
  | some true, some integrityAlloc =>
      if !integrityAlloc.isSubsetOf cur.integritySet then
        .difcException "Object does not have labels compatible to secure-region"
      else match cur.secrecyAllocLabels with
        | none => .nullPointerException
        | some secrecyAlloc =>
            if !secrecyAlloc.checkInUnion cur.secrecySet cur.plusCapabilitySet then
              .difcException "Object with secrecy label violation[01] "
            else if !cur.integritySet.checkInUnion integrityAlloc cur.minusCapabilitySet then
              .difcException "Object with integrity label violation[01] "
            else .returned

/-- `setObjectLabels`, for an object of the labeled space. -/
def setObjectLabels (obj : ObjectLabels) (secrecyLabels integrityLabels : Option LabelSet) :
    ObjectLabels :=
  if obj.isLabeled then ⟨true, secrecyLabels, integrityLabels⟩ else obj

/-- `allocBarrierInsideSR`, with `allocBarrierSlowPath`. -/
def allocBarrierInsideSR (th : GreenThread) (obj : ObjectLabels) : Outcome × ObjectLabels :=
  let cur := th.currentSRState
  if cur.secrecyAllocLabels = none ∧ cur.integrityAllocLabels = none then
    (.returned, setObjectLabels obj (some cur.secrecySet) (some cur.integritySet))
  else match checkAllocLabels cur with
    | .returned =>
        (.returned, setObjectLabels obj cur.secrecyAllocLabels cur.integrityAllocLabels)
    | thrown => (thrown, obj)

/-- `allocBarrierDynamic`. -/
def allocBarrierDynamic (th : GreenThread) (obj : ObjectLabels) : Outcome × ObjectLabels :=
  if th.inSecureRegion then th.allocBarrierInsideSR obj else (.returned, obj)

/-! ## When they return -/

/-- With the reference clear of the ends of the space, the barriers outside a region refuse the
objects of the labeled space and no others. -/
theorem accessOutsideSR_of_clear {labeledSpace : Space} {obj : Referent}
    (h : obj.Clear labeledSpace) :
    labeledSpace.accessOutsideSR obj.ref = .returned ↔ obj.labels.isLabeled = false := by
  rw [Space.accessOutsideSR_eq_returned, ← Bool.not_eq_true]
  exact not_congr h

/-- The common shape of the two barriers inside a region: an unlabeled object is
refused on a condition, the labels of a labeled one are compared. -/
private theorem inside_eq_returned {obj : ObjectLabels} {refused : Prop} [Decidable refused]
    {message message' : String} (allowed : LabelSet → LabelSet → Bool)
    (hempty : allowed .empty .empty = true ↔ ¬ refused) :
    (if !obj.isLabeled then
        if refused then Outcome.difcException message else .returned
      else match obj.secrecyLabels, obj.integrityLabels with
        | some secrecyLabels, some integrityLabels =>
            if !allowed secrecyLabels integrityLabels then .difcException message'
            else .returned
        | _, _ => .nullPointerException) = .returned ↔
      ∃ secrecyLabels integrityLabels, obj.sets = some (secrecyLabels, integrityLabels) ∧
        allowed secrecyLabels integrityLabels = true := by
  obtain ⟨isLabeled, secrecySlot, integritySlot⟩ := obj
  cases isLabeled with
  | false =>
      simp only [Bool.not_false, ↓reduceIte, throwIf_eq_returned, ← hempty]
      refine ⟨fun hallowed => ⟨_, _, rfl, hallowed⟩, fun ⟨_, _, hsets, hallowed⟩ => ?_⟩
      obtain ⟨rfl, rfl⟩ := Prod.mk.inj (Option.some.inj hsets)
      exact hallowed
  | true =>
      simp only [Bool.not_true, Bool.false_eq_true, ↓reduceIte]
      split
      · rw [throwIf_eq_returned]
        simp [ObjectLabels.sets, and_assoc]
      · rename_i hslots
        refine iff_of_false (fun h => by cases h) fun ⟨_, _, hsets, _⟩ => ?_
        cases secrecySlot with
        | none => cases hsets
        | some secrecyLabels =>
            cases integritySlot with
            | none => cases hsets
            | some integrityLabels => exact hslots _ _ rfl rfl

theorem readBarrierInsideSR_eq_returned {th : GreenThread} {obj : ObjectLabels} :
    th.readBarrierInsideSR obj = .returned ↔ ∃ secrecyLabels integrityLabels,
      obj.sets = some (secrecyLabels, integrityLabels) ∧
        checkAllowed secrecyLabels integrityLabels th.currentSRState.secrecySet
          th.currentSRState.integritySet = true := by
  refine inside_eq_returned (fun secrecyLabels integrityLabels => checkAllowed secrecyLabels
    integrityLabels th.currentSRState.secrecySet th.currentSRState.integritySet) ?_
  rw [checkAllowed_iff, Classical.not_not, LabelSet.eq_empty_iff]
  simp

theorem writeBarrierInsideSR_eq_returned {th : GreenThread} {obj : ObjectLabels} :
    th.writeBarrierInsideSR obj = .returned ↔ ∃ secrecyLabels integrityLabels,
      obj.sets = some (secrecyLabels, integrityLabels) ∧
        checkAllowed th.currentSRState.secrecySet th.currentSRState.integritySet
          secrecyLabels integrityLabels = true := by
  refine inside_eq_returned
    (checkAllowed th.currentSRState.secrecySet th.currentSRState.integritySet) ?_
  rw [checkAllowed_iff, Classical.not_not, LabelSet.eq_empty_iff]
  simp

/-! ## What an allocation barrier stores -/

/-- The labels of objects that a region allocates: the allocation labels, or its own
if none are set. -/
def givenLabels (cur : SRState) : LabelSet × LabelSet :=
  (cur.secrecyAllocLabels.getD cur.secrecySet, cur.integrityAllocLabels.getD cur.integritySet)

/-- `checkAllocLabels` returns only if both labels are set. -/
private theorem allocLabels_of_returned {cur : SRState} (h : checkAllocLabels cur = .returned) :
    ∃ secrecyAlloc integrityAlloc, cur.secrecyAllocLabels = some secrecyAlloc ∧
      cur.integrityAllocLabels = some integrityAlloc := by
  unfold checkAllocLabels at h
  split at h
  · cases h
  · cases h
  · cases h
  · rename_i integrityAlloc _ hintegrity
    split at h
    · cases h
    · split at h
      · cases h
      · rename_i secrecyAlloc hsecrecy
        exact ⟨secrecyAlloc, integrityAlloc, hsecrecy, hintegrity⟩

theorem allocBarrierInsideSR_snd {th : GreenThread} {obj : ObjectLabels}
    (h : (th.allocBarrierInsideSR obj).1 = .returned) :
    (th.allocBarrierInsideSR obj).2 =
      setObjectLabels obj (some (givenLabels th.currentSRState).1)
        (some (givenLabels th.currentSRState).2) := by
  by_cases hnone : th.currentSRState.secrecyAllocLabels = none ∧
      th.currentSRState.integrityAllocLabels = none
  · simp only [allocBarrierInsideSR, givenLabels, hnone, and_self, ↓reduceIte,
      Option.getD_none]
  · simp only [allocBarrierInsideSR, if_neg hnone] at h ⊢
    cases hcheck : checkAllocLabels th.currentSRState with
    | returned =>
        obtain ⟨secrecyAlloc, integrityAlloc, hsecrecy, hintegrity⟩ :=
          allocLabels_of_returned hcheck
        simp only [givenLabels, hsecrecy, hintegrity, Option.getD_some]
    | returnedLabel label => simp [hcheck] at h
    | difcException message => simp [hcheck] at h
    | nullPointerException => simp [hcheck] at h

end GreenThread

end Laminar.Vm
