import Laminar.Vm.Barriers

/-!
# Changing the labels of an object

`DIFC.changeObjectLabel` returns a copy of an object under other labels.  It stores the labels
in the region state, where an allocation of the region would find them, copies the object by
way of `RuntimeEntrypoints`, and puts the old allocation labels back.

The copy is allocated inside the virtual machine.  Its allocation site is the anonymous one,
and `MemoryManager.allocLabeled` looks at the region only for the site `LABELED`: whatever was
stored, the copy is unlabeled.  An exception of the last copying attempt passes by the line that
puts the allocation labels back.

What a call reads of an object is its labels and its type; the contents are of any type.  Each
attempt to copy may find no memory.  A `clone` of the program ends in `Object.clone`.
-/

namespace Laminar.Vm

/-! ## Objects and exceptions -/

/-- The type of an object, as far as copying looks at it: whether a class implements
`Cloneable`, and whether it has a public `clone` without parameters. -/
inductive RVMType
  | arrayType
  | classType (cloneable publicClone : Bool)
deriving DecidableEq

/-- `instanceof Cloneable`. -/
def RVMType.isCloneable : RVMType → Bool
  | .arrayType => true
  | .classType cloneable _ => cloneable

/-- An object of the heap. -/
structure JavaObject (α : Type) where
  type : RVMType
  labels : ObjectLabels
  contents : α
deriving DecidableEq

/-- What is thrown. -/
inductive Throwable
  | difcException (message : String)
  | nullPointerException
  | noSuchMethodException
  | cloneNotSupportedException
  | invocationTargetException
  | classCastException
  | outOfMemoryError
deriving DecidableEq

/-- `instanceof Exception`. -/
def Throwable.isException : Throwable → Bool
  | .outOfMemoryError => false
  | _ => true

/-! ## Allocation -/

/-- What an allocation looks at beside the thread: the build options, the mark of the processor
and the number of sites compiled so far. -/
structure AllocConfig where
  allocationSiteCount : Int
  enabled : Bool
  difcBarriers : Bool
  isAiravat : Bool
  dynamicBarriers : Bool
  inMapperRegion : Bool

/-- `DEFAULT_SITE`. -/
def defaultSite : Int := -1

/-- `LABELED`. -/
def labeledSite : Int := -2

/-- The site that `getAllocationSite` returns. -/
def getAllocationSite (config : AllocConfig) (compileTime : Bool) : Int :=
  if compileTime then config.allocationSiteCount else defaultSite

namespace GreenThread

/-- `shouldAllocLabeledObjectInSRSlowPath`. -/
def shouldAllocLabeledObjectInSRSlowPath (th : GreenThread) : Bool :=
  let cur := th.currentSRState
  if cur.secrecyAllocLabels = none ∧ cur.integrityAllocLabels = none ∧
      cur.secrecySet = .empty ∧ cur.integritySet = .empty then false
  else if cur.secrecyAllocLabels = some .empty ∧ cur.integrityAllocLabels = some .empty then false
  else true

/-- `shouldAllocLabeledObjectInSR`; the secrecy set of a region is never `null`. -/
def shouldAllocLabeledObjectInSR (th : GreenThread) : Bool :=
  if th.currentSRState.secrecyAllocLabels ≠ some .empty then true
  else th.shouldAllocLabeledObjectInSRSlowPath

/-- `allocLaminarLabeled`. -/
def allocLaminarLabeled (th : GreenThread) (config : AllocConfig) : Bool :=
  let inSR := if config.dynamicBarriers then th.inSecureRegion else true
  if inSR then th.shouldAllocLabeledObjectInSR else false

/-- `allocAiravatLabeled`. -/
def allocAiravatLabeled (config : AllocConfig) : Bool :=
  if config.dynamicBarriers then config.inMapperRegion else true

/-- `allocLabeled`. -/
def allocLabeled (th : GreenThread) (config : AllocConfig) (site : Int) : Bool :=
  if config.enabled && config.difcBarriers && site == labeledSite then
    if config.isAiravat then allocAiravatLabeled config else th.allocLaminarLabeled config
  else false

/-- The labels of what `allocateScalar` and `allocateArray` return: the slots are `null`. -/
def allocate (th : GreenThread) (config : AllocConfig) (site : Int) (room : Bool) :
    Except Throwable ObjectLabels :=
  if room then .ok ⟨th.allocLabeled config site, none, none⟩ else .error .outOfMemoryError

/-- `resolvedNewScalar`, and `resolvedNewArray` without a site. -/
def resolvedNew (th : GreenThread) (config : AllocConfig) (room : Bool) :
    Except Throwable ObjectLabels :=
  th.allocate config (getAllocationSite config false) room

/-! ## Copying -/

variable {α : Type}

/-- `cloneArray`. -/
def cloneArray (th : GreenThread) (config : AllocConfig) (room : Bool) (obj : JavaObject α) :
    Except Throwable (JavaObject α) := do
  let labels ← th.resolvedNew config room
  return { obj with labels := labels }

/-- `cloneClass2`; `asClass` fails for an array. -/
def cloneClass2 (th : GreenThread) (config : AllocConfig) (room : Bool) (obj : JavaObject α) :
    Except Throwable (JavaObject α) :=
  match obj.type with
  | .arrayType => .error .classCastException
  | .classType _ _ => do
      let labels ← th.resolvedNew config room
      return { obj with labels := labels }

/-- `cloneClass`. -/
def cloneClass (th : GreenThread) (config : AllocConfig) (room : Bool) (obj : JavaObject α) :
    Except Throwable (JavaObject α) :=
  if !obj.type.isCloneable then .error .cloneNotSupportedException
  else th.cloneClass2 config room obj

/-- `RuntimeEntrypoints.clone`. -/
def clone (th : GreenThread) (config : AllocConfig) (room : Bool) (obj : JavaObject α) :
    Except Throwable (JavaObject α) :=
  match obj.type with
  | .arrayType => th.cloneArray config room obj
  | .classType _ _ => th.cloneClass config room obj

/-- `getMethod("clone")`: only a class is searched, for a public method. -/
def getMethod : RVMType → Except Throwable Unit
  | .classType _ true => .ok ()
  | _ => .error .noSuchMethodException

/-- `Method.invoke`: whatever the method throws is wrapped. -/
def invoke (th : GreenThread) (config : AllocConfig) (room : Bool) (obj : JavaObject α) :
    Except Throwable (JavaObject α) :=
  match th.clone config room obj with
  | .ok copy => .ok copy
  | .error _ => .error .invocationTargetException

/-- Whether the two attempts at a copy find memory: the `clone` method, and `cloneClass2`. -/
structure Room where
  method : Bool
  direct : Bool

/-- The middle part of `changeObjectLabel`: first the `clone` method of the object, whose
exceptions are swallowed, then `cloneClass2`. -/
def copyObject (th : GreenThread) (config : AllocConfig) (room : Room) (obj : JavaObject α) :
    Except Throwable (JavaObject α) :=
  if obj.type.isCloneable then
    match (do getMethod obj.type; th.invoke config room.method obj) with
    | .ok retObj => .ok retObj
    | .error ex =>
        if ex.isException then th.cloneClass2 config room.direct obj else .error ex
  else th.cloneClass2 config room.direct obj

/-! ## The call -/

/-- `checkInUnion` with a first set that may be `null`. -/
def checkInUnionOrNull (this : LabelSet) (firstSet : Option LabelSet) (secondSet : LabelSet) :
    Option Bool :=
  if this = .empty then some true else firstSet.map (this.checkInUnion · secondSet)

/-- Throw unless the check succeeds; `none` is a check that follows a null reference. -/
def require (check : Option Bool) (message : String) : Except Throwable Unit :=
  match check with
  | none => .error .nullPointerException
  | some false => .error (.difcException message)
  | some true => .ok ()

/-- The checks of `changeObjectLabel`; an old label is `null` if it was never stored. -/
def checkLabelChange (cur : SRState) (oldSecrecyLabels oldIntegrityLabels : Option LabelSet)
    (newSecrecyLabels newIntegrityLabels : LabelSet) : Except Throwable Unit := do
  require (checkInUnionOrNull newSecrecyLabels oldSecrecyLabels cur.plusCapabilitySet)
    "Label change not allowed - lacks capability to add all secrecy labels"
  require (oldSecrecyLabels.map (·.checkInUnion newSecrecyLabels cur.minusCapabilitySet))
    "Label change not allowed - lacks capability to remove all secrecy labels"
  require (checkInUnionOrNull newIntegrityLabels oldIntegrityLabels cur.plusCapabilitySet)
    "Label change not allowed - lacks capability to add all integrity labels"
  require (oldIntegrityLabels.map (·.checkInUnion newIntegrityLabels cur.minusCapabilitySet))
    "Label change not allowed - lacks capability to remove all integrity labels"

/-- `changeObjectLabel` after the labels are fixed and the object is not returned as it is. -/
def relabel (th : GreenThread) (config : AllocConfig) (room : Room) (obj : JavaObject α)
    (newSecrecyLabels newIntegrityLabels : LabelSet) :
    Except Throwable (JavaObject α) × GreenThread :=
  let cur := th.currentSRState
  let oldSecrecyLabels := if obj.labels.isLabeled then obj.labels.secrecyLabels else some .empty
  let oldIntegrityLabels :=
    if obj.labels.isLabeled then obj.labels.integrityLabels else some .empty
  match checkLabelChange cur oldSecrecyLabels oldIntegrityLabels
      newSecrecyLabels newIntegrityLabels with
  | .error ex => (.error ex, th)
  | .ok () =>
      let th' := th.setAllocationLabelsInternal (some newSecrecyLabels) (some newIntegrityLabels)
      match th'.copyObject config room obj with
      | .error ex => (.error ex, th')
      | .ok retObj =>
          (.ok retObj,
            th'.setAllocationLabelsInternal cur.secrecyAllocLabels cur.integrityAllocLabels)

/-- `changeObjectLabel`. -/
def changeObjectLabel (th : GreenThread) (config : AllocConfig) (room : Room)
    (obj : JavaObject α) (newSecrecyLabels newIntegrityLabels : Option LabelSet) :
    Except Throwable (JavaObject α) × GreenThread :=
  let newSecrecyLabels := newSecrecyLabels.getD .empty
  let newIntegrityLabels := newIntegrityLabels.getD .empty
  if !obj.labels.isLabeled && newSecrecyLabels = .empty && newIntegrityLabels = .empty then
    (.ok obj, th)
  else th.relabel config room obj newSecrecyLabels newIntegrityLabels

/-! ## What is asked of a change -/

/-- The capabilities of the region allow the change from `(S, I)` to `(S', I')`: what is added
is in the plus set, what is removed in the minus set. -/
structure Permitted (cur : SRState) (S I S' I' : LabelSet) : Prop where
  addSecrecy : ∀ l ∈ S', l ∉ S → l ∈ cur.plusCapabilitySet
  removeSecrecy : ∀ l ∈ S, l ∉ S' → l ∈ cur.minusCapabilitySet
  addIntegrity : ∀ l ∈ I', l ∉ I → l ∈ cur.plusCapabilitySet
  removeIntegrity : ∀ l ∈ I, l ∉ I' → l ∈ cur.minusCapabilitySet

/-- The labels are exactly `(S', I')`: in the labeled space with these sets, and outside it iff
both are empty. -/
def Carries (labels : ObjectLabels) (S' I' : LabelSet) : Prop :=
  (labels.isLabeled = true →
    labels.secrecyLabels = some S' ∧ labels.integrityLabels = some I') ∧
  (labels.isLabeled = false ↔ S' = .empty ∧ I' = .empty)

/-- The contract of a change from `(S, I)` to `(S', I')`, for the way the call ends and the
thread it leaves. -/
structure Relabels (th : GreenThread) (S I S' I' : LabelSet)
    (ending : Except Throwable (JavaObject α) × GreenThread) : Prop where
  permitted : ∀ retObj, ending.1 = .ok retObj → Permitted th.currentSRState S I S' I'
  carries : ∀ retObj, ending.1 = .ok retObj → Carries retObj.labels S' I'
  secrecyAlloc :
    ending.2.currentSRState.secrecyAllocLabels = th.currentSRState.secrecyAllocLabels
  integrityAlloc :
    ending.2.currentSRState.integrityAllocLabels = th.currentSRState.integrityAllocLabels

/-- The object is of a class, and its public `clone` or else `cloneClass2` finds memory. -/
def copyable (obj : JavaObject α) (room : Room) : Bool :=
  match obj.type with
  | .arrayType => false
  | .classType cloneable publicClone => (cloneable && publicClone && room.method) || room.direct

/-! ## Copies are unlabeled -/

theorem allocLabeled_anonymous (th : GreenThread) (config : AllocConfig) :
    th.allocLabeled config (getAllocationSite config false) = false := by
  have hsite : (getAllocationSite config false == labeledSite) = false := rfl
  simp only [allocLabeled, hsite, Bool.and_false, Bool.false_eq_true, ↓reduceIte]

/-- A copy, as the virtual machine makes it. -/
def unlabeledCopy (obj : JavaObject α) : JavaObject α := { obj with labels := ⟨false, none, none⟩ }

theorem cloneClass2_of_room (th : GreenThread) (config : AllocConfig) (obj : JavaObject α)
    {cloneable publicClone : Bool} (htype : obj.type = .classType cloneable publicClone) :
    th.cloneClass2 config true obj = .ok (unlabeledCopy obj) := by
  simp only [cloneClass2, unlabeledCopy, htype, resolvedNew, allocate, ↓reduceIte,
    allocLabeled_anonymous]
  rfl

theorem cloneClass2_of_not_room (th : GreenThread) (config : AllocConfig) (obj : JavaObject α)
    {cloneable publicClone : Bool} (htype : obj.type = .classType cloneable publicClone) :
    th.cloneClass2 config false obj = .error .outOfMemoryError := by
  simp only [cloneClass2, htype, resolvedNew, allocate, Bool.false_eq_true, ↓reduceIte]
  rfl

theorem cloneClass2_of_array (th : GreenThread) (config : AllocConfig) (obj : JavaObject α)
    {room : Bool} (htype : obj.type = .arrayType) :
    th.cloneClass2 config room obj = .error .classCastException := by
  simp only [cloneClass2, htype]

/-- The method of an object whose class has one is `cloneClass2` again; of other objects there is
none. -/
theorem invoke_eq (th : GreenThread) (config : AllocConfig) (obj : JavaObject α) {room : Bool}
    {publicClone : Bool} (htype : obj.type = .classType true publicClone) :
    (do getMethod obj.type; th.invoke config room obj) =
      if publicClone then
        if room then .ok (unlabeledCopy obj) else .error .invocationTargetException
      else .error .noSuchMethodException := by
  have hclone : th.clone config room obj = th.cloneClass2 config room obj := by
    simp only [clone, cloneClass, htype, RVMType.isCloneable, Bool.not_true, Bool.false_eq_true,
      ↓reduceIte]
  cases publicClone with
  | false =>
      rw [htype]
      rfl
  | true =>
      cases room with
      | false =>
          rw [htype, invoke, hclone, cloneClass2_of_not_room th config obj htype]
          rfl
      | true =>
          rw [htype, invoke, hclone, cloneClass2_of_room th config obj htype]
          rfl

/-- An exception of the method is swallowed, so a copy comes from it or from `cloneClass2`. -/
theorem copyObject_eq (th : GreenThread) (config : AllocConfig) (room : Room)
    {obj : JavaObject α} {cloneable publicClone : Bool}
    (htype : obj.type = .classType cloneable publicClone) :
    th.copyObject config room obj =
      if cloneable && publicClone && room.method then .ok (unlabeledCopy obj)
      else th.cloneClass2 config room.direct obj := by
  cases cloneable with
  | false =>
      simp only [copyObject, htype, RVMType.isCloneable, Bool.false_eq_true, Bool.false_and,
        ↓reduceIte]
  | true =>
      rw [copyObject, invoke_eq th config obj htype]
      obtain ⟨method, direct⟩ := room
      cases publicClone <;> cases method <;>
        simp [htype, RVMType.isCloneable, Throwable.isException]

/-- **A copy is unlabeled**, whatever allocation labels the thread has and whatever the build
options are. -/
theorem copyObject_of_copyable (th : GreenThread) (config : AllocConfig) {room : Room}
    {obj : JavaObject α} (h : copyable obj room = true) :
    th.copyObject config room obj = .ok (unlabeledCopy obj) := by
  cases htype : obj.type with
  | arrayType => simp only [copyable, htype, Bool.false_eq_true] at h
  | classType cloneable publicClone =>
      rw [copyObject_eq th config room htype]
      simp only [copyable, htype, Bool.or_eq_true] at h
      rcases h with hmethod | hdirect
      · rw [if_pos hmethod]
      · rw [hdirect, cloneClass2_of_room th config obj htype, ite_self]

theorem copyObject_of_not_copyable (th : GreenThread) (config : AllocConfig) {room : Room}
    {obj : JavaObject α} (h : copyable obj room = false) :
    ∃ ex, th.copyObject config room obj = .error ex := by
  cases htype : obj.type with
  | arrayType =>
      refine ⟨.classCastException, ?_⟩
      simp only [copyObject, htype, RVMType.isCloneable, ↓reduceIte, getMethod]
      exact cloneClass2_of_array th config obj htype
  | classType cloneable publicClone =>
      simp only [copyable, htype, Bool.or_eq_false_iff] at h
      refine ⟨.outOfMemoryError, ?_⟩
      rw [copyObject_eq th config room htype, if_neg (Bool.eq_false_iff.1 h.1), h.2,
        cloneClass2_of_not_room th config obj htype]

/-! ## The checks -/

theorem require_eq_ok {check : Option Bool} {message : String} :
    require check message = .ok () ↔ check = some true := by
  match check with
  | none => simp [require]
  | some false => simp [require]
  | some true => simp [require]

private theorem seq_eq_ok {first second : Except Throwable Unit} :
    (do first; second) = .ok () ↔ first = .ok () ∧ second = .ok () := by
  cases first with
  | error ex => exact iff_of_false nofun fun h => nomatch h.1
  | ok => exact ⟨fun h => ⟨rfl, h⟩, And.right⟩

private theorem checkInUnion_diff {this firstSet secondSet : LabelSet} :
    this.checkInUnion firstSet secondSet = true ↔ ∀ l ∈ this, l ∉ firstSet → l ∈ secondSet := by
  rw [LabelSet.checkInUnion_iff]
  exact forall₂_congr fun l _ => Decidable.or_iff_not_imp_left

theorem checkInUnionOrNull_iff {this firstSet secondSet : LabelSet} :
    checkInUnionOrNull this (some firstSet) secondSet = some true ↔
      ∀ l ∈ this, l ∉ firstSet → l ∈ secondSet := by
  rw [checkInUnionOrNull, Option.map_some]
  split
  · rename_i hempty
    simp [hempty]
  · rw [Option.some_inj, checkInUnion_diff]

/-- On labels that were stored, the checks are the rule for a change. -/
theorem checkLabelChange_eq_ok {cur : SRState} {S I S' I' : LabelSet} :
    checkLabelChange cur (some S) (some I) S' I' = .ok () ↔ Permitted cur S I S' I' := by
  have hold : ∀ {old new : LabelSet},
      (some old).map (·.checkInUnion new cur.minusCapabilitySet) = some true ↔
        ∀ l ∈ old, l ∉ new → l ∈ cur.minusCapabilitySet := by
    intro old new
    rw [Option.map_some, Option.some_inj, checkInUnion_diff]
  rw [checkLabelChange, seq_eq_ok, seq_eq_ok, seq_eq_ok, require_eq_ok, require_eq_ok,
    require_eq_ok, require_eq_ok, checkInUnionOrNull_iff, checkInUnionOrNull_iff, hold, hold]
  exact ⟨fun h => ⟨h.1, h.2.1, h.2.2.1, h.2.2.2⟩,
    fun h => ⟨h.addSecrecy, h.removeSecrecy, h.addIntegrity, h.removeIntegrity⟩⟩

/-! ## The contract -/

/-- The old labels that a call looks at are the sets of the object. -/
private theorem oldLabels_eq {labels : ObjectLabels} {S I : LabelSet}
    (h : labels.sets = some (S, I)) :
    (if labels.isLabeled then labels.secrecyLabels else some .empty) = some S ∧
      (if labels.isLabeled then labels.integrityLabels else some .empty) = some I := by
  obtain ⟨isLabeled, secrecyLabels, integrityLabels⟩ := labels
  cases isLabeled with
  | false =>
      cases h
      exact ⟨rfl, rfl⟩
  | true =>
      match secrecyLabels, integrityLabels, h with
      | some _, some _, rfl => exact ⟨rfl, rfl⟩

/-- A change that is not permitted throws, and the thread is as before. -/
theorem relabel_refused (th : GreenThread) (config : AllocConfig) (room : Room)
    {obj : JavaObject α} {S I S' I' : LabelSet} (hobj : obj.labels.sets = some (S, I))
    (h : ¬ Permitted th.currentSRState S I S' I') :
    ∃ ex, th.relabel config room obj S' I' = (.error ex, th) := by
  rw [relabel, (oldLabels_eq hobj).1, (oldLabels_eq hobj).2]
  cases hcheck : checkLabelChange th.currentSRState (some S) (some I) S' I' with
  | error ex => exact ⟨ex, rfl⟩
  | ok => exact absurd (checkLabelChange_eq_ok.1 hcheck) h

/-- A permitted change of an object that can be copied returns an unlabeled copy, and the thread
is as before. -/
theorem relabel_copied (th : GreenThread) (config : AllocConfig) {room : Room}
    {obj : JavaObject α} {S I S' I' : LabelSet} (hobj : obj.labels.sets = some (S, I))
    (hperm : Permitted th.currentSRState S I S' I') (hcopy : copyable obj room = true) :
    th.relabel config room obj S' I' = (.ok (unlabeledCopy obj), th) := by
  rw [relabel, (oldLabels_eq hobj).1, (oldLabels_eq hobj).2, checkLabelChange_eq_ok.2 hperm]
  simp only [copyObject_of_copyable _ config hcopy]
  rfl

/-- A permitted change of any other object throws with the new allocation labels in place. -/
theorem relabel_thrown (th : GreenThread) (config : AllocConfig) {room : Room}
    {obj : JavaObject α} {S I S' I' : LabelSet} (hobj : obj.labels.sets = some (S, I))
    (hperm : Permitted th.currentSRState S I S' I') (hcopy : copyable obj room = false) :
    ∃ ex, th.relabel config room obj S' I' =
      (.error ex, th.setAllocationLabelsInternal (some S') (some I')) := by
  obtain ⟨ex, hex⟩ := copyObject_of_not_copyable
    (th.setAllocationLabelsInternal (some S') (some I')) config hcopy
  refine ⟨ex, ?_⟩
  rw [relabel, (oldLabels_eq hobj).1, (oldLabels_eq hobj).2, checkLabelChange_eq_ok.2 hperm]
  simp only [hex]

/-- Of a call that throws, the contract asks that the allocation labels are the old ones. -/
theorem relabels_error_iff {th th' : GreenThread} {S I S' I' : LabelSet} {ex : Throwable} :
    Relabels th S I S' I' ((.error ex : Except Throwable (JavaObject α)), th') ↔
      th'.currentSRState.secrecyAllocLabels = th.currentSRState.secrecyAllocLabels ∧
      th'.currentSRState.integrityAllocLabels = th.currentSRState.integrityAllocLabels :=
  ⟨fun h => ⟨h.secrecyAlloc, h.integrityAlloc⟩, fun h => ⟨nofun, nofun, h.1, h.2⟩⟩

/-- Of an unlabeled object the contract asks that no label was asked for. -/
theorem relabels_unlabeled_iff {th : GreenThread} {S I S' I' : LabelSet} {retObj : JavaObject α}
    (hperm : Permitted th.currentSRState S I S' I') (hret : retObj.labels.isLabeled = false) :
    Relabels th S I S' I' (.ok retObj, th) ↔ S' = .empty ∧ I' = .empty := by
  constructor
  · intro h
    exact (h.carries retObj rfl).2.1 hret
  · intro hempty
    refine ⟨fun _ _ => hperm, fun obj hobj => ?_, rfl, rfl⟩
    cases hobj
    exact ⟨fun hlabeled => absurd (hret.symm.trans hlabeled) Bool.false_ne_true,
      fun _ => hempty, fun _ => hret⟩

/-- The contract of a change of an object that is not returned as it is: the three ways out. -/
theorem relabel_relabels_iff (th : GreenThread) (config : AllocConfig) (room : Room)
    {obj : JavaObject α} {S I S' I' : LabelSet} (hobj : obj.labels.sets = some (S, I)) :
    Relabels th S I S' I' (th.relabel config room obj S' I') ↔
      ¬ Permitted th.currentSRState S I S' I' ∨
      (copyable obj room = true ∧ S' = .empty ∧ I' = .empty) ∨
      (copyable obj room = false ∧ th.currentSRState.secrecyAllocLabels = some S' ∧
        th.currentSRState.integrityAllocLabels = some I') := by
  by_cases hperm : Permitted th.currentSRState S I S' I'
  · cases hcopy : copyable obj room with
    | true =>
        rw [relabel_copied th config hobj hperm hcopy, relabels_unlabeled_iff hperm rfl]
        simp [hperm]
    | false =>
        obtain ⟨ex, hex⟩ := relabel_thrown th config hobj hperm hcopy
        rw [hex, relabels_error_iff]
        constructor
        · rintro ⟨hsecrecy, hintegrity⟩
          exact .inr (.inr ⟨rfl, hsecrecy.symm, hintegrity.symm⟩)
        · rintro (hrefused | ⟨hroom, -⟩ | ⟨-, hsecrecy, hintegrity⟩)
          · exact absurd hperm hrefused
          · cases hroom
          · exact ⟨hsecrecy.symm, hintegrity.symm⟩
  · obtain ⟨ex, hex⟩ := relabel_refused th config room hobj hperm
    rw [hex, relabels_error_iff]
    exact iff_of_true ⟨rfl, rfl⟩ (.inl hperm)

/-- **When a change of labels keeps its contract.**  The capabilities refuse it, so that it
throws before anything is stored; or no label is asked for, and the object is returned as it is
or copied; or the object cannot be copied and the region already allocates under the labels asked
for.  Every other call breaks the contract: a copy made for labels comes back without them, and
an attempt that fails leaves the labels behind as allocation labels of the region. -/
theorem changeObjectLabel_relabels_iff (th : GreenThread) (config : AllocConfig) (room : Room)
    (obj : JavaObject α) (S I : LabelSet) (hobj : obj.labels.sets = some (S, I))
    (newSecrecyLabels newIntegrityLabels : Option LabelSet) :
    Relabels th S I (newSecrecyLabels.getD .empty) (newIntegrityLabels.getD .empty)
        (th.changeObjectLabel config room obj newSecrecyLabels newIntegrityLabels) ↔
      ¬ Permitted th.currentSRState S I
          (newSecrecyLabels.getD .empty) (newIntegrityLabels.getD .empty) ∨
      (newSecrecyLabels.getD .empty = .empty ∧ newIntegrityLabels.getD .empty = .empty ∧
        (obj.labels.isLabeled = false ∨ copyable obj room = true)) ∨
      (copyable obj room = false ∧
        th.currentSRState.secrecyAllocLabels = some (newSecrecyLabels.getD .empty) ∧
        th.currentSRState.integrityAllocLabels = some (newIntegrityLabels.getD .empty)) := by
  rw [changeObjectLabel]
  generalize newSecrecyLabels.getD .empty = S'
  generalize newIntegrityLabels.getD .empty = I'
  by_cases hreturn : obj.labels.isLabeled = false ∧ S' = .empty ∧ I' = .empty
  · -- the object itself is returned
    obtain ⟨hlabels, rfl, rfl⟩ := hreturn
    have hsets : (S, I) = (.empty, .empty) :=
      Option.some_inj.1 (hobj.symm.trans (ObjectLabels.sets_unlabeled hlabels))
    cases hsets
    have hperm : Permitted th.currentSRState .empty .empty .empty .empty := by
      constructor <;> intro l hl <;> exact absurd hl (LabelSet.not_mem_empty l)
    rw [hlabels]
    exact iff_of_true ((relabels_unlabeled_iff hperm hlabels).2 ⟨rfl, rfl⟩)
      (.inr (.inl ⟨rfl, rfl, .inl rfl⟩))
  · have hguard : ¬ (!obj.labels.isLabeled && decide (S' = .empty) && decide (I' = .empty)) := by
      simpa only [Bool.and_eq_true, Bool.not_eq_true', decide_eq_true_eq, and_assoc] using hreturn
    rw [if_neg hguard, relabel_relabels_iff th config room hobj]
    refine or_congr_right (or_congr_left ⟨?_, ?_⟩)
    · rintro ⟨hcopy, hS, hI⟩
      exact ⟨hS, hI, .inr hcopy⟩
    · rintro ⟨hS, hI, hlabels | hcopy⟩
      · exact absurd ⟨hlabels, hS, hI⟩ hreturn
      · exact ⟨hcopy, hS, hI⟩

/-- A region that may add and remove one label: a new thread is given the capabilities and starts
it. -/
def ownRegion (l : Label) : GreenThread :=
  ((new.initializeThreadCapability (.getLabelSet l) bothCapability).2.startSecureRegionDecEnd
    none none (some (.getLabelSet l)) (some (.getLabelSet l))).2

/-- The usual build: dynamic barriers, no Airavat. -/
def usualConfig : AllocConfig := ⟨0, true, true, false, true, false⟩

/-- A secret object of a plain class, declassified by a region that may. -/
theorem changeObjectLabel_declassifies :
    let obj : JavaObject Unit :=
      ⟨.classType false false, ⟨true, some (.getLabelSet 5), some .empty⟩, ()⟩
    obj.labels.sets = some (.getLabelSet 5, .empty) ∧
      Relabels (ownRegion 5) (.getLabelSet 5) .empty .empty .empty
        ((ownRegion 5).changeObjectLabel usualConfig ⟨true, true⟩ obj none none) := by
  refine ⟨rfl, ?_⟩
  exact (changeObjectLabel_relabels_iff (ownRegion 5) usualConfig ⟨true, true⟩ _ _ _ rfl
    none none).2 (.inr (.inl ⟨rfl, rfl, .inr rfl⟩))

/-- Two ways to break the contract.  A region asks for a secret copy of an unlabeled object and
gets an unlabeled one; and it asks for a secret copy of an array, gets an exception, and from then
on allocates under the label. -/
theorem changeObjectLabel_loses_label :
    let plain : JavaObject Unit := ⟨.classType true true, ⟨false, none, none⟩, ()⟩
    let array : JavaObject Unit := ⟨.arrayType, ⟨false, none, none⟩, ()⟩
    let secret := LabelSet.getLabelSet 5
    let room : Room := ⟨true, true⟩
    ((ownRegion 5).changeObjectLabel usualConfig room plain (some secret) none).1 = .ok plain ∧
      ¬ Relabels (ownRegion 5) .empty .empty secret .empty
        ((ownRegion 5).changeObjectLabel usualConfig room plain (some secret) none) ∧
      (ownRegion 5).changeObjectLabel usualConfig room array (some secret) none =
        (.error .classCastException,
          (ownRegion 5).setAllocationLabelsInternal (some secret) (some .empty)) ∧
      (ownRegion 5).currentSRState.secrecyAllocLabels = none := by
  have hplain : ((ownRegion 5).changeObjectLabel usualConfig ⟨true, true⟩
      (⟨.classType true true, ⟨false, none, none⟩, ()⟩ : JavaObject Unit)
      (some (.getLabelSet 5)) none).1 = .ok ⟨.classType true true, ⟨false, none, none⟩, ()⟩ := rfl
  refine ⟨hplain, fun h => ?_, rfl, rfl⟩
  exact absurd ((h.carries _ hplain).2.1 rfl).1 (by decide)

end GreenThread

end Laminar.Vm
