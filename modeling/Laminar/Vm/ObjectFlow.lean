import Laminar.Lib.Taint
import Laminar.Vm.Barriers
import Laminar.Vm.LabelObjects

/-!
# Data between objects

The barriers inside a region once more, now with label sets as the objects they are: the short
cut for an unlabeled object is a test for the object `EMPTY`, and the slow path runs the loops
over arrays.  On label sets that a program has built they do what the barriers of `Vm.Barriers`
do on lists, so they return just when the flow rule holds.

Then threads read and write objects, each access behind its barrier.  A holder, which is a
thread or an object, may hold the data of an object; `moveData` follows that data through the
accesses.  Wherever the data of an object can get, the flow rule leads there.
-/

namespace Laminar.Vm

open Laminar.Lib

/-! ## Barriers on references -/

/-- `secrecySet` and `integritySet` of the current region. -/
structure RegionSets where
  secrecySet : LabelRef
  integritySet : LabelRef

/-- An object, as a barrier sees it: outside the labeled space, or in it with two label sets. -/
inductive HeapObject
  | unlabeled
  | labeled (secrecyLabels integrityLabels : LabelRef)

namespace LabelObjects

/-- `checkAllowed`. -/
def checkAllowed (h : LabelObjects) (srcSecSet srcIntSet destSecSet destIntSet : LabelRef) :
    Except ArrayFault Bool := do
  if !(← h.isSubsetOf srcSecSet destSecSet) then return false
  else if !(← h.isSubsetOf destIntSet srcIntSet) then return false
  else return true

/-- The common part of the two barriers: an unlabeled object is refused unless `guard` is
`EMPTY`, the labels of a labeled one are compared. -/
def barrierInsideSR (guard : LabelRef) (unlabeledMessage message : String)
    (allowed : LabelRef → LabelRef → Except ArrayFault Bool) :
    HeapObject → Except ArrayFault Outcome
  | .unlabeled =>
      if guard ≠ emptyRef then .ok (.difcException unlabeledMessage) else .ok .returned
  | .labeled secrecyLabels integrityLabels => do
      if !(← allowed secrecyLabels integrityLabels) then return .difcException message
      else return .returned

/-- `readBarrierInsideSR`, with `readBarrierSlowPath`. -/
def readBarrierInsideSR (h : LabelObjects) (cur : RegionSets) :
    HeapObject → Except ArrayFault Outcome :=
  barrierInsideSR cur.integritySet
    ("Read access violation: " ++ "SR with non-null integrity attempting to read unlabeled data")
    "Read access violation"
    fun secrecyLabels integrityLabels =>
      h.checkAllowed secrecyLabels integrityLabels cur.secrecySet cur.integritySet

/-- `writeBarrierInsideSR`, with `writeBarrierSlowPath`. -/
def writeBarrierInsideSR (h : LabelObjects) (cur : RegionSets) :
    HeapObject → Except ArrayFault Outcome :=
  barrierInsideSR cur.secrecySet
    ("Write access violation: " ++ "SR with non-null secrecy attempting to write unlabeled data")
    "Write access violation"
    fun secrecyLabels integrityLabels =>
      h.checkAllowed cur.secrecySet cur.integritySet secrecyLabels integrityLabels

/-! ## The lists they work on -/

/-- The label sets of the thread's region, as objects. -/
structure RegionDenotes (h : LabelObjects) (cur : RegionSets) (th : GreenThread) : Prop where
  secrecy : h.Denotes cur.secrecySet th.currentSRState.secrecySet
  integrity : h.Denotes cur.integritySet th.currentSRState.integritySet

/-- The label sets of an object, as objects. -/
def ObjectDenotes (h : LabelObjects) : HeapObject → ObjectLabels → Prop
  | .unlabeled, obj => obj.isLabeled = false
  | .labeled secrecyLabels integrityLabels, obj => obj.isLabeled = true ∧
      (∃ set, obj.secrecyLabels = some set ∧ h.Denotes secrecyLabels set) ∧
      ∃ set, obj.integrityLabels = some set ∧ h.Denotes integrityLabels set

section Denoted

variable {h : LabelObjects} {cur : RegionSets} {th : GreenThread} {o : HeapObject}
  {obj : ObjectLabels}

theorem checkAllowed_eq {a b c d : LabelRef} {sa sb sc sd : LabelSet} (ha : h.Denotes a sa)
    (hb : h.Denotes b sb) (hc : h.Denotes c sc) (hd : h.Denotes d sd) :
    h.checkAllowed a b c d = .ok (Vm.checkAllowed sa sb sc sd) := by
  rw [checkAllowed, ha.isSubsetOf_eq hc, Vm.checkAllowed]
  dsimp only [bind, Except.bind]
  cases sa.isSubsetOf sc with
  | false => rfl
  | true =>
      rw [hd.isSubsetOf_eq hb]
      cases sd.isSubsetOf sb <;> rfl

/-- A barrier does on references what its counterpart does on lists. -/
private theorem barrierInsideSR_eq {guard : LabelRef} {set : LabelSet}
    (hguard : h.Denotes guard set) {unlabeledMessage message : String}
    {allowed : LabelRef → LabelRef → Except ArrayFault Bool} {answer : LabelSet → LabelSet → Bool}
    (hallowed : ∀ a b sa sb, h.Denotes a sa → h.Denotes b sb →
      allowed a b = .ok (answer sa sb)) (ho : h.ObjectDenotes o obj) :
    barrierInsideSR guard unlabeledMessage message allowed o =
      .ok (if !obj.isLabeled then
          if set ≠ .empty then .difcException unlabeledMessage else .returned
        else match obj.secrecyLabels, obj.integrityLabels with
          | some secrecyLabels, some integrityLabels =>
              if !answer secrecyLabels integrityLabels then .difcException message
              else .returned
          | _, _ => .nullPointerException) := by
  cases o with
  | unlabeled =>
      have hout : obj.isLabeled = false := ho
      rw [barrierInsideSR, hout, if_pos (show (!false) = true from rfl)]
      by_cases hempty : guard = emptyRef
      · rw [if_neg (not_not_intro hempty), if_neg (not_not_intro (hguard.empty_iff.1 hempty))]
      · rw [if_pos hempty, if_pos (mt hguard.empty_iff.2 hempty)]
  | labeled secrecyLabels integrityLabels =>
      obtain ⟨hin, ⟨S, hS, hdS⟩, I, hI, hdI⟩ := ho
      rw [barrierInsideSR, hallowed _ _ S I hdS hdI, hin, hS, hI]
      dsimp only [bind, Except.bind]
      cases answer S I <;> rfl

theorem readBarrierInsideSR_eq (hcur : h.RegionDenotes cur th) (ho : h.ObjectDenotes o obj) :
    h.readBarrierInsideSR cur o = .ok (th.readBarrierInsideSR obj) :=
  barrierInsideSR_eq hcur.integrity
    (fun _ _ _ _ ha hb => checkAllowed_eq ha hb hcur.secrecy hcur.integrity) ho

theorem writeBarrierInsideSR_eq (hcur : h.RegionDenotes cur th) (ho : h.ObjectDenotes o obj) :
    h.writeBarrierInsideSR cur o = .ok (th.writeBarrierInsideSR obj) :=
  barrierInsideSR_eq hcur.secrecy
    (fun _ _ _ _ ha hb => checkAllowed_eq hcur.secrecy hcur.integrity ha hb) ho

end Denoted

end LabelObjects

/-! ## The flow rule -/

/-- Secrecy and integrity labels. -/
abbrev Labels := Set Label × Set Label

/-- Data may flow from the first labels to the second. -/
def LeadsTo (a b : Labels) : Prop := a.1 ⊆ b.1 ∧ b.2 ⊆ a.2

theorem LeadsTo.refl (a : Labels) : LeadsTo a a := ⟨subset_refl _, subset_refl _⟩

theorem LeadsTo.trans {a b c : Labels} (hab : LeadsTo a b) (hbc : LeadsTo b c) : LeadsTo a c :=
  ⟨hab.1.trans hbc.1, hbc.2.trans hab.2⟩

/-- The labels of a region. -/
def RegionSets.labels (h : LabelObjects) (cur : RegionSets) : Labels :=
  (h.elements cur.secrecySet, h.elements cur.integritySet)

/-- The labels of an object: none outside the labeled space. -/
def HeapObject.labels (h : LabelObjects) : HeapObject → Labels
  | .unlabeled => (∅, ∅)
  | .labeled secrecyLabels integrityLabels =>
      (h.elements secrecyLabels, h.elements integrityLabels)

/-- The label sets of a region are there. -/
def RegionSets.Built (h : LabelObjects) (cur : RegionSets) : Prop :=
  cur.secrecySet < h.objects.length ∧ cur.integritySet < h.objects.length

/-- The label sets of an object are there. -/
def HeapObject.Built (h : LabelObjects) : HeapObject → Prop
  | .unlabeled => True
  | .labeled secrecyLabels integrityLabels =>
      secrecyLabels < h.objects.length ∧ integrityLabels < h.objects.length

namespace LabelObjects

variable {h : LabelObjects} {cur : RegionSets} {o : HeapObject}

/-- A region with given label sets. -/
private theorem exists_region (hwf : h.WellFormed) (hcur : cur.Built h) :
    ∃ th, h.RegionDenotes cur th ∧
      cur.labels h =
        ({ l | l ∈ th.currentSRState.secrecySet }, { l | l ∈ th.currentSRState.integritySet }) := by
  obtain ⟨S, hS⟩ := hwf.built _ hcur.1
  obtain ⟨I, hI⟩ := hwf.built _ hcur.2
  let th := GreenThread.new.modify fun s => { s with secrecySet := S, integritySet := I }
  refine ⟨th, ⟨hS, hI⟩, ?_⟩
  rw [RegionSets.labels, hS.elements_eq, hI.elements_eq]
  rfl

/-- The lists of an object's label sets. -/
private theorem exists_object (hwf : h.WellFormed) (ho : o.Built h) :
    ∃ obj S I, h.ObjectDenotes o obj ∧ obj.sets = some (S, I) ∧
      o.labels h = ({ l | l ∈ S }, { l | l ∈ I }) := by
  cases o with
  | unlabeled =>
      refine ⟨⟨false, none, none⟩, .empty, .empty, rfl, rfl, ?_⟩
      have hnone : { l | l ∈ LabelSet.empty } = ∅ :=
        Set.eq_empty_of_forall_notMem LabelSet.not_mem_empty
      rw [hnone]
      rfl
  | labeled secrecyLabels integrityLabels =>
      obtain ⟨S, hS⟩ := hwf.built _ ho.1
      obtain ⟨I, hI⟩ := hwf.built _ ho.2
      refine ⟨⟨true, some S, some I⟩, S, I, ⟨rfl, ⟨S, rfl, hS⟩, I, rfl, hI⟩, rfl, ?_⟩
      rw [HeapObject.labels, hS.elements_eq, hI.elements_eq]

/-- A read returns normally just when data may flow from the object to the region. -/
theorem WellFormed.readBarrier_iff (hwf : h.WellFormed) (hcur : cur.Built h) (ho : o.Built h) :
    h.readBarrierInsideSR cur o = .ok .returned ↔ LeadsTo (o.labels h) (cur.labels h) := by
  obtain ⟨th, hth, hlabels⟩ := exists_region hwf hcur
  obtain ⟨obj, S, I, hobj, hsets, holabels⟩ := exists_object hwf ho
  rw [readBarrierInsideSR_eq hth hobj, Except.ok.injEq,
    GreenThread.readBarrierInsideSR_eq_returned, hsets, hlabels, holabels]
  constructor
  · rintro ⟨S', I', heq, hallowed⟩
    obtain ⟨rfl, rfl⟩ := Prod.mk.inj (Option.some.inj heq)
    exact checkAllowed_iff.1 hallowed
  · exact fun hleads => ⟨S, I, rfl, checkAllowed_iff.2 hleads⟩

/-- A write returns normally just when data may flow from the region to the object. -/
theorem WellFormed.writeBarrier_iff (hwf : h.WellFormed) (hcur : cur.Built h) (ho : o.Built h) :
    h.writeBarrierInsideSR cur o = .ok .returned ↔ LeadsTo (cur.labels h) (o.labels h) := by
  obtain ⟨th, hth, hlabels⟩ := exists_region hwf hcur
  obtain ⟨obj, S, I, hobj, hsets, holabels⟩ := exists_object hwf ho
  rw [writeBarrierInsideSR_eq hth hobj, Except.ok.injEq,
    GreenThread.writeBarrierInsideSR_eq_returned, hsets, hlabels, holabels]
  constructor
  · rintro ⟨S', I', heq, hallowed⟩
    obtain ⟨rfl, rfl⟩ := Prod.mk.inj (Option.some.inj heq)
    exact checkAllowed_iff.1 hallowed
  · exact fun hleads => ⟨S, I, rfl, checkAllowed_iff.2 hleads⟩

end LabelObjects

/-! ## Accesses -/

/-- An access of a thread to an object. -/
inductive Access (T O : Type)
  | read (t : T) (o : O)
  | write (t : T) (o : O)

/-- What can hold data. -/
inductive DataHolder (T O : Type)
  | thread (t : T)
  | object (o : O)
deriving DecidableEq

section Accesses

variable {T O : Type} {h : LabelObjects} {region : T → RegionSets} {object : O → HeapObject}

/-- Where the data of each object may be at the start: in the object. -/
def ownData : DataHolder T O → Set O
  | .thread _ => ∅
  | .object o => {o}

/-- Does the barrier let the access through? -/
def passes (h : LabelObjects) (region : T → RegionSets) (object : O → HeapObject) :
    Access T O → Bool
  | .read t o => h.readBarrierInsideSR (region t) (object o) = .ok .returned
  | .write t o => h.writeBarrierInsideSR (region t) (object o) = .ok .returned

/-- Data moves with an access that its barrier lets through. -/
def moveData [DecidableEq T] [DecidableEq O] (h : LabelObjects) (region : T → RegionSets)
    (object : O → HeapObject) (data : DataHolder T O → Set O) (access : Access T O) :
    DataHolder T O → Set O :=
  if passes h region object access then
    match access with
    | .read t o => flow data (.object o) (.thread t)
    | .write t o => flow data (.thread t) (.object o)
  else data

/-- The labels of a holder. -/
def DataHolder.labels (h : LabelObjects) (region : T → RegionSets) (object : O → HeapObject) :
    DataHolder T O → Labels
  | .thread t => (region t).labels h
  | .object o => (object o).labels h

/-- The objects whose data a holder may have: those whose labels lead to its own. -/
def admitted (h : LabelObjects) (region : T → RegionSets) (object : O → HeapObject)
    (x : DataHolder T O) : Set O :=
  { a | LeadsTo ((object a).labels h) (x.labels h region object) }

theorem contained_ownData : Contained ownData (admitted h region object) := by
  intro x a ha
  cases x with
  | thread t => exact absurd ha (Set.notMem_empty a)
  | object o =>
      obtain rfl : a = o := ha
      exact LeadsTo.refl _

variable [DecidableEq T] [DecidableEq O]

/-- One access keeps data where the flow rule leads. -/
theorem contained_moveData (hwf : h.WellFormed) (hregion : ∀ t, (region t).Built h)
    (hobject : ∀ o, (object o).Built h) {data : DataHolder T O → Set O}
    (hdata : Contained data (admitted h region object)) (access : Access T O) :
    Contained (moveData h region object data access) (admitted h region object) := by
  have hflow : ∀ src dst : DataHolder T O,
      LeadsTo (src.labels h region object) (dst.labels h region object) →
      Contained (flow data src dst) (admitted h region object) :=
    fun src dst hleads => hdata.flow fun a ha => LeadsTo.trans ha hleads
  unfold moveData
  split
  · rename_i hpasses
    cases access with
    | read t o =>
        have hbarrier := of_decide_eq_true hpasses
        exact hflow _ _ ((hwf.readBarrier_iff (hregion t) (hobject o)).1 hbarrier)
    | write t o =>
        have hbarrier := of_decide_eq_true hpasses
        exact hflow _ _ ((hwf.writeBarrier_iff (hregion t) (hobject o)).1 hbarrier)
  · exact hdata

/-- So does a sequence of accesses. -/
theorem contained_foldl (hwf : h.WellFormed) (hregion : ∀ t, (region t).Built h)
    (hobject : ∀ o, (object o).Built h) (accesses : List (Access T O))
    {data : DataHolder T O → Set O} (hdata : Contained data (admitted h region object)) :
    Contained (accesses.foldl (moveData h region object) data) (admitted h region object) := by
  induction accesses generalizing data with
  | nil => exact hdata
  | cons access accesses ih => exact ih (contained_moveData hwf hregion hobject hdata access)

end Accesses

namespace LabelObjects

/-- The flow rule on objects: the barriers return normally just when it holds, and whatever the
accesses, data of an object gets to another one only if it holds between the two. -/
structure FlowRule (h : LabelObjects) : Prop where
  read : ∀ cur o, cur.Built h → o.Built h →
    (h.readBarrierInsideSR cur o = .ok .returned ↔ LeadsTo (o.labels h) (cur.labels h))
  write : ∀ cur o, cur.Built h → o.Built h →
    (h.writeBarrierInsideSR cur o = .ok .returned ↔ LeadsTo (cur.labels h) (o.labels h))
  accesses : ∀ {T O : Type} [DecidableEq T] [DecidableEq O] (region : T → RegionSets)
    (object : O → HeapObject), (∀ t, (region t).Built h) → (∀ o, (object o).Built h) →
    ∀ (accesses : List (Access T O)) (a b : O),
      a ∈ accesses.foldl (moveData h region object) ownData (.object b) →
      LeadsTo ((object a).labels h) ((object b).labels h)

/-- **The barriers inside a region enforce the flow rule.**  For label sets that any calls have
built, a read passes just when data may flow from the object to the region, a write just when it
may flow from the region to the object, and sequences of accesses add no other flow. -/
theorem barriers_flowRule {calls : List LabelSetCall} {h : LabelObjects}
    (hr : Run step (fun _ _ => True) boot calls h) : h.FlowRule := by
  have hwf := wellFormed_of_run hr
  refine ⟨fun cur o hcur ho => hwf.readBarrier_iff hcur ho,
    fun cur o hcur ho => hwf.writeBarrier_iff hcur ho, ?_⟩
  intro T O _ _ region object hregion hobject accesses a b hab
  exact contained_foldl hwf hregion hobject accesses contained_ownData (.object b) hab

/-- A thread with the secret `5` reads an unlabeled object and writes a secret one: the data gets
there.  The thread may not write the unlabeled object. -/
theorem barriers_flowRule_secret :
    let h : LabelObjects := ⟨[⟨[], 0⟩, ⟨[5], 1⟩]⟩
    let object : Bool → HeapObject := fun b => if b then .labeled 1 0 else .unlabeled
    Run step (fun _ _ => True) boot ([] ++ [LabelSetCall.getLabelSet 5]) h ∧ h.FlowRule ∧
      false ∈ [Access.read () false, .write () true].foldl (moveData h (fun _ => ⟨1, 0⟩) object)
        ownData (.object true) ∧
      h.writeBarrierInsideSR ⟨1, 0⟩ .unlabeled ≠ .ok .returned := by
  intro h object
  have hrun : Run step (fun _ _ => True) boot ([] ++ [LabelSetCall.getLabelSet 5]) h :=
    .snoc .nil trivial rfl
  have hread : passes h (fun _ => ⟨1, 0⟩) object (.read () false) = true := by decide +kernel
  have hwrite : passes h (fun _ => ⟨1, 0⟩) object (.write () true) = true := by decide +kernel
  refine ⟨hrun, barriers_flowRule hrun, ?_, by decide +kernel⟩
  rw [List.foldl_cons, List.foldl_cons, List.foldl_nil, moveData, if_pos hread, moveData,
    if_pos hwrite]
  simp [flow, ownData]

end LabelObjects

end Laminar.Vm
