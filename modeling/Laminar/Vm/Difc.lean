import Laminar.Vm.LabelSet

/-!
# Secure regions of a thread

The calls of class `DIFC` that work on the secure-region states of a green thread.
The `SRState`s of a thread form one doubly linked chain, from the state of the
thread itself to the deepest region ever entered, and `currentSRState` points into
it.  The chain is modelled around that pointer: the states before it, nearest
first, and the states after it, which later regions use again.  An `SRState` has a
number that stands for the identity of the object.

A call returns or throws, and the state it leaves is given in both cases.  The
label the operating system returns to `createCapability` is an argument of the
call.  Assertions are off, and an argument that may be `null` is an `Option`.
-/

namespace Laminar.Vm

/-! ## State -/

/-- `SRState`. -/
structure SRState where
  id : Nat
  secrecySet : LabelSet
  integritySet : LabelSet
  plusCapabilitySet : LabelSet
  minusCapabilitySet : LabelSet
  restoreLabels : Bool
  secrecyAllocLabels : Option LabelSet
  integrityAllocLabels : Option LabelSet
deriving DecidableEq

/-- `setState`. -/
def SRState.setState (s : SRState)
    (plusCapabilitySet minusCapabilitySet secrecySet integritySet : LabelSet)
    (restore : Bool) (secrecyAllocLabel integrityAllocLabel : Option LabelSet) : SRState where
  id := s.id
  secrecySet := secrecySet
  integritySet := integritySet
  plusCapabilitySet := plusCapabilitySet
  minusCapabilitySet := minusCapabilitySet
  restoreLabels := restore
  secrecyAllocLabels := secrecyAllocLabel
  integrityAllocLabels := integrityAllocLabel

/-- `clearState`. -/
def SRState.clearState (s : SRState) : SRState :=
  s.setState .empty .empty .empty .empty false none none

/-- A new `SRState`, before its constructor sets the fields. -/
def SRState.allocate (id : Nat) : SRState := ⟨id, .empty, .empty, .empty, .empty, false, none, none⟩

/-- The two kinds of labels of a region. -/
inductive LabelKind
  | secrecy
  | integrity

/-- `secrecySet` or `integritySet`. -/
def SRState.set (s : SRState) : LabelKind → LabelSet
  | .secrecy => s.secrecySet
  | .integrity => s.integritySet

/-- Assign `secrecySet` or `integritySet`. -/
def SRState.assign (s : SRState) : LabelKind → LabelSet → SRState
  | .secrecy, labels => { s with secrecySet := labels }
  | .integrity, labels => { s with integritySet := labels }

/-- The fields of `GreenThread` for secure regions, with the two static ones, which
all threads share. -/
structure GreenThread where
  currentSRState : SRState
  parents : List SRState
  children : List SRState
  inSecureRegion : Bool
  nextId : Nat
  commonPlusCapabilitySet : LabelSet
  commonMinusCapabilitySet : LabelSet
deriving DecidableEq

/-- How a call ends. -/
inductive Outcome
  | returned
  | returnedLabel (label : Label)
  | difcException (message : String)
  | nullPointerException
deriving DecidableEq

namespace GreenThread

/-- A new thread: no labels, no capabilities, `EMPTY` allocation labels. -/
def new : GreenThread where
  currentSRState := { SRState.allocate 0 with
    secrecyAllocLabels := some .empty, integrityAllocLabels := some .empty }
  parents := []
  children := []
  inSecureRegion := false
  nextId := 1
  commonPlusCapabilitySet := .empty
  commonMinusCapabilitySet := .empty

/-- Change the current state. -/
def modify (th : GreenThread) (f : SRState → SRState) : GreenThread :=
  { th with currentSRState := f th.currentSRState }

/-! ## Entering and leaving -/

/-- Move to the child of the current state, the old one if there is one, and fill
it. -/
def enterChild (th : GreenThread) (fill : SRState → SRState) : GreenThread :=
  match th.children with
  | child :: rest =>
      { th with
        currentSRState := fill child
        parents := th.currentSRState :: th.parents
        children := rest }
  | [] =>
      { th with
        currentSRState := fill (SRState.allocate th.nextId)
        parents := th.currentSRState :: th.parents
        nextId := th.nextId + 1 }

/-- The plus capabilities that count for a start: outside every region also the
common ones. -/
def plusCap (th : GreenThread) : LabelSet :=
  if th.inSecureRegion then th.currentSRState.plusCapabilitySet
  else .union th.currentSRState.plusCapabilitySet th.commonPlusCapabilitySet

/-- The minus capabilities that count for a start. -/
def minusCap (th : GreenThread) : LabelSet :=
  if th.inSecureRegion then th.currentSRState.minusCapabilitySet
  else .union th.currentSRState.minusCapabilitySet th.commonMinusCapabilitySet

/-- The checks of `startSecureRegionHelper`: the message of the first that fails. -/
def startError (th : GreenThread)
    (plusCapabilitySet minusCapabilitySet secrecySet integritySet : LabelSet) :
    Option String :=
  let cur := th.currentSRState
  if !secrecySet.checkInUnion th.plusCap cur.secrecySet then
    some "Parent does not have the capability or label to add the secrecy label"
  else if !cur.secrecySet.checkInUnion th.minusCap secrecySet then
    some "Parent does not have the capability to remove the secrecy label"
  else if !integritySet.checkInUnion th.plusCap cur.integritySet then
    some "Parent does not have the capability or label to add the integrity label"
  else if !cur.integritySet.checkInUnion th.minusCap integritySet then
    some "Parent does not have the capability to remove the integrity label"
  else if !plusCapabilitySet.isSubsetOf th.plusCap then
    some "Parent does not have the capability to add the plus capability"
  else if !minusCapabilitySet.isSubsetOf th.minusCap then
    some "Parent does not have the capability to add the minus capability"
  else none

/-- `throwStartError`: the dummy child gets empty labels.  `inSecureRegion` is left
alone. -/
def throwStartError (th : GreenThread) (error : String) : Outcome × GreenThread :=
  (.difcException error, th.enterChild SRState.clearState)

/-- `startSecureRegionHelper`. -/
def startSecureRegionHelper (th : GreenThread)
    (plusCapabilitySet minusCapabilitySet secrecySet integritySet : LabelSet) :
    Outcome × GreenThread :=
  match th.startError plusCapabilitySet minusCapabilitySet secrecySet integritySet with
  | some error => th.throwStartError error
  | none =>
      (.returned,
        { th.enterChild fun child =>
            child.setState plusCapabilitySet minusCapabilitySet secrecySet integritySet false
              none none with
          inSecureRegion := true })

/-- `null` stands for `EMPTY`. -/
def orEmpty (labels : Option LabelSet) : LabelSet := labels.getD .empty

/-- `startSecureRegion`. -/
def startSecureRegion (th : GreenThread) (secrecySet integritySet : Option LabelSet) :
    Outcome × GreenThread :=
  th.startSecureRegionHelper .empty .empty (orEmpty secrecySet) (orEmpty integritySet)

/-- `startSecureRegionDecEnd`. -/
def startSecureRegionDecEnd (th : GreenThread)
    (secrecySet integritySet plusCapabilitySet minusCapabilitySet : Option LabelSet) :
    Outcome × GreenThread :=
  th.startSecureRegionHelper (orEmpty plusCapabilitySet) (orEmpty minusCapabilitySet)
    (orEmpty secrecySet) (orEmpty integritySet)

/-- `endSecureRegion`.  The system call that clears the labels of the task when
`restoreLabels` is set does not touch this state. -/
def endSecureRegion (th : GreenThread) : Outcome × GreenThread :=
  if !th.inSecureRegion then (.returned, th)
  else match th.parents with
    | [] => (.nullPointerException, th)
    | parent :: above =>
        (.returned,
          { th with
            currentSRState := parent
            parents := above
            children := th.currentSRState :: th.children
            inSecureRegion := !above.isEmpty })

/-! ## Labels -/

/-- `addSecrecyLabel` and `addIntegrityLabel`, with their messages. -/
def addLabel (kind : LabelKind) (lacks outside : String) (th : GreenThread) :
    Option LabelSet → Outcome × GreenThread
  | none => (.returned, th)
  | some label =>
      if th.inSecureRegion then
        if !label.isSubsetOf th.currentSRState.plusCapabilitySet then
          (.difcException lacks, th)
        else
          (.returned, th.modify fun cur => cur.assign kind (.union (cur.set kind) label))
      else (.difcException outside, th)

/-- `addSecrecyLabel`. -/
def addSecrecyLabel : GreenThread → Option LabelSet → Outcome × GreenThread :=
  addLabel .secrecy "Lacks capability to add secrecy label"
    "Cannot add secrecy label outside SR"

/-- `addIntegrityLabel`. -/
def addIntegrityLabel : GreenThread → Option LabelSet → Outcome × GreenThread :=
  addLabel .integrity "Lacks capability to add integrity label"
    "Cannot add integrity label outside SR"

/-- `removeSecrecyLabel` and `removeIntegrityLabel`, with their message. -/
def removeLabel (kind : LabelKind) (message : String) (th : GreenThread)
    (label : Option LabelSet) : Outcome × GreenThread :=
  if th.inSecureRegion then
    match label with
    | none => (.nullPointerException, th)
    | some label =>
        if label.isSubsetOf th.currentSRState.minusCapabilitySet then
          (.returned, th.modify fun cur => cur.assign kind (.minus (cur.set kind) label))
        else (.difcException message, th)
  else (.difcException message, th)

/-- `removeSecrecyLabel`. -/
def removeSecrecyLabel : GreenThread → Option LabelSet → Outcome × GreenThread :=
  removeLabel .secrecy "Cannot remove secrecy label"

/-- `removeIntegrityLabel`. -/
def removeIntegrityLabel : GreenThread → Option LabelSet → Outcome × GreenThread :=
  removeLabel .integrity "Cannot remove integrity label"

/-! ## Capabilities -/

/-- `PLUS_CAPABILITY`, `MINUS_CAPABILITY`, `BOTH_CAPABILITY`. -/
def plusCapability : Int := 0
def minusCapability : Int := 1
def bothCapability : Int := 2

/-- `REGION_SELF`, `REGION_GROUP`, `REGION_NONE`. -/
def regionSelf : Int := 3
def regionGroup : Int := 4
def regionNone : Int := 5

/-- One of the three types. -/
def validType (type : Int) : Bool :=
  type = plusCapability || type = minusCapability || type = bothCapability

/-- `type==PLUS_CAPABILITY || type==BOTH_CAPABILITY`. -/
def hasPlus (type : Int) : Bool := type = plusCapability || type = bothCapability

/-- `type==MINUS_CAPABILITY || type==BOTH_CAPABILITY`. -/
def hasMinus (type : Int) : Bool := type = minusCapability || type = bothCapability

/-- `LabelSet.minus` with an argument that may be `null`, which only an `EMPTY` set
does not follow. -/
def minusOrNull (l1 : LabelSet) : Option LabelSet → Option LabelSet
  | none => if l1 = .empty then some l1 else none
  | some l2 => some (.minus l1 l2)

/-- The same, if it applies. -/
def minusIf (cond : Bool) (l1 : LabelSet) (l2 : Option LabelSet) : Option LabelSet :=
  if cond then minusOrNull l1 l2 else some l1

/-- Remove labels from the capability sets of a state; `none` if `null` was
followed. -/
def dropFrom (s : SRState) (label : Option LabelSet) (type : Int) : Option SRState := do
  let plus ← minusIf (hasPlus type) s.plusCapabilitySet label
  let minus ← minusIf (hasMinus type) s.minusCapabilitySet label
  return { s with plusCapabilitySet := plus, minusCapabilitySet := minus }

/-- `dropCapability`.  When `null` is followed nothing has changed yet. -/
def dropCapability (th : GreenThread) (label : Option LabelSet) (type : Int) :
    Outcome × GreenThread :=
  if !validType type then (.difcException "Wrong type of capability", th)
  else match dropFrom th.currentSRState label type with
    | none => (.nullPointerException, th)
    | some cur => (.returned, { th with currentSRState := cur })

/-- The part of `dropThreadCapability` inside a region: the parent's sets. -/
def dropFromParent (th : GreenThread) (label : Option LabelSet) (type : Int) :
    Outcome × GreenThread :=
  match th.parents with
  | [] => (.nullPointerException, th)
  | parent :: above =>
      match dropFrom parent label type with
      | none => (.nullPointerException, th)
      | some parent => (.returned, { th with parents := parent :: above })

/-- `dropThreadCapability`. -/
def dropThreadCapability (th : GreenThread) (label : Option LabelSet) (type : Int) :
    Outcome × GreenThread :=
  if th.currentSRState.secrecySet ≠ .empty then
    (.difcException "Attempt to write capability set in secret SR.", th)
  else match th.dropCapability label type with
    | (.returned, th) =>
        if th.inSecureRegion then th.dropFromParent label type else (.returned, th)
    | thrown => thrown

/-- The sets of a state with one more capability. -/
def addTo (s : SRState) (type : Int) (label : Label) : SRState :=
  { s with
    plusCapabilitySet :=
      if hasPlus type then .unionLabel s.plusCapabilitySet label else s.plusCapabilitySet
    minusCapabilitySet :=
      if hasMinus type then .unionLabel s.minusCapabilitySet label else s.minusCapabilitySet }

/-- `addThreadCapability` with `current` false: the parent's sets. -/
def addToParent (th : GreenThread) (type : Int) (label : Label) : Option GreenThread :=
  match th.parents with
  | [] => none
  | parent :: above => some { th with parents := addTo parent type label :: above }

/-- The common sets with one more capability. -/
def addCommon (th : GreenThread) (type : Int) (label : Label) : GreenThread :=
  { th with
    commonPlusCapabilitySet :=
      if hasPlus type then .unionLabel th.commonPlusCapabilitySet label
      else th.commonPlusCapabilitySet
    commonMinusCapabilitySet :=
      if hasMinus type then .unionLabel th.commonMinusCapabilitySet label
      else th.commonMinusCapabilitySet }

/-- `createCapability`; `osLabel` is what `OScreateLabel` returns. -/
def createCapability (th : GreenThread) (type region : Int) (osLabel : Label) :
    Outcome × GreenThread :=
  if th.currentSRState.secrecySet ≠ .empty then
    (.difcException "Attempt to write capability set in secret SR.", th)
  else if !validType type then (.difcException "Wrong type of capability", th)
  else if osLabel ≤ 0 then
    (.difcException ("OS capability creation failed: " ++ toString osLabel), th)
  else
    let th := th.modify (addTo · type osLabel)
    let self := if th.inSecureRegion && region = regionSelf then th.addToParent type osLabel
      else some th
    match self with
    | none => (.nullPointerException, th)
    | some th =>
        (.returnedLabel osLabel, if region = regionGroup then th.addCommon type osLabel else th)

/-- `initializeThreadCapability`. -/
def initializeThreadCapability (th : GreenThread) (capability : LabelSet) (type : Int) :
    Outcome × GreenThread :=
  if !th.inSecureRegion then
    (.returned, th.modify fun cur =>
      { cur with
        plusCapabilitySet := if hasPlus type then capability else cur.plusCapabilitySet
        minusCapabilitySet := if hasMinus type then capability else cur.minusCapabilitySet })
  else
    (.difcException ("Capabilities to the thread should be given only once, " ++
      "at initialization and outside a secure-region"), th)

/-! ## Allocation labels -/

/-- `setAllocationLabelsInternal`. -/
def setAllocationLabelsInternal (th : GreenThread) (sSet iSet : Option LabelSet) : GreenThread :=
  th.modify fun cur => { cur with secrecyAllocLabels := sSet, integrityAllocLabels := iSet }

/-- `setAllocationLabels`. -/
def setAllocationLabels (th : GreenThread) (sSet iSet : Option LabelSet) :
    Outcome × GreenThread :=
  (.returned, th.setAllocationLabelsInternal sSet iSet)

/-- `resetAllocationLabels`. -/
def resetAllocationLabels (th : GreenThread) : Outcome × GreenThread :=
  (.returned, th.setAllocationLabelsInternal none none)

/-- `OSpassCurrentLabels` after boot; `err` is what the system call returns. -/
def osPassCurrentLabels (th : GreenThread) (err : Int) : Outcome × GreenThread :=
  (.returned,
    if th.inSecureRegion && err ≥ 0 then th.modify fun cur => { cur with restoreLabels := true }
    else th)

end GreenThread

/-! ## Calls -/

/-- Where a region starts, with its arguments. -/
inductive Start
  | startSecureRegion (secrecySet integritySet : Option LabelSet)
  | startSecureRegionDecEnd
      (secrecySet integritySet plusCapabilitySet minusCapabilitySet : Option LabelSet)

/-- The calls that neither start nor end a region. -/
inductive LabelCall
  | addSecrecyLabel (label : Option LabelSet)
  | addIntegrityLabel (label : Option LabelSet)
  | removeSecrecyLabel (label : Option LabelSet)
  | removeIntegrityLabel (label : Option LabelSet)
  | dropCapability (label : Option LabelSet) (type : Int)
  | dropThreadCapability (label : Option LabelSet) (type : Int)
  | createCapability (type region : Int) (osLabel : Label)
  | initializeThreadCapability (capability : LabelSet) (type : Int)
  | setAllocationLabels (sSet iSet : Option LabelSet)
  | resetAllocationLabels
  | osPassCurrentLabels (err : Int)

namespace GreenThread

/-- Start a region. -/
def start (th : GreenThread) : Start → Outcome × GreenThread
  | .startSecureRegion secrecySet integritySet => th.startSecureRegion secrecySet integritySet
  | .startSecureRegionDecEnd secrecySet integritySet plusCapabilitySet minusCapabilitySet =>
      th.startSecureRegionDecEnd secrecySet integritySet plusCapabilitySet minusCapabilitySet

/-- Make a call that neither starts nor ends a region. -/
def labelCall (th : GreenThread) : LabelCall → Outcome × GreenThread
  | .addSecrecyLabel label => th.addSecrecyLabel label
  | .addIntegrityLabel label => th.addIntegrityLabel label
  | .removeSecrecyLabel label => th.removeSecrecyLabel label
  | .removeIntegrityLabel label => th.removeIntegrityLabel label
  | .dropCapability label type => th.dropCapability label type
  | .dropThreadCapability label type => th.dropThreadCapability label type
  | .createCapability type region osLabel => th.createCapability type region osLabel
  | .initializeThreadCapability capability type => th.initializeThreadCapability capability type
  | .setAllocationLabels sSet iSet => th.setAllocationLabels sSet iSet
  | .resetAllocationLabels => th.resetAllocationLabels
  | .osPassCurrentLabels err => th.osPassCurrentLabels err

end GreenThread

end Laminar.Vm
