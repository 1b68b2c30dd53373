import Mathlib.Algebra.Group.Nat.Defs
import Laminar.Vm.Difc

/-!
# The labeled space

A reference is a 32-bit address that stands `OBJECT_REF_OFFSET` bytes behind the header of its
object.  Labeled objects are allocated in a space of their own, whose bounds
`MemoryManager.isLabeled` moves by that offset before it compares a reference with them.  The
barriers for code outside secure regions compare the reference with the bounds as they are.
-/

namespace Laminar.Vm

/-! ## Checks that throw -/

theorem throwIf_else_eq_returned {c : Prop} [Decidable c] {message : String} {rest : Outcome} :
    (if c then Outcome.difcException message else rest) = .returned ↔
      ¬ c ∧ rest = .returned := by
  by_cases h : c
  · rw [if_pos h]
    exact iff_of_false (fun heq => by cases heq) fun hrest => hrest.1 h
  · rw [if_neg h]
    exact (and_iff_right h).symm

theorem throwIf_eq_returned {c : Prop} [Decidable c] {message : String} :
    (if c then Outcome.difcException message else .returned) = .returned ↔ ¬ c := by
  rw [throwIf_else_eq_returned]
  exact and_iff_left rfl

abbrev Address := BitVec 32

/-! ## Object headers -/

/-- `JAVA_HEADER_BYTES`. -/
def javaHeaderBytes : Nat := 8

/-- `ARRAY_LENGTH_BYTES`. -/
def arrayLengthBytes : Nat := 4

/-- The two label slots in front of the header of a labeled object. -/
def labelBytes : Nat := 8

/-- `BYTES_IN_PAGE`. -/
def bytesInPage : Nat := 4096

-- what the collector and the build options put into a header
variable (otherHeaderBytes : Nat)

/-- `SCALAR_HEADER_SIZE`. -/
def scalarHeaderSize : Nat := javaHeaderBytes + otherHeaderBytes

/-- `ARRAY_HEADER_SIZE`. -/
def arrayHeaderSize : Nat := scalarHeaderSize otherHeaderBytes + arrayLengthBytes

/-- `OBJECT_REF_OFFSET`, from the start of an object to its reference. -/
def objectRefOffset : Nat := arrayHeaderSize otherHeaderBytes

theorem objectRefOffset_eq : objectRefOffset otherHeaderBytes = otherHeaderBytes + 12 := by
  simp only [objectRefOffset, arrayHeaderSize, scalarHeaderSize, javaHeaderBytes,
    arrayLengthBytes]
  omega

/-- `minimumObjectRef`. -/
def minimumObjectRef (regionBaseAddr : Address) : Address :=
  regionBaseAddr + BitVec.ofNat 32 (objectRefOffset otherHeaderBytes)

/-! ## The labeled space -/

/-- A space of whole pages that does not wrap around. -/
structure Space where
  start : Address
  extent : BitVec 32
  start_aligned : bytesInPage ∣ start.toNat
  extent_aligned : bytesInPage ∣ extent.toNat
  no_wrap : start.toNat + extent.toNat ≤ 2 ^ 32

namespace Space

variable (labeledSpace : Space)

/-- The first address behind the space. -/
def limit : Nat := labeledSpace.start.toNat + labeledSpace.extent.toNat

/-- `labeledStart`. -/
def labeledStart : BitVec 32 := labeledSpace.start

/-- `labeledExtent`. -/
def labeledExtent : BitVec 32 := labeledSpace.extent

/-- `MemoryManager.isLabeled` of an address. -/
def isLabeledAddress (address : Address) : Bool :=
  (address - labeledSpace.start).ult labeledSpace.extent

/-- `MemoryManager.isLabeled` of an object, given by its reference. -/
def isLabeled (obj : Address) : Bool :=
  (obj - minimumObjectRef otherHeaderBytes labeledSpace.start).ult labeledSpace.extent

/-- What the barriers outside a region do with a reference. -/
def accessOutsideSR (obj : Address) : Outcome :=
  if (obj - labeledSpace.labeledStart).ult labeledSpace.labeledExtent then
    .difcException "Labeled/Poisoned object accessed outside secure region"
  else .returned

/-- `readBarrierOutsideSR`. -/
def readBarrierOutsideSR (obj : Address) : Outcome := labeledSpace.accessOutsideSR obj

/-- `writeBarrierOutsideSR`. -/
def writeBarrierOutsideSR (obj : Address) : Outcome := labeledSpace.accessOutsideSR obj

/-- The address lies in the space. -/
def Has (address : Nat) : Prop :=
  labeledSpace.start.toNat ≤ address ∧ address < labeledSpace.limit

/-- One unsigned comparison of the distance tests both bounds. -/
theorem isLabeledAddress_iff (address : Address) :
    labeledSpace.isLabeledAddress address = true ↔ labeledSpace.Has address.toNat := by
  have hwrap := labeledSpace.no_wrap
  have haddress := address.isLt
  rw [isLabeledAddress, BitVec.ult_eq_decide, decide_eq_true_eq, BitVec.toNat_sub, Has, limit]
  omega

/-- The distance of a reference to the moved bound is that of the header to the bound. -/
theorem isLabeled_eq (obj : Address) :
    labeledSpace.isLabeled otherHeaderBytes obj = labeledSpace.isLabeledAddress
      (obj - BitVec.ofNat 32 (objectRefOffset otherHeaderBytes)) := by
  have hsub : obj - minimumObjectRef otherHeaderBytes labeledSpace.start =
      obj - BitVec.ofNat 32 (objectRefOffset otherHeaderBytes) - labeledSpace.start := by
    rw [minimumObjectRef]
    bv_omega
  rw [isLabeled, isLabeledAddress, hsub]

theorem accessOutsideSR_eq (obj : Address) :
    labeledSpace.accessOutsideSR obj =
      if labeledSpace.isLabeledAddress obj then
        .difcException "Labeled/Poisoned object accessed outside secure region"
      else .returned :=
  rfl

theorem accessOutsideSR_eq_returned (obj : Address) :
    labeledSpace.accessOutsideSR obj = .returned ↔ ¬ labeledSpace.Has obj.toNat := by
  rw [← isLabeledAddress_iff, accessOutsideSR_eq, throwIf_eq_returned, Bool.not_eq_true]

theorem accessOutsideSR_throws_iff (obj : Address) :
    (∃ message, labeledSpace.accessOutsideSR obj = .difcException message) ↔
      labeledSpace.Has obj.toNat := by
  rw [← isLabeledAddress_iff, accessOutsideSR_eq]
  cases labeledSpace.isLabeledAddress obj with
  | false => simp
  | true => simp

end Space

/-- One page. -/
def onePage : Space where
  start := 0x10000000
  extent := 0x1000
  start_aligned := by decide
  extent_aligned := by decide
  no_wrap := by decide

end Laminar.Vm
