import Laminar.Vm.NewObjects
import Laminar.Vm.Placement

/-!
# Cells for labeled objects

Labeled objects live in a space of segregated free lists.  A request is rounded up to a size
class, and the free list of the class hands out cells of one size.  There are classes for up to
`MAX_CELL_SIZE` bytes; the allocators that share this scheme never see a larger request, since
`MutatorContext.checkAllocator` sends large objects to the large object space.  It does not do
so for `ALLOC_LABELED`, and the label slots are added after its check.

A Java `int` is an integer that wraps around at 32 bits.  The build may have addresses of 32 or
64 bits, and either table of size classes.
-/

namespace Laminar.Mm

open Laminar.Vm

/-! ## Arithmetic on `int` -/

/-- The value that an `int` keeps of an integer. -/
def toInt (n : Int) : Int := (n + 2147483648) % 4294967296 - 2147483648

theorem le_toInt (n : Int) : -2147483648 ≤ toInt n := by
  unfold toInt
  omega

theorem toInt_lt (n : Int) : toInt n < 2147483648 := by
  unfold toInt
  omega

theorem toInt_of_lt {n : Int} (h : 0 ≤ n) (hlt : n < 2147483648) : toInt n = n := by
  unfold toInt
  omega

/-- `>>`. -/
def shiftRight (n : Int) (k : Nat) : Int := n >>> k

theorem shiftRight_eq (n : Int) (k : Nat) : shiftRight n k = n / (2 ^ k : Nat) :=
  Int.shiftRight_eq_div_pow n k

/-- `<<`. -/
def shiftLeft (n : Int) (k : Nat) : Int := toInt (n <<< k)

/-! ## Requests -/

/-- `MIN_ALIGNMENT`. -/
def minAlignment : Int := 4

/-- `MAX_ALIGNMENT`. -/
def maxAlignment (buildForIA32 : Bool) : Int := if buildForIA32 then 16 else 8

/-- `MAX_CELL_SIZE`. -/
def maxCellSize : Int := 8192

/-- `LOS_SIZE_THRESHOLD`. -/
def losSizeThreshold : Int := maxCellSize

/-- `Memory.alignUp`; alignments are powers of two. -/
def alignUp (address alignment : Int) : Int :=
  toInt (address + alignment - 1) - toInt (address + alignment - 1) % alignment

/-- `getMaximumAlignedSize`. -/
def getMaximumAlignedSize (buildForIA32 : Bool) (size alignment : Int) : Int :=
  if maxAlignment buildForIA32 ≤ minAlignment ∨ alignment ≤ minAlignment then size
  else toInt (size + alignment - minAlignment)

/-- The allocators of `Plan`. -/
inductive Allocator
  | default
  | nonReference
  | nonMoving
  | immortal
  | los
  | primitiveLos
  | gcspy
  | code
  | largeCode
  | labeled
deriving DecidableEq

/-- `checkAllocator`; the plans have a code space. -/
def checkAllocator (buildForIA32 : Bool) (bytes align : Int) (allocator : Allocator) : Allocator :=
  let large := losSizeThreshold < getMaximumAlignedSize buildForIA32 bytes align
  match allocator with
  | .default => if large then .los else .default
  | .code => if large then .largeCode else .code
  | .nonReference => if large then .primitiveLos else .default
  | .nonMoving => if large then .los else .nonMoving
  | allocator => allocator

/-- The allocator that `allocateScalar` and `allocateArray` use. -/
def selectAllocator (th : GreenThread) (config : AllocConfig) (site : Int) (buildForIA32 : Bool)
    (size align : Int) (allocator : Allocator) : Allocator :=
  checkAllocator buildForIA32 (alignUp size minAlignment) align
    (if th.allocLabeled config site then .labeled else allocator)

/-! ## Size classes -/

/-- The width of addresses, and which table of size classes is used. -/
structure SizeConfig where
  bytesInAddress4 : Bool
  compactSizeClasses : Bool

/-- `getSizeClass`. -/
def getSizeClass (sizes : SizeConfig) (bytes : Int) : Int :=
  let sz1 := toInt (bytes - 1)
  if sizes.bytesInAddress4 then
    if sizes.compactSizeClasses then
      if sz1 ≤ 31 then shiftRight sz1 2
      else if sz1 ≤ 63 then 4 + shiftRight sz1 3
      else if sz1 ≤ 95 then 8 + shiftRight sz1 4
      else if sz1 ≤ 223 then 14 + shiftRight sz1 6
      else if sz1 ≤ 734 then 17 + shiftRight sz1 8
      else 20 + shiftRight sz1 10
    else
      if sz1 ≤ 63 then shiftRight sz1 2
      else if sz1 ≤ 127 then 12 + shiftRight sz1 4
      else if sz1 ≤ 255 then 16 + shiftRight sz1 5
      else if sz1 ≤ 511 then 20 + shiftRight sz1 6
      else if sz1 ≤ 2047 then 26 + shiftRight sz1 8
      else 32 + shiftRight sz1 10
  else
    if sizes.compactSizeClasses then
      if sz1 ≤ 95 then shiftRight sz1 3
      else if sz1 ≤ 127 then 6 + shiftRight sz1 4
      else if sz1 ≤ 191 then 10 + shiftRight sz1 5
      else if sz1 ≤ 383 then 13 + shiftRight sz1 6
      else if sz1 ≤ 511 then 16 + shiftRight sz1 7
      else if sz1 ≤ 1023 then 19 + shiftRight sz1 9
      else 20 + shiftRight sz1 10
    else
      if sz1 ≤ 111 then shiftRight sz1 3
      else if sz1 ≤ 223 then 7 + shiftRight sz1 4
      else if sz1 ≤ 319 then 14 + shiftRight sz1 5
      else if sz1 ≤ 575 then 19 + shiftRight sz1 6
      else if sz1 ≤ 2047 then 26 + shiftRight sz1 8
      else 32 + shiftRight sz1 10

/-- `getBaseCellSize`. -/
def getBaseCellSize (sizes : SizeConfig) (sc : Int) : Int :=
  if sizes.bytesInAddress4 then
    if sizes.compactSizeClasses then
      if sc < 8 then shiftLeft (sc + 1) 2
      else if sc < 12 then shiftLeft (sc - 3) 3
      else if sc < 16 then shiftLeft (sc - 7) 4
      else if sc < 18 then shiftLeft (sc - 13) 6
      else if sc < 21 then shiftLeft (sc - 16) 8
      else shiftLeft (sc - 19) 10
    else
      if sc < 16 then shiftLeft (sc + 1) 2
      else if sc < 20 then shiftLeft (sc - 11) 4
      else if sc < 24 then shiftLeft (sc - 15) 5
      else if sc < 28 then shiftLeft (sc - 19) 6
      else if sc < 34 then shiftLeft (sc - 25) 8
      else shiftLeft (sc - 31) 10
  else
    if sizes.compactSizeClasses then
      if sc < 12 then shiftLeft (sc + 1) 3
      else if sc < 14 then shiftLeft (sc - 5) 4
      else if sc < 16 then shiftLeft (sc - 9) 5
      else if sc < 19 then shiftLeft (sc - 12) 6
      else if sc < 20 then shiftLeft (sc - 15) 7
      else if sc < 21 then shiftLeft (sc - 18) 9
      else shiftLeft (sc - 19) 10
    else
      if sc < 14 then shiftLeft (sc + 1) 3
      else if sc < 21 then shiftLeft (sc - 6) 4
      else if sc < 24 then shiftLeft (sc - 13) 5
      else if sc < 28 then shiftLeft (sc - 18) 6
      else if sc < 34 then shiftLeft (sc - 25) 8
      else shiftLeft (sc - 31) 10

/-- `sizeClassCount`. -/
def sizeClassCount (sizes : SizeConfig) : Int := if sizes.compactSizeClasses then 28 else 40

/-- The free list of the class exists, and its cells hold the bytes. -/
def Fits (sizes : SizeConfig) (sc bytes : Int) : Prop :=
  0 ≤ sc ∧ sc < sizeClassCount sizes ∧ bytes ≤ getBaseCellSize sizes sc

private theorem ite_elim {P : Int → Prop} {c : Prop} {_ : Decidable c} {m n : Int}
    (hpos : c → P m) (hneg : ¬ c → P n) : P (if c then m else n) := by
  by_cases hc : c
  · rw [if_pos hc]
    exact hpos hc
  · rw [if_neg hc]
    exact hneg hc

private theorem le_shiftLeft {bytes n : Int} {k : Nat} (hpos : 0 < bytes) (hle : bytes ≤ n <<< k)
    (hlt : n <<< k < 2147483648) : bytes ≤ shiftLeft n k := by
  rw [shiftLeft, toInt_of_lt (by omega) hlt]
  exact hle

instance (sizes : SizeConfig) (sc bytes : Int) : Decidable (Fits sizes sc bytes) :=
  inferInstanceAs (Decidable (_ ∧ _ ∧ _))

/-- Up to `MAX_CELL_SIZE` bytes fit the cells of their size class. -/
theorem fits_getSizeClass (sizes : SizeConfig) {bytes : Int} (hpos : 0 < bytes)
    (hmax : bytes ≤ maxCellSize) : Fits sizes (getSizeClass sizes bytes) bytes := by
  obtain ⟨bytesInAddress4, compactSizeClasses⟩ := sizes
  have hmax' : bytes ≤ 8192 := hmax
  have hsz1 : toInt (bytes - 1) = bytes - 1 := toInt_of_lt (by omega) (by omega)
  cases bytesInAddress4 <;> cases compactSizeClasses
  all_goals
    simp only [getSizeClass, hsz1, shiftRight_eq, Nat.reducePow, Int.cast_ofNat_Int,
      Bool.false_eq_true, ↓reduceIte]
    -- one goal for each row of the table of classes, with only what its arithmetic needs
    clear hsz1 hmax
    repeat' with_reducible
      refine ite_elim (P := fun sc => Fits _ sc bytes) (fun _ => ?_) (fun _ => ?_)
    all_goals
      simp only [Fits, getBaseCellSize, sizeClassCount, Bool.false_eq_true, ↓reduceIte]
      refine ⟨by omega, by omega, ?_⟩
      simp (disch := omega) only [if_pos, if_neg]
      repeat' with_reducible
        refine ite_elim (P := fun size => bytes ≤ size) (fun _ => ?_) (fun _ => ?_)
      all_goals
        refine le_shiftLeft hpos ?_ ?_ <;> rw [Int.shiftLeft_eq'] <;> omega

/-- A size class of more bytes, or of a sum that overflowed, does not exist. -/
theorem getSizeClass_out_of_range (sizes : SizeConfig) {bytes : Int} (hmin : -2147483648 ≤ bytes)
    (hlt : bytes < 2147483648) (hbytes : bytes ≤ 0 ∨ maxCellSize < bytes) :
    getSizeClass sizes bytes < 0 ∨ sizeClassCount sizes ≤ getSizeClass sizes bytes := by
  obtain ⟨bytesInAddress4, compactSizeClasses⟩ := sizes
  have hbytes' : bytes ≤ 0 ∨ 8192 < bytes := hbytes
  have hsz1 : toInt (bytes - 1) < 0 ∨ 8192 ≤ toInt (bytes - 1) := by
    unfold toInt
    omega
  generalize hname : toInt (bytes - 1) = sz1 at hsz1
  cases bytesInAddress4 <;> cases compactSizeClasses
  all_goals
    simp only [getSizeClass, sizeClassCount, hname, shiftRight_eq, Nat.reducePow,
      Int.cast_ofNat_Int, Bool.false_eq_true, ↓reduceIte]
    clear hname hbytes hbytes' hmin hlt
    repeat' with_reducible
      refine ite_elim (P := fun sc => sc < 0 ∨ _ ≤ sc) (fun _ => ?_) (fun _ => ?_)
    all_goals omega

/-! ## Labeled requests -/

/-- The size class for which `SegregatedFreeList.alloc` takes the head of the free list. -/
def allocSizeClass (sizes : SizeConfig) (buildForIA32 : Bool) (bytes align : Int) : Int :=
  getSizeClass sizes (getMaximumAlignedSize buildForIA32 bytes align)

/-- The size class of a request that `MutatorContext.alloc` passes on to the labeled space, with
room for the label slots. -/
def labeledSizeClass (sizes : SizeConfig) (buildForIA32 : Bool) (size align : Int) : Int :=
  allocSizeClass sizes buildForIA32 (toInt (alignUp size minAlignment + labelBytes)) align

/-- What `allocateScalar` and `allocateArray` are asked for: a positive multiple of
`MIN_ALIGNMENT` bytes, at one of the alignments that the build has. -/
structure Request (buildForIA32 : Bool) where
  size : Int
  align : Int
  size_pos : 0 < size
  size_aligned : size % minAlignment = 0
  size_lt : size < 2147483648
  align_admissible : align = 4 ∨ align = 8 ∨ (buildForIA32 = true ∧ align = 16)

namespace Request

variable {buildForIA32 : Bool} (request : Request buildForIA32)

/-- The bytes of a labeled object with its label slots, wherever in its cell it is aligned. -/
def needed : Int := request.size + labelBytes + (request.align - minAlignment)

theorem alignUp_size : alignUp request.size minAlignment = request.size := by
  have hpos := request.size_pos
  have haligned : request.size % 4 = 0 := request.size_aligned
  have hlt := request.size_lt
  unfold alignUp minAlignment toInt
  omega

/-- The slack is added whether or not the alignment asks for any. -/
theorem getMaximumAlignedSize_eq (bytes : Int) :
    getMaximumAlignedSize buildForIA32 (toInt bytes) request.align =
      toInt (bytes + (request.align - minAlignment)) := by
  have halign := request.align_admissible
  have hmax : ¬ maxAlignment buildForIA32 ≤ minAlignment := by
    cases buildForIA32 <;> decide
  rw [getMaximumAlignedSize]
  by_cases hmin : request.align ≤ minAlignment
  · have hfour : request.align - minAlignment = 0 := by
      unfold minAlignment at hmin ⊢
      omega
    rw [if_pos (.inr hmin), hfour, Int.add_zero]
  · rw [if_neg (not_or.2 ⟨hmax, hmin⟩)]
    unfold toInt
    omega

theorem labeledSizeClass_eq (sizes : SizeConfig) :
    labeledSizeClass sizes buildForIA32 request.size request.align =
      getSizeClass sizes (toInt request.needed) := by
  rw [labeledSizeClass, allocSizeClass, alignUp_size, getMaximumAlignedSize_eq, needed]

/-- If there is a free list for a labeled object, then there are cells of its size. -/
theorem needed_le_of_labeledSizeClass (sizes : SizeConfig)
    (hge : 0 ≤ labeledSizeClass sizes buildForIA32 request.size request.align)
    (hcount : labeledSizeClass sizes buildForIA32 request.size request.align <
      sizeClassCount sizes) : request.needed ≤ maxCellSize := by
  rw [labeledSizeClass_eq] at hge hcount
  refine Int.not_lt.1 fun hlarge => ?_
  have htotal : toInt request.needed ≤ 0 ∨ maxCellSize < toInt request.needed := by
    have hlt := request.size_lt
    have halign := request.align_admissible
    unfold needed labelBytes minAlignment maxCellSize toInt at *
    omega
  have hout := getSizeClass_out_of_range sizes (le_toInt _) (toInt_lt _) htotal
  omega

/-- The cell of a labeled object is large enough exactly if there are cells of the size. -/
theorem fits_labeledSizeClass_iff (sizes : SizeConfig) :
    Fits sizes (labeledSizeClass sizes buildForIA32 request.size request.align) request.needed ↔
      request.needed ≤ maxCellSize := by
  constructor
  · rintro ⟨hge, hcount, -⟩
    exact request.needed_le_of_labeledSizeClass sizes hge hcount
  · intro hmax
    have hpos : 0 < request.needed := by
      have hsize := request.size_pos
      have halign := request.align_admissible
      unfold needed labelBytes minAlignment
      omega
    have hlt : request.needed < 2147483648 := by
      unfold maxCellSize at hmax
      omega
    rw [labeledSizeClass_eq, toInt_of_lt (Int.le_of_lt hpos) hlt]
    exact fits_getSizeClass sizes hpos hmax

end Request

/-- In a region, `allocLabeled` leaves the allocator of the type in place: the build has no
barriers, or the processor runs no mapper, or the region asks for empty labels. -/
def KeepsAllocator (th : GreenThread) (config : AllocConfig) : Prop :=
  config.enabled = false ∨ config.difcBarriers = false ∨
    (config.isAiravat = true ∧ config.dynamicBarriers = true ∧ config.inMapperRegion = false) ∨
    (config.isAiravat = false ∧ th.currentSRState.secrecyAllocLabels = some .empty ∧
      th.currentSRState.integrityAllocLabels = some .empty)

theorem allocLabeled_eq_false {th : GreenThread} {config : AllocConfig}
    (hin : th.inSecureRegion = true) :
    th.allocLabeled config labeledSite = false ↔ KeepsAllocator th config := by
  have hlaminar : th.allocLaminarLabeled config = th.shouldAllocLabeledObjectInSR := by
    simp [GreenThread.allocLaminarLabeled, hin]
  rw [KeepsAllocator, ← GreenThread.shouldAllocLabeledObjectInSR_eq_false,
    GreenThread.allocLabeled, hlaminar]
  cases config.enabled <;> cases config.difcBarriers <;> cases config.isAiravat <;>
    simp [GreenThread.allocAiravatLabeled]

/-- `checkAllocator` neither chooses the labeled space nor gives it up, whatever the size. -/
theorem checkAllocator_eq_labeled (buildForIA32 : Bool) (bytes align : Int)
    (allocator : Allocator) :
    checkAllocator buildForIA32 bytes align allocator = .labeled ↔ allocator = .labeled := by
  cases allocator <;> simp only [checkAllocator] <;> try split
  all_goals simp

theorem selectAllocator_ne_labeled {th : GreenThread} {config : AllocConfig}
    (hin : th.inSecureRegion = true) (buildForIA32 : Bool) (size align : Int)
    (allocator : Allocator) :
    selectAllocator th config labeledSite buildForIA32 size align allocator ≠ .labeled ↔
      KeepsAllocator th config ∧ allocator ≠ .labeled := by
  rw [selectAllocator, ne_eq, checkAllocator_eq_labeled, ← allocLabeled_eq_false hin]
  cases th.allocLabeled config labeledSite <;> simp

/-- **When labeled allocations fit a cell.**  A request of a region at a site `LABELED` is not
served by the labeled space, or is served from a size class that exists and whose cells hold it,
exactly if the allocator is left in place or the object with its label slots and the slack of its
alignment is no larger than the largest cell. -/
theorem labeled_fits_iff (th : GreenThread) (config : AllocConfig) (sizes : SizeConfig)
    (buildForIA32 : Bool) (allocator : Allocator) (request : Request buildForIA32)
    (hin : th.inSecureRegion = true) :
    (selectAllocator th config labeledSite buildForIA32 request.size request.align allocator ≠
        .labeled ∨
      Fits sizes (labeledSizeClass sizes buildForIA32 request.size request.align)
        request.needed) ↔
      (KeepsAllocator th config ∧ allocator ≠ .labeled) ∨ request.needed ≤ maxCellSize := by
  rw [selectAllocator_ne_labeled hin, request.fits_labeledSizeClass_iff]

/-- A request of 8184 bytes, which leaves just the room for the label slots. -/
theorem largest_fits :
    Fits ⟨true, false⟩ (labeledSizeClass ⟨true, false⟩ true 8184 4) 8192 := by
  have hfits := (labeled_fits_iff GreenThread.addsFive GreenThread.usualConfig ⟨true, false⟩ true
    .default ⟨8184, 4, by decide, by decide, by decide, by decide⟩ rfl).2 (.inr (by decide))
  exact hfits.resolve_left (not_not_intro (by decide +kernel))

/-- An object of 8188 bytes is not large for `checkAllocator`.  In the labeled space it needs a
cell of 8196 bytes, and its size class is the one behind the last.  An array of 64 kilobytes is
large, and still not sent to the large object space. -/
theorem overlarge_misfit :
    let select := selectAllocator GreenThread.addsFive GreenThread.usualConfig labeledSite true
    let sizeClass := labeledSizeClass ⟨true, false⟩ true
    (select 8188 4 .default = .labeled ∧ sizeClass 8188 4 = sizeClassCount ⟨true, false⟩ ∧
      ¬ Fits ⟨true, false⟩ (sizeClass 8188 4) (8188 + labelBytes)) ∧
    (checkAllocator true 65536 4 .default = .los ∧ select 65536 4 .default = .labeled ∧
      ¬ Fits ⟨true, false⟩ (sizeClass 65536 4) (65536 + labelBytes)) := by
  decide +kernel

end Laminar.Mm
