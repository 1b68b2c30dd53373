import Laminar.Mm.Cells

/-!
# The label slots of a cell

Four pieces of code place the two label slots of an object, each with numbers of its own:
`MutatorContext.alloc` asks for 8 more bytes and moves the object behind them, `secrecyAddr`
and `integrityAddr` go back 20 and 16 bytes from the reference, `getObjectFromStartAddress` goes
8 bytes further than for other objects, and the gap in front of all of them is as long as
`alignAllocation` makes it.

With no other header bytes, and alignments of up to 8, the numbers agree in every cell.  One
thing does not depend on the cell: in a build with `difcNoStaticOrAllocBarriers` objects are
still allocated with label slots, and `getObjectFromStartAddress` does not know of them.
-/

namespace Laminar.Mm

open Laminar.Vm

/-! ## The slots -/

/-- `secrecyAddr`. -/
def secrecyAddr (ref : Nat) : Nat := ref - 20

/-- `integrityAddr`. -/
def integrityAddr (ref : Nat) : Nat := ref - 16

/-- `setObjectLabels`. -/
def setObjectLabels (memory : Memory) (ref secrecyLabels integrityLabels : Nat) : Memory :=
  Function.update (Function.update memory (secrecyAddr ref) secrecyLabels) (integrityAddr ref)
    integrityLabels

/-! ## Allocations -/

/-- An allocation in the labeled space of a build with 32-bit addresses: a request that has a
free list, an alignment of at most 8 and an offset as `alignAllocation` asserts them, and a cell of
the list, which is zero but for the link. -/
structure Allocation (build : Build) where
  sizes : SizeConfig
  request : Request build.buildForIA32
  offset : Int
  labeledSpace : Space
  cell : Nat
  memory : Memory
  address4 : sizes.bytesInAddress4 = true
  align_le : request.align ≤ 8
  header_le : (scalarHeaderSize build.otherHeaderBytes : Int) ≤ request.size
  offset_aligned : offset % 4 = 0
  sizeClass_nonneg : 0 ≤ labeledSizeClass sizes build.buildForIA32 request.size request.align
  sizeClass_lt : labeledSizeClass sizes build.buildForIA32 request.size request.align <
    sizeClassCount sizes
  cell_aligned : cell % 4 = 0
  cell_inSpace : ∀ address, cell ≤ address →
    (address : Int) < cell + getBaseCellSize sizes
      (labeledSizeClass sizes build.buildForIA32 request.size request.align) →
    labeledSpace.Has address
  cell_zero : ∀ address, cell < address →
    (address : Int) < cell + getBaseCellSize sizes
      (labeledSizeClass sizes build.buildForIA32 request.size request.align) →
    memory address = 0

namespace Allocation

variable {build : Build} (a : Allocation build)

/-- The bytes of the cell. -/
def cellExtent : Nat :=
  (getBaseCellSize a.sizes
    (labeledSizeClass a.sizes build.buildForIA32 a.request.size a.request.align)).toNat

/-- The memory after the allocation, and the first byte of the object. -/
def allocated : Memory × Nat :=
  allocLabeled build a.memory a.cell a.request.size a.request.align a.offset

/-- The address that the labeled space hands out: the gap ends there. -/
def gapEnd : Nat :=
  (alloc build a.memory a.cell (toInt (a.request.size + labelBytes)) a.request.align a.offset).2

/-- The reference of the object, as `initializeScalar` and `initializeArray` make it. -/
def ref : Nat := a.allocated.2 + build.refOffset

/-- The memory has the gap as the allocation left it.  The object may have been initialised and
written. -/
def KeepsGap (memory : Memory) : Prop :=
  ∀ address, a.cell ≤ address → address < a.gapEnd → memory address = a.allocated.1 address

/-- A slot is a word of the cell, behind the gap and in front of the object. -/
def IsSlot (slot : Nat) : Prop :=
  a.cell ≤ slot ∧ slot + 4 ≤ a.cell + a.cellExtent ∧ a.gapEnd ≤ slot ∧ slot + 4 ≤ a.allocated.2

/-- The label slots fit the layout of the cell. -/
structure SlotsFit : Prop where
  /-- The object keeps the requested alignment. -/
  aligned : ((a.allocated.2 : Int) + a.offset) % a.request.align = 0
  secrecy : a.IsSlot (secrecyAddr a.ref)
  integrity : a.IsSlot (integrityAddr a.ref)
  apart : secrecyAddr a.ref + 4 ≤ integrityAddr a.ref
  /-- The allocation leaves the slots zero. -/
  zero : a.allocated.1 (secrecyAddr a.ref) = 0 ∧ a.allocated.1 (integrityAddr a.ref) = 0
  /-- The object is found from its cell before the slots are set. -/
  found_unset : ∀ memory, a.KeepsGap memory → memory (secrecyAddr a.ref) = 0 →
    memory (integrityAddr a.ref) = 0 →
    getObjectFromStartAddress build a.labeledSpace memory a.cell = some a.ref
  /-- And after they are set to references of label sets. -/
  found_set : ∀ memory secrecyLabels integrityLabels, a.KeepsGap memory →
    secrecyLabels % 4 = 0 → integrityLabels % 4 = 0 →
    getObjectFromStartAddress build a.labeledSpace
      (setObjectLabels memory a.ref secrecyLabels integrityLabels) a.cell = some a.ref

/-! ## Where everything is -/

/-- The cell has room for the object, its slots and the gap. -/
def occupant : Occupant build a.cellExtent where
  request := a.request
  offset := a.offset
  offset_aligned := a.offset_aligned
  header_le := a.header_le
  fits := by
    have hmax := a.request.needed_le_of_labeledSizeClass a.sizes a.sizeClass_nonneg a.sizeClass_lt
    have hfits := ((a.request.fits_labeledSizeClass_iff a.sizes).2 hmax).2.2
    exact Int.le_trans hfits (Int.self_le_toNat _)

theorem allocated_eq : a.allocated.2 = a.occupant.region a.cell + labelBytes :=
  a.occupant.allocLabeled_region a.memory a.cell_aligned

theorem gapEnd_eq : a.gapEnd = a.occupant.region a.cell :=
  (congrArg Prod.snd (a.occupant.alloc_eq a.memory a.cell_aligned)).trans
    (Occupant.fillAlignment_eq _ _ _).1

theorem ref_eq : a.ref = a.occupant.ref a.cell := by
  rw [ref, allocated_eq]
  rfl

/-- The slots end in the cell. -/
theorem region_add_le :
    a.occupant.region a.cell + labelBytes ≤ a.cell + a.cellExtent := by
  have hend := a.occupant.status_lt a.cell_aligned
  omega

theorem region_has : a.labeledSpace.Has (a.occupant.region a.cell) := by
  have hend := a.region_add_le
  have hle : a.cell ≤ a.occupant.region a.cell := Nat.le_add_right _ _
  refine a.cell_inSpace _ hle ?_
  generalize a.occupant.region a.cell = region at hend hle ⊢
  rw [cellExtent, labelBytes] at hend
  omega

/-- Behind the gap the allocation leaves the cell zero. -/
theorem allocated_zero {address : Nat} (hle : a.occupant.region a.cell ≤ address)
    (hlt : address < a.cell + a.cellExtent) : a.allocated.1 address = 0 := by
  refine a.occupant.allocLabeled_zero a.cell_aligned (fun address hle hlt => ?_) hle hlt
  rw [cellExtent] at hlt
  exact a.cell_zero address hle (by omega)

/-- The address behind the slots is aligned, as they take 8 bytes. -/
theorem allocated_aligned : ((a.allocated.2 : Int) + a.offset) % a.request.align = 0 := by
  have hdelta := (a.occupant.alignDelta_eq a.cell_aligned).1
  have hcell := a.cell_aligned
  have hoffset := a.offset_aligned
  have hle := a.align_le
  rw [allocated_eq, Occupant.region, ← hdelta, alignDelta, labelBytes]
  change ((a.cell + ((-a.offset - a.cell) % a.request.align).toNat + 8 : Nat) + a.offset : Int) %
    a.request.align = 0
  rcases a.request.align_admissible with halign | halign | ⟨-, halign⟩
  all_goals
    rw [halign] at hle ⊢
    omega

/-! ## Finding the object -/

variable {a} {memory : Memory}

/-- A cell with its gap intact and no odd word in its first slot holds the object. -/
theorem KeepsGap.holds (hgap : a.KeepsGap memory)
    (hslot : memory (a.occupant.region a.cell) % 2 = 0) : a.occupant.Holds a.cell memory := by
  refine ⟨fun k hk => ?_, hslot⟩
  have hfilled := a.occupant.allocLabeled_gap a.memory a.cell_aligned hk
  have hlt : a.cell + 4 * k < a.gapEnd := by
    rw [gapEnd_eq, Occupant.region]
    omega
  rw [hgap _ (Nat.le_add_right _ _) hlt]
  exact congrArg (· % 2) hfilled

theorem KeepsGap.found (hgap : a.KeepsGap memory)
    (hslot : memory (a.occupant.region a.cell) % 2 = 0) :
    getObjectFromStartAddress build a.labeledSpace memory a.cell =
      some (if build.knowsLabels then a.ref else a.ref - labelBytes) := by
  rw [ref_eq]
  exact a.occupant.getObjectFromStartAddress_eq a.cell_aligned a.region_has (hgap.holds hslot)

theorem KeepsGap.setObjectLabels (hgap : a.KeepsGap memory)
    (hsecrecy : a.gapEnd ≤ secrecyAddr a.ref) (hintegrity : a.gapEnd ≤ integrityAddr a.ref)
    (secrecyLabels integrityLabels : Nat) :
    a.KeepsGap (setObjectLabels memory a.ref secrecyLabels integrityLabels) := by
  intro address hle hlt
  rw [Mm.setObjectLabels, Function.update_of_ne (by omega), Function.update_of_ne (by omega)]
  exact hgap address hle hlt

variable (a)

theorem keepsGap_allocated : a.KeepsGap a.allocated.1 := fun _ _ _ => rfl

section NoOtherHeader

variable (h : build.otherHeaderBytes = 0)
include h

theorem ref_eq_region_add : a.ref = a.occupant.region a.cell + 20 := by
  rw [ref_eq, Occupant.ref, Build.refOffset, h]
  rfl

/-- The slots are the two words behind the gap. -/
theorem slots_eq : secrecyAddr a.ref = a.occupant.region a.cell ∧
    integrityAddr a.ref = a.occupant.region a.cell + 4 := by
  rw [a.ref_eq_region_add h, secrecyAddr, integrityAddr]
  omega

/-- The object is found exactly if the build knows of label slots. -/
theorem found_iff (hgap : a.KeepsGap memory) (hslot : memory (secrecyAddr a.ref) % 4 = 0) :
    getObjectFromStartAddress build a.labeledSpace memory a.cell = some a.ref ↔
      build.knowsLabels = true := by
  have href := a.ref_eq_region_add h
  rw [(a.slots_eq h).1] at hslot
  rw [hgap.found (by omega), Option.some.injEq]
  cases build.knowsLabels with
  | true => simp
  | false =>
      simp only [labelBytes, Bool.false_eq_true, if_false, iff_false]
      omega

/-- **When label slots fit the layout of a cell**: in every cell, for every object, alignment and
offset, exactly if `getObjectFromStartAddress` knows of them. -/
theorem slotsFit_iff : a.SlotsFit ↔ build.knowsLabels = true := by
  obtain ⟨hsecrecy, hintegrity⟩ := a.slots_eq h
  have hend := a.region_add_le
  have hle : a.cell ≤ a.occupant.region a.cell := Nat.le_add_right _ _
  have hgapEnd := a.gapEnd_eq
  have hallocated := a.allocated_eq
  rw [labelBytes] at hend hallocated
  have hzero : a.allocated.1 (secrecyAddr a.ref) = 0 ∧ a.allocated.1 (integrityAddr a.ref) = 0 :=
    ⟨a.allocated_zero (by omega) (by omega), a.allocated_zero (by omega) (by omega)⟩
  constructor
  · intro hfit
    have hfound := hfit.found_unset _ a.keepsGap_allocated hzero.1 hzero.2
    exact (a.found_iff h a.keepsGap_allocated (by rw [hzero.1])).1 hfound
  · intro hknows
    refine ⟨a.allocated_aligned, ⟨by omega, by omega, by omega, by omega⟩,
      ⟨by omega, by omega, by omega, by omega⟩, by omega, hzero, ?_, ?_⟩
    · intro memory hgap hunset _
      exact (a.found_iff h hgap (by rw [hunset])).2 hknows
    · intro memory secrecyLabels integrityLabels hgap hlabels _
      have hset := hgap.setObjectLabels (by omega) (by omega) secrecyLabels integrityLabels
      refine (a.found_iff h hset ?_).2 hknows
      rw [Mm.setObjectLabels, Function.update_of_ne (by omega), Function.update_self]
      exact hlabels

end NoOtherHeader

end Allocation

/-! ## Two builds -/

/-- A build for 32-bit PowerPC, with or without allocation barriers. -/
def powerPCBuild (difcNoStaticOrAllocBarriers : Bool) : Build where
  headerMarkBits := true
  needsLogBitInHeader := true
  markSweepMarkBits := 2
  difcEnabled := true
  difcBarriers := true
  difcNoStaticOrAllocBarriers := difcNoStaticOrAllocBarriers
  buildForIA32 := false
  otherHeaderWords := 0
  markBits_le := by decide

/-- An object of 24 bytes at alignment 8, in a cell of 36 bytes that leaves a gap. -/
def alignedAllocation (difcNoStaticOrAllocBarriers : Bool) :
    Allocation (powerPCBuild difcNoStaticOrAllocBarriers) where
  sizes := ⟨true, false⟩
  request := ⟨24, 8, by decide, by decide, by decide, .inr (.inl rfl)⟩
  offset := 4
  labeledSpace := onePage
  cell := 0x10000200
  memory := fun _ => 0
  address4 := rfl
  align_le := Int.le_refl 8
  header_le := by cases difcNoStaticOrAllocBarriers <;> decide
  offset_aligned := by decide
  sizeClass_nonneg := by cases difcNoStaticOrAllocBarriers <;> decide
  sizeClass_lt := by cases difcNoStaticOrAllocBarriers <;> decide
  cell_aligned := by decide
  cell_inSpace := fun address hle hlt => by
    have hsize :
        getBaseCellSize ⟨true, false⟩ (labeledSizeClass ⟨true, false⟩ false 24 8) = 36 := by
      decide
    change (address : Int) < 0x10000200 + getBaseCellSize ⟨true, false⟩ _ at hlt
    rw [powerPCBuild, hsize] at hlt
    exact ⟨Nat.le_trans (by decide) hle, Nat.lt_of_lt_of_le (show address < 0x10000224 by omega)
      (by decide)⟩
  cell_zero := fun _ _ _ => rfl

/-- With allocation barriers, the slots of the object fit its cell. -/
theorem alignedAllocation_slotsFit : (alignedAllocation false).SlotsFit :=
  ((alignedAllocation false).slotsFit_iff rfl).2 rfl

/-- Without them, `getObjectFromStartAddress` misses the object by the 8 bytes of the slots. -/
theorem alignedAllocation_missed :
    (powerPCBuild true).otherHeaderBytes = 0 ∧ (alignedAllocation true).ref = 0x10000218 ∧
      getObjectFromStartAddress (powerPCBuild true) (alignedAllocation true).labeledSpace
        (alignedAllocation true).allocated.1 (alignedAllocation true).cell = some 0x10000210 ∧
      ¬ (alignedAllocation true).SlotsFit := by
  have href : (alignedAllocation true).ref = 0x10000218 := by decide +kernel
  have hmissed : getObjectFromStartAddress (powerPCBuild true) (alignedAllocation true).labeledSpace
      (alignedAllocation true).allocated.1 (alignedAllocation true).cell = some 0x10000210 := by
    decide +kernel
  refine ⟨rfl, href, hmissed, fun hfit => ?_⟩
  have hfound := hfit.found_unset _ (alignedAllocation true).keepsGap_allocated hfit.zero.1
    hfit.zero.2
  rw [hmissed, href] at hfound
  exact absurd hfound (by decide)

end Laminar.Mm
