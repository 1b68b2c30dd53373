import Mathlib.Logic.Function.Basic
import Laminar.Mm.SizeClasses

/-!
# Labeled objects in their cells

`SegregatedFreeList.alloc` takes a cell off a free list and moves the object forward in it until
it is aligned.  It fills the gap with a word that no object begins with, so that the collector
finds the object again when it knows no more than the cell: `JavaHeader.getObjectFromStartAddress`
skips such words.  A labeled object begins with its two label slots, which the collector has to
skip as well.

Addresses are those of a build with 32-bit words.  Tests and masks of the low bits of a word are
remainders.
-/

namespace Laminar.Mm

open Laminar.Vm

/-- The words of the memory by their addresses. -/
abbrev Memory := Nat → Nat

/-- `ALIGNMENT_VALUE`. -/
def alignmentValue : Nat := 0xdeadbeef

/-- The build options and constraints that count for the labeled space. -/
structure Build where
  headerMarkBits : Bool
  needsLogBitInHeader : Bool
  markSweepMarkBits : Nat
  difcEnabled : Bool
  difcBarriers : Bool
  difcNoStaticOrAllocBarriers : Bool
  buildForIA32 : Bool
  otherHeaderWords : Nat
  markBits_le : markSweepMarkBits ≤ if needsLogBitInHeader then 3 else 4

namespace Build

/-- `OTHER_HEADER_BYTES`. -/
def otherHeaderBytes (build : Build) : Nat := 4 * build.otherHeaderWords

/-- `OBJECT_REF_OFFSET`. -/
def refOffset (build : Build) : Nat := objectRefOffset build.otherHeaderBytes

theorem refOffset_eq (build : Build) : build.refOffset = 4 * build.otherHeaderWords + 12 :=
  objectRefOffset_eq _

/-- `getObjectFromStartAddress` looks whether a cell is one of the labeled space. -/
def knowsLabels (build : Build) : Bool :=
  build.difcEnabled && build.difcBarriers && !build.difcNoStaticOrAllocBarriers

end Build

/-! ## Allocation -/

/-- The bytes from `region` to the next address that is aligned. -/
def alignDelta (region : Nat) (alignment offset : Int) : Nat :=
  ((-offset - region) % alignment).toNat

/-- The loop of `alignAllocation` that fills the gap. -/
def fillAlignment (memory : Memory) (region delta : Nat) : Memory × Nat :=
  if 4 ≤ delta then
    fillAlignment (Function.update memory region alignmentValue) (region + 4) (delta - 4)
  else (memory, region + delta)
termination_by delta
decreasing_by omega

/-- `alignAllocation`. -/
def alignAllocation (build : Build) (memory : Memory) (region : Nat) (alignment offset : Int) :
    Memory × Nat :=
  let maxAlignment := maxAlignment build.buildForIA32
  if alignment ≤ minAlignment ∨ maxAlignment ≤ minAlignment then (memory, region)
  else
    let delta := alignDelta region alignment offset
    if maxAlignment - minAlignment = 4 then
      -- at most a single hole
      if delta = 4 then (Function.update memory region alignmentValue, region + delta)
      else (memory, region + delta)
    else fillAlignment memory region delta

/-- `SegregatedFreeList.alloc`, when `cell` heads the free list of the size class. -/
def alloc (build : Build) (memory : Memory) (cell : Nat) (bytes align offset : Int) :
    Memory × Nat :=
  let alignedBytes := getMaximumAlignedSize build.buildForIA32 bytes align
  -- clear the free list link
  let memory := Function.update memory cell 0
  if alignedBytes ≠ bytes then alignAllocation build memory cell align offset else (memory, cell)

/-- `MutatorContext.alloc` for the labeled space. -/
def allocLabeled (build : Build) (memory : Memory) (cell : Nat) (bytes align offset : Int) :
    Memory × Nat :=
  let (memory, region) := alloc build memory cell (toInt (bytes + labelBytes)) align offset
  (memory, region + labelBytes)

/-! ## Finding an object -/

/-- Skip words of an alignment gap, at most `n`. -/
def skipAlignment (memory : Memory) : Nat → Nat → Option Nat
  | 0, start => if memory start % 2 = 1 then none else some start
  | n + 1, start => if memory start % 2 = 1 then skipAlignment memory n (start + 4) else some start

/-- `getObjectFromStartAddress`; `null` is `none`. -/
def getObjectFromStartAddress (build : Build) (labeledSpace : Space) (memory : Memory)
    (start : Nat) : Option Nat :=
  (skipAlignment memory 4 start).map fun start =>
    if build.knowsLabels && labeledSpace.isLabeledAddress (BitVec.ofNat 32 start) then
      start + build.refOffset + labelBytes
    else start + build.refOffset

/-! ## Occupied cells -/

/-- An object that was allocated in the cell: the request, and room for it. -/
structure Occupant (build : Build) (cellExtent : Nat) where
  request : Request build.buildForIA32
  offset : Int
  offset_aligned : offset % 4 = 0
  header_le : (scalarHeaderSize build.otherHeaderBytes : Int) ≤ request.size
  fits : request.needed ≤ cellExtent

namespace Occupant

variable {build : Build} {cellExtent : Nat} (occupant : Occupant build cellExtent) (cell : Nat)

/-- The words of the alignment gap. -/
def gapWords : Nat := alignDelta cell occupant.request.align occupant.offset / 4

/-- Where the label slots are. -/
def region : Nat := cell + 4 * occupant.gapWords cell

/-- The reference of the object. -/
def ref : Nat := occupant.region cell + labelBytes + build.refOffset

/-- The memory of the cell as the allocation leaves it, as far as the collector looks at it: the
gap is filled, and the first label slot holds a reference or `null`. -/
structure Holds (memory : Memory) : Prop where
  gap : ∀ k < occupant.gapWords cell, memory (cell + 4 * k) % 2 = 1
  slot : memory (occupant.region cell) % 2 = 0

variable {cell}

/-- The gap is made of whole words, and is no longer than the slack of the alignment. -/
theorem alignDelta_eq (hcell : cell % 4 = 0) :
    alignDelta cell occupant.request.align occupant.offset = 4 * occupant.gapWords cell ∧
      (4 * occupant.gapWords cell : Int) ≤ occupant.request.align - minAlignment := by
  have hoffset := occupant.offset_aligned
  unfold gapWords alignDelta minAlignment
  rcases occupant.request.align_admissible with halign | halign | ⟨-, halign⟩
  all_goals
    rw [halign]
    omega

theorem gapWords_le (hcell : cell % 4 = 0) : occupant.gapWords cell ≤ 3 := by
  have hgap := (occupant.alignDelta_eq hcell).2
  have halign := occupant.request.align_admissible
  unfold minAlignment at hgap
  omega

/-- The object ends in its cell, wherever it begins. -/
theorem status_lt (hcell : cell % 4 = 0) :
    occupant.region cell + labelBytes + 4 * build.otherHeaderWords + 8 ≤ cell + cellExtent := by
  have hgap := (occupant.alignDelta_eq hcell).2
  have hheader := occupant.header_le
  have hfits := occupant.fits
  unfold Request.needed scalarHeaderSize Build.otherHeaderBytes javaHeaderBytes at *
  unfold region
  omega

/-! ### Allocation -/

theorem fillAlignment_zero (memory : Memory) (start : Nat) :
    fillAlignment memory start (4 * 0) = (memory, start) := by
  rw [fillAlignment]
  rfl

theorem fillAlignment_one (memory : Memory) (start : Nat) :
    fillAlignment memory start (4 * 1) =
      (Function.update memory start alignmentValue, start + 4) := by
  rw [fillAlignment, fillAlignment]
  rfl

theorem fillAlignment_eq (memory : Memory) (start words : Nat) :
    (fillAlignment memory start (4 * words)).2 = start + 4 * words ∧
      (∀ k < words, (fillAlignment memory start (4 * words)).1 (start + 4 * k) = alignmentValue) ∧
      ∀ address, address < start ∨ start + 4 * words ≤ address →
        (fillAlignment memory start (4 * words)).1 address = memory address := by
  induction words generalizing memory start with
  | zero =>
      rw [fillAlignment_zero]
      exact ⟨rfl, fun k hk => absurd hk (Nat.not_lt_zero k), fun address _ => rfl⟩
  | succ words ih =>
      rw [fillAlignment, if_pos (by omega), show 4 * (words + 1) - 4 = 4 * words by omega]
      obtain ⟨hend, hfilled, hkept⟩ := ih (Function.update memory start alignmentValue) (start + 4)
      refine ⟨by omega, fun k hk => ?_, fun address haddress => ?_⟩
      · cases k with
        | zero =>
            rw [hkept _ (.inl (by omega))]
            exact Function.update_self ..
        | succ k =>
            rw [show start + 4 * (k + 1) = start + 4 + 4 * k by omega]
            exact hfilled k (by omega)
      · rw [hkept address (by omega)]
        exact Function.update_of_ne (by omega) ..

/-- Both ways of filling the gap do the same. -/
theorem alignAllocation_eq (memory : Memory) (hcell : cell % 4 = 0) :
    alignAllocation build memory cell occupant.request.align occupant.offset =
      fillAlignment memory cell (4 * occupant.gapWords cell) := by
  obtain ⟨hdelta, hgap⟩ := occupant.alignDelta_eq hcell
  unfold minAlignment at hgap
  rw [alignAllocation]
  by_cases hmin : occupant.request.align ≤ minAlignment
  · have hzero : occupant.gapWords cell = 0 := by
      unfold minAlignment at hmin
      omega
    rw [if_pos (.inl hmin), hzero, fillAlignment_zero]
  · have hmax : ¬ maxAlignment build.buildForIA32 ≤ minAlignment := by
      cases build.buildForIA32 <;> decide
    rw [if_neg (not_or.2 ⟨hmin, hmax⟩), hdelta]
    by_cases hsingle : maxAlignment build.buildForIA32 - minAlignment = 4
    · have hone : occupant.gapWords cell = 0 ∨ occupant.gapWords cell = 1 := by
        rcases occupant.request.align_admissible with halign | halign | ⟨hia32, -⟩
        · omega
        · omega
        · rw [hia32] at hsingle
          exact absurd hsingle (by decide)
      rw [if_pos hsingle]
      rcases hone with hzero | hone
      · rw [hzero, fillAlignment_zero]
        rfl
      · rw [hone, if_pos rfl, fillAlignment_one]
    · rw [if_neg hsingle]

/-- The labeled space fills the gap and hands out what is behind it. -/
theorem alloc_eq (memory : Memory) (hcell : cell % 4 = 0) :
    alloc build memory cell (toInt (occupant.request.size + labelBytes)) occupant.request.align
        occupant.offset =
      fillAlignment (Function.update memory cell 0) cell (4 * occupant.gapWords cell) := by
  rw [alloc, Request.getMaximumAlignedSize_eq]
  split
  · exact occupant.alignAllocation_eq _ hcell
  · rename_i hsame
    have hslack : occupant.request.align - minAlignment = 0 := by
      have halign := occupant.request.align_admissible
      unfold toInt minAlignment at *
      omega
    have hnone : occupant.gapWords cell = 0 := by
      have hgap := (occupant.alignDelta_eq hcell).2
      omega
    rw [hnone, fillAlignment_zero]

/-- The object begins behind the gap and the label slots. -/
theorem allocLabeled_region (memory : Memory) (hcell : cell % 4 = 0) :
    (allocLabeled build memory cell occupant.request.size occupant.request.align
      occupant.offset).2 = occupant.region cell + labelBytes := by
  simp only [allocLabeled, occupant.alloc_eq memory hcell]
  rw [(fillAlignment_eq _ _ _).1]
  rfl

theorem allocLabeled_gap (memory : Memory) (hcell : cell % 4 = 0) {k : Nat}
    (hk : k < occupant.gapWords cell) :
    (allocLabeled build memory cell occupant.request.size occupant.request.align
      occupant.offset).1 (cell + 4 * k) = alignmentValue := by
  simp only [allocLabeled, occupant.alloc_eq memory hcell]
  exact (fillAlignment_eq _ _ _).2.1 k hk

/-- Behind the gap a cell stays zero that is zero but for the free list link. -/
theorem allocLabeled_zero {memory : Memory} (hcell : cell % 4 = 0)
    (hzero : ∀ address, cell < address → address < cell + cellExtent → memory address = 0)
    {address : Nat} (hle : occupant.region cell ≤ address) (hlt : address < cell + cellExtent) :
    (allocLabeled build memory cell occupant.request.size occupant.request.align
      occupant.offset).1 address = 0 := by
  simp only [allocLabeled, occupant.alloc_eq memory hcell]
  rw [(fillAlignment_eq _ _ _).2.2 address (.inr hle)]
  by_cases hfirst : address = cell
  · rw [hfirst, Function.update_self]
  · rw [Function.update_of_ne hfirst]
    rw [region] at hle
    exact hzero address (by omega) hlt

/-! ### Finding an object -/

theorem skipAlignment_eq {memory : Memory} {start gap n : Nat} (hn : gap ≤ n)
    (hgap : ∀ k < gap, memory (start + 4 * k) % 2 = 1) (hslot : memory (start + 4 * gap) % 2 = 0) :
    skipAlignment memory n start = some (start + 4 * gap) := by
  induction gap generalizing start n with
  | zero =>
      have hstop : ¬ memory start % 2 = 1 := by
        rw [Nat.mul_zero, Nat.add_zero] at hslot
        omega
      cases n <;> rw [skipAlignment, if_neg hstop] <;> rfl
  | succ gap ih =>
      obtain ⟨n, rfl⟩ : ∃ m, n = m + 1 := ⟨n - 1, by omega⟩
      have hshift : ∀ k, start + 4 * (k + 1) = start + 4 + 4 * k := fun k => by omega
      have hfirst : memory start % 2 = 1 := hgap 0 (Nat.succ_pos gap)
      rw [hshift] at hslot ⊢
      rw [skipAlignment, if_pos hfirst]
      refine ih (Nat.le_of_succ_le_succ hn) (fun k hk => ?_) hslot
      rw [← hshift]
      exact hgap (k + 1) (Nat.succ_lt_succ hk)

/-- The collector finds the object of a cell, if it knows of label slots; otherwise it takes the
word of a label slot for that of the header. -/
theorem getObjectFromStartAddress_eq {memory : Memory} {labeledSpace : Space}
    (hcell : cell % 4 = 0) (hspace : labeledSpace.Has (occupant.region cell))
    (h : occupant.Holds cell memory) :
    getObjectFromStartAddress build labeledSpace memory cell =
      some (if build.knowsLabels then occupant.ref cell else occupant.ref cell - labelBytes) := by
  have hlt : occupant.region cell < 2 ^ 32 := Nat.lt_of_lt_of_le hspace.2 labeledSpace.no_wrap
  have hlabeled :
      labeledSpace.isLabeledAddress (BitVec.ofNat 32 (occupant.region cell)) = true := by
    rw [Space.isLabeledAddress_iff, BitVec.toNat_ofNat, Nat.mod_eq_of_lt hlt]
    exact hspace
  have hgap := occupant.gapWords_le hcell
  rw [getObjectFromStartAddress, skipAlignment_eq (by omega) h.gap h.slot, Option.map_some]
  change some (if build.knowsLabels &&
      labeledSpace.isLabeledAddress (BitVec.ofNat 32 (occupant.region cell)) then
    occupant.region cell + build.refOffset + labelBytes
    else occupant.region cell + build.refOffset) = _
  rw [hlabeled, Bool.and_true]
  unfold ref
  congr 2 <;> omega

end Occupant

end Laminar.Mm
