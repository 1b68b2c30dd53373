import Mathlib.Algebra.Group.Nat.Defs
import Laminar.Lib.Chain
import Laminar.Mm.Cells

/-!
# Marking and sweeping the labeled space

The labeled space is a mark-sweep space.  A collection prepares the space, traces the objects
that can be reached, and later sweeps a block when it is needed for allocation: `makeFreeList`
links the cells of the block that hold no marked object into a free list, and clears them.
A mark is a count in the header of the object or, in the other configuration, a bit in a side
bitmap with a bit for each word.

For an object of the labeled space, `traceObjectLabeled` sets the bit of the first label slot.
`isLive` and `makeFreeList` look at the bit of the object's header.  With the side bitmap no
reachable labeled object survives.  In the configuration with header bits each of them does, as
long as `getObjectFromStartAddress` counts the label slots.

The lists of blocks are left out.  Which blocks are swept is decided by marks of their own.
-/

namespace Laminar.Mm

open Laminar.Lib Laminar.Vm

/-! ## Addresses of an object -/

/-- `refToAddress`, the address of the word with the type of the object. -/
def refToAddress (object : Nat) : Nat := object - 12

/-- `objectStartRef`; an object of the space never moves. -/
def objectStartRef (build : Build) (object : Nat) : Nat := object - build.refOffset

/-- The address of the status word, which has the available bits. -/
def statusAddress (object : Nat) : Nat := object - 8

/-! ## Mark bits in the header -/

/-- `MAX_MARKCOUNT_BITS`. -/
def maxMarkcountBits (build : Build) : Nat := if build.needsLogBitInHeader then 3 else 4

/-- `UNLOGGED_BIT`. -/
def unloggedBit : Nat := 8

/-- `deltaMarkState`, incremented. -/
def deltaMarkState (build : Build) (markState : Nat) : Nat :=
  (markState + 1) % 2 ^ build.markSweepMarkBits

/-- The `markValue` of a traced object. -/
def markValue (build : Build) (markState : Nat) : Nat :=
  if build.needsLogBitInHeader then markState ||| unloggedBit else markState

/-- `testAndMark`: the low four bits of the available byte are replaced. -/
def testAndMark (memory : Memory) (object value : Nat) : Memory × Bool :=
  let status := memory (statusAddress object)
  let oldValue := status % 256
  let markBits := oldValue % 16
  if markBits = value then (memory, false)
  else
    let newValue := oldValue - markBits + value
    (Function.update memory (statusAddress object) (status - oldValue + newValue), true)

/-- `testMarkState`. -/
def testMarkState (build : Build) (memory : Memory) (object value : Nat) : Bool :=
  memory (statusAddress object) % 2 ^ maxMarkcountBits build == value

theorem deltaMarkState_lt (build : Build) (markState : Nat) :
    deltaMarkState build markState < 2 ^ maxMarkcountBits build :=
  Nat.lt_of_lt_of_le (Nat.mod_lt _ (Nat.two_pow_pos _))
    (Nat.pow_le_pow_right Nat.two_pos build.markBits_le)

private theorem or_unloggedBit : ∀ n < 8, n ||| unloggedBit = n + 8 := by
  decide

section MarkState

variable {build : Build} {markState : Nat}

/-- The log bit stands above the bits of the mark state. -/
theorem markValue_eq (h : markState < 2 ^ maxMarkcountBits build) :
    markValue build markState = markState + (if build.needsLogBitInHeader then 8 else 0) ∧
      markValue build markState < 16 := by
  unfold markValue
  unfold maxMarkcountBits at h
  split at h
  · rename_i hlog
    rw [if_pos hlog, if_pos hlog, or_unloggedBit markState h]
    omega
  · rename_i hlog
    rw [if_neg hlog, if_neg hlog]
    omega

/-- A mark value has the mark state in the bits that `testMarkState` reads. -/
theorem testMarkState_of_markValue (h : markState < 2 ^ maxMarkcountBits build) {memory : Memory}
    {object : Nat} (hmarked : memory (statusAddress object) % 16 = markValue build markState) :
    testMarkState build memory object markState = true := by
  rw [(markValue_eq h).1] at hmarked
  rw [testMarkState, beq_iff_eq]
  unfold maxMarkcountBits at *
  split at h
  · rename_i hlog
    rw [if_pos hlog] at hmarked ⊢
    omega
  · rename_i hlog
    rw [if_neg hlog] at hmarked ⊢
    omega

end MarkState

theorem testAndMark_self {value : Nat} (hvalue : value < 16) (memory : Memory) (object : Nat) :
    (testAndMark memory object value).1 (statusAddress object) % 16 = value := by
  simp only [testAndMark]
  split
  · rename_i hmarked
    dsimp only
    omega
  · dsimp only
    rw [Function.update_self]
    omega

theorem testAndMark_of_ne (memory : Memory) (object value : Nat) {address : Nat}
    (h : address ≠ statusAddress object) :
    (testAndMark memory object value).1 address = memory address := by
  simp only [testAndMark]
  split
  · rfl
  · exact Function.update_of_ne h ..

/-! ## Live bits -/

/-- `META_DATA_OFFSET`. -/
def metaDataOffset : Nat := 16384

/-- `getLiveWordAddress`: a region of four megabytes begins with its metadata, a live word there
stands for 128 bytes. -/
def getLiveWordAddress (address : Nat) : Nat :=
  address / 4194304 * 4194304 + metaDataOffset + address % 4194304 / 128 * 4

/-- The bit that `getMask` has for the address. -/
def liveShift (address : Nat) : Nat := address / 4 % 32

/-- `liveBitSet`, of an address. -/
def liveBitSet (liveWords : Memory) (address : Nat) : Bool :=
  (liveWords (getLiveWordAddress address)).testBit (liveShift address)

/-- `setLiveBit`. -/
def setLiveBit (liveWords : Memory) (address : Nat) : Memory × Bool :=
  let oldValue := liveWords (getLiveWordAddress address)
  (Function.update liveWords (getLiveWordAddress address)
    (oldValue ||| 1 <<< liveShift address), !oldValue.testBit (liveShift address))

/-- `testAndSetLiveBitLabeled`. -/
def testAndSetLiveBitLabeled (build : Build) (liveWords : Memory) (object : Nat) : Memory × Bool :=
  setLiveBit liveWords (objectStartRef build object - labelBytes)

/-- The live word of an address is that of its 128 bytes, so there is one bit for each word. -/
theorem liveBitSet_setLiveBit (liveWords : Memory) (address other : Nat) :
    liveBitSet (setLiveBit liveWords address).1 other =
      (liveBitSet liveWords other || decide (address / 4 = other / 4)) := by
  simp only [liveBitSet, setLiveBit]
  by_cases hword : getLiveWordAddress other = getLiveWordAddress address
  · have hblock : other / 128 = address / 128 := by
      unfold getLiveWordAddress at hword
      omega
    rw [hword, Function.update_self, Nat.testBit_or, Nat.one_shiftLeft, Nat.testBit_two_pow]
    congr 2
    unfold liveShift
    exact propext ⟨fun h => by omega, fun h => by omega⟩
  · have hne : ¬ address / 4 = other / 4 := by
      intro h
      apply hword
      unfold getLiveWordAddress
      omega
    rw [Function.update_of_ne hword, decide_eq_false hne, Bool.or_false]

/-! ## The space -/

/-- The space: the memory, the live words of its metadata, and the state of the collector. -/
structure MarkSweepSpace where
  memory : Memory
  liveWords : Memory
  markState : Nat
  allocState : Nat
  inMSCollection : Bool

namespace MarkSweepSpace

variable (build : Build) (space : MarkSweepSpace)

/-- `prepare(true)`. -/
def prepare : MarkSweepSpace :=
  if build.headerMarkBits then
    { space with
      allocState := if build.needsLogBitInHeader then space.markState ||| unloggedBit
        else space.markState
      markState := deltaMarkState build space.markState
      inMSCollection := true }
  else { space with liveWords := fun _ => 0, inMSCollection := true }

/-- `isLive`. -/
def isLive (object : Nat) : Bool :=
  if build.headerMarkBits then testMarkState build space.memory object space.markState
  else liveBitSet space.liveWords (refToAddress object)

/-- `isCellLive`. -/
def isCellLive (object : Nat) : Bool :=
  if !build.headerMarkBits then liveBitSet space.liveWords (refToAddress object)
  else testMarkState build space.memory object space.markState

/-- `traceObjectLabeled`, and whether it passes the object on to `processNode`. -/
def traceObjectLabeled (object : Nat) : MarkSweepSpace × Bool :=
  if build.headerMarkBits then
    let (memory, changed) := testAndMark space.memory object (markValue build space.markState)
    ({ space with memory := memory }, changed)
  else
    let (liveWords, changed) := testAndSetLiveBitLabeled build space.liveWords object
    ({ space with liveWords := liveWords }, changed)

/-- `TraceLocal.traceObject` of objects of the space, one after the other.  Their label sets are
objects of other spaces, or are among the objects. -/
def traceObjects (objects : List Nat) : MarkSweepSpace :=
  objects.foldl (fun space object => (space.traceObjectLabeled build object).1) space

/-! ### Marking -/

variable {build} {space}

/-- Tracing writes at most the status words of the objects. -/
theorem traceObjects_memory {objects : List Nat} {address : Nat}
    (h : ∀ object ∈ objects, address ≠ statusAddress object) :
    (space.traceObjects build objects).memory address = space.memory address := by
  induction objects generalizing space with
  | nil => rfl
  | cons head objects ih =>
      obtain ⟨hhead, hrest⟩ := List.forall_mem_cons.1 h
      rw [traceObjects, List.foldl_cons, ← traceObjects, ih hrest, traceObjectLabeled]
      split
      · exact testAndMark_of_ne space.memory head _ hhead
      · rfl

/-- With header bits, tracing writes the mark value into the status words. -/
theorem traceObjects_header (space : MarkSweepSpace) (hheader : build.headerMarkBits = true)
    (hvalue : markValue build space.markState < 16) (objects : List Nat) :
    (space.traceObjects build objects).markState = space.markState ∧
      ∀ object, object ∈ objects ∨
          space.memory (statusAddress object) % 16 = markValue build space.markState →
        (space.traceObjects build objects).memory (statusAddress object) % 16 =
          markValue build space.markState := by
  induction objects generalizing space with
  | nil =>
      refine ⟨rfl, fun object hobject => ?_⟩
      exact hobject.resolve_left List.not_mem_nil
  | cons head objects ih =>
      have hstep : (space.traceObjectLabeled build head).1 = { space with
          memory := (testAndMark space.memory head (markValue build space.markState)).1 } := by
        rw [traceObjectLabeled, if_pos hheader]
      rw [traceObjects, List.foldl_cons, hstep, ← traceObjects]
      obtain ⟨hstate, hmarked⟩ := ih { space with
        memory := (testAndMark space.memory head (markValue build space.markState)).1 } hvalue
      refine ⟨hstate, fun object hobject => hmarked object ?_⟩
      by_cases hsame : statusAddress object = statusAddress head
      · refine .inr ?_
        rw [hsame]
        exact testAndMark_self hvalue space.memory head
      · refine hobject.imp (fun hmem => ?_) fun hbefore => ?_
        · exact (List.mem_cons.1 hmem).resolve_left fun heq => hsame (congrArg _ heq)
        · exact (congrArg (· % 16) (testAndMark_of_ne space.memory head _ hsame)).trans hbefore

/-- With the side bitmap, tracing sets the bits of the objects' first label slots. -/
theorem traceObjects_bitmap (hbitmap : build.headerMarkBits = false) (objects : List Nat)
    (address : Nat) :
    liveBitSet (space.traceObjects build objects).liveWords address = true ↔
      liveBitSet space.liveWords address = true ∨
        ∃ object ∈ objects, (objectStartRef build object - labelBytes) / 4 = address / 4 := by
  induction objects generalizing space with
  | nil => simp [traceObjects]
  | cons head objects ih =>
      have hstep : (space.traceObjectLabeled build head).1 = { space with
          liveWords := (testAndSetLiveBitLabeled build space.liveWords head).1 } := by
        rw [traceObjectLabeled, if_neg (by rw [hbitmap]; decide)]
      rw [traceObjects, List.foldl_cons, hstep, ← traceObjects, ih]
      dsimp only
      rw [testAndSetLiveBitLabeled, liveBitSet_setLiveBit, Bool.or_eq_true, decide_eq_true_eq,
        or_assoc]
      simp only [List.mem_cons, exists_eq_or_imp]

end MarkSweepSpace

/-! ## The sweep -/

/-- `Memory.zeroSmall`. -/
def zeroSmall (memory : Memory) (start extent : Nat) : Memory := fun address =>
  if start ≤ address ∧ address < start + extent then 0 else memory address

/-- The space and the ends of the free list, in `makeFreeList`. -/
structure Sweep where
  space : MarkSweepSpace
  firstFree : Nat
  lastFree : Nat

/-- The cell at `cursor` is free: link it to the list and clear it. -/
def freeCell (cellExtent : Nat) (sweep : Sweep) (cursor : Nat) : Sweep :=
  let memory :=
    if sweep.firstFree = 0 then sweep.space.memory
    else Function.update sweep.space.memory sweep.lastFree cursor
  { space := { sweep.space with memory := zeroSmall memory cursor cellExtent }
    firstFree := if sweep.firstFree = 0 then cursor else sweep.firstFree
    lastFree := cursor }

/-- Whether `makeFreeList` takes the cell at `cursor` to be free. -/
def isFree (build : Build) (labeledSpace : Space) (space : MarkSweepSpace) (cursor : Nat) : Bool :=
  match getObjectFromStartAddress build labeledSpace space.memory cursor with
  | none => true
  | some current => !space.isCellLive build current

/-- The body of the loop of `makeFreeList`. -/
def sweepCell (build : Build) (labeledSpace : Space) (cellExtent : Nat) (sweep : Sweep)
    (cursor : Nat) : Sweep :=
  if isFree build labeledSpace sweep.space cursor then freeCell cellExtent sweep cursor else sweep

/-- The loop of `makeFreeList`, for the cells that are left in the block. -/
def sweepCells (build : Build) (labeledSpace : Space) (cellExtent : Nat) :
    Nat → Nat → Sweep → Sweep
  | 0, _, sweep => sweep
  | cells + 1, cursor, sweep =>
      sweepCells build labeledSpace cellExtent cells (cursor + cellExtent)
        (sweepCell build labeledSpace cellExtent sweep cursor)

/-- `makeFreeList`, of a block of cells behind its header. -/
def makeFreeList (build : Build) (labeledSpace : Space) (first cellExtent cells : Nat)
    (space : MarkSweepSpace) : Sweep :=
  sweepCells build labeledSpace cellExtent cells first ⟨space, 0, 0⟩

/-! ## Blocks -/

/-- A block of the labeled space.  Each cell is free or holds an object; nothing is known of the
memory of a free cell. -/
structure Block (build : Build) (labeledSpace : Space) (memory : Memory) where
  first : Nat
  cellExtent : Nat
  cells : Nat
  occupant : Nat → Option (Occupant build cellExtent)
  first_pos : 0 < first
  first_aligned : first % 4 = 0
  cellExtent_pos : 0 < cellExtent
  cellExtent_aligned : cellExtent % 4 = 0
  start_le : labeledSpace.start.toNat ≤ first
  end_le : first + cells * cellExtent ≤ labeledSpace.limit
  end_lt : first + cells * cellExtent < 2 ^ 32
  holds : ∀ i < cells, ∀ o, occupant i = some o → o.Holds (first + i * cellExtent) memory

namespace Block

variable {build : Build} {labeledSpace : Space} {memory : Memory}
  (block : Block build labeledSpace memory)

/-- The address of a cell. -/
def cell (i : Nat) : Nat := block.first + i * block.cellExtent

/-- The address is one of the cell. -/
def InCell (i address : Nat) : Prop :=
  block.cell i ≤ address ∧ address < block.cell i + block.cellExtent

theorem cell_aligned (i : Nat) : block.cell i % 4 = 0 := by
  have hfirst := block.first_aligned
  have hextent : i * block.cellExtent % 4 = 0 := by
    rw [Nat.mul_mod, block.cellExtent_aligned, Nat.mul_zero, Nat.zero_mod]
  unfold cell
  omega

theorem cell_ne_zero (i : Nat) : block.cell i ≠ 0 := by
  have hfirst := block.first_pos
  unfold cell
  omega

theorem cell_succ (i : Nat) : block.cell (i + 1) = block.cell i + block.cellExtent := by
  rw [cell, cell, Nat.succ_mul, Nat.add_assoc]

theorem inCell_self (i : Nat) : block.InCell i (block.cell i) :=
  ⟨Nat.le_refl _, Nat.lt_add_of_pos_right block.cellExtent_pos⟩

variable {block}

/-- Cells do not overlap. -/
theorem InCell.eq {i j address : Nat} (hi : block.InCell i address) (hj : block.InCell j address) :
    i = j := by
  have hdiv : ∀ {k}, block.InCell k address → (address - block.first) / block.cellExtent = k := by
    rintro k ⟨hle, hlt⟩
    unfold cell at hle hlt
    refine Nat.div_eq_of_lt_le (by omega) ?_
    rw [Nat.succ_mul]
    omega
  exact (hdiv hi).symm.trans (hdiv hj)

theorem cell_inj {i j : Nat} (h : block.cell i = block.cell j) : i = j := by
  have hi := block.inCell_self i
  rw [h] at hi
  exact hi.eq (block.inCell_self j)

variable (block)

/-- An object of the block. -/
structure Object where
  index : Nat
  occupant : Occupant build block.cellExtent
  index_lt : index < block.cells
  occupies : block.occupant index = some occupant

namespace Object

variable {block} (object : block.Object)

/-- The cell of the object. -/
def cell : Nat := block.cell object.index

/-- The reference of the object. -/
def ref : Nat := object.occupant.ref object.cell

/-- The object that the sweep finds in the cell. -/
def found : Nat := if build.knowsLabels then object.ref else object.ref - labelBytes

/-- The address of the label slots. -/
def region : Nat := object.occupant.region object.cell

theorem ref_eq : object.ref = object.region + 8 + build.refOffset := rfl

theorem status_ref :
    statusAddress object.ref = object.region + 4 * build.otherHeaderWords + 12 := by
  rw [statusAddress, ref_eq, build.refOffset_eq]
  omega

theorem status_found : statusAddress object.found = object.region + 4 * build.otherHeaderWords +
    if build.knowsLabels then 12 else 4 := by
  rw [found]
  split
  · exact object.status_ref
  · rw [statusAddress, ref_eq, build.refOffset_eq, labelBytes]
    omega

/-- What the collector reads of an object, from the label slots to the status word, is in the
object's cell. -/
theorem inCell {address : Nat} (hle : object.cell ≤ address)
    (hlt : address ≤ object.region + 4 * build.otherHeaderWords + 12) :
    block.InCell object.index address := by
  have hstatus := object.occupant.status_lt (block.cell_aligned object.index)
  have hregion : object.occupant.region (block.cell object.index) = object.region := rfl
  rw [labelBytes, hregion] at hstatus
  exact ⟨hle, by omega⟩

theorem cell_le_region : object.cell ≤ object.region := Nat.le_add_right ..

theorem region_aligned : object.region % 4 = 0 := by
  have hcell : object.cell % 4 = 0 := block.cell_aligned object.index
  have hregion : object.region = object.cell + 4 * object.occupant.gapWords object.cell := rfl
  omega

theorem region_has : labeledSpace.Has object.region := by
  obtain ⟨hle, hlt⟩ := object.inCell object.cell_le_region (by omega)
  have hnext : block.cell object.index + block.cellExtent ≤
      block.first + block.cells * block.cellExtent := by
    rw [← block.cell_succ]
    exact Nat.add_le_add_left (Nat.mul_le_mul_right _ object.index_lt) _
  have hstart := block.start_le
  have hend := block.end_le
  have hfirst : block.first ≤ block.cell object.index := Nat.le_add_right ..
  exact ⟨by omega, by omega⟩

theorem status_inCell : block.InCell object.index (statusAddress object.ref) := by
  have hle := object.cell_le_region
  rw [status_ref]
  exact object.inCell (by omega) (Nat.le_refl _)

theorem status_found_inCell : block.InCell object.index (statusAddress object.found) := by
  have hle := object.cell_le_region
  rw [status_found]
  split
  · exact object.inCell (by omega) (by omega)
  · exact object.inCell (by omega) (by omega)

variable {object}

/-- A cell holds one object. -/
theorem ref_eq_of_index {other : block.Object} (h : object.index = other.index) :
    object.ref = other.ref := by
  have hoccupant : object.occupant = other.occupant := by
    have heq := object.occupies
    rw [h, other.occupies] at heq
    exact (Option.some.inj heq).symm
  rw [ref, ref, cell, cell, h, hoccupant]

/-- The object of a cell is found in any memory that agrees on its first words. -/
theorem holds_of_eq {memory' memory'' : Memory}
    (hholds : object.occupant.Holds object.cell memory')
    (heq : ∀ address, object.cell ≤ address → address ≤ object.region →
      memory'' address = memory' address) : object.occupant.Holds object.cell memory'' := by
  have hregion : object.region = object.cell + 4 * object.occupant.gapWords object.cell := rfl
  refine ⟨fun k hk => ?_, ?_⟩
  · rw [heq _ (Nat.le_add_right ..) (by omega)]
    exact hholds.gap k hk
  · exact (congrArg (· % 2) (heq _ object.cell_le_region (Nat.le_refl _))).trans hholds.slot

end Object

/-! ### The invariant of the sweep -/

/-- The state of a sweep of `space` that has passed `i` cells and linked those of `freed`. -/
structure Swept (space : MarkSweepSpace) (i : Nat) (sweep : Sweep) (freed : List Nat) : Prop where
  chain : Chain sweep.space.memory 0 sweep.firstFree freed
  last : freed = [] ∨ ∃ front, freed = front ++ [sweep.lastFree]
  nodup : freed.Nodup
  passed : ∀ c ∈ freed, ∃ j < i, c = block.cell j
  dead : ∀ object : block.Object, object.index < i →
    (object.cell ∈ freed ↔ space.isCellLive build object.found = false)
  kept : ∀ j address, block.InCell j address → block.cell j ∉ freed →
    sweep.space.memory address = space.memory address
  liveWords : sweep.space.liveWords = space.liveWords
  markState : sweep.space.markState = space.markState

section Sweep

variable {block} {space : MarkSweepSpace} {i : Nat} {sweep : Sweep} {freed : List Nat}

theorem swept_zero : block.Swept space 0 ⟨space, 0, 0⟩ [] where
  chain := rfl
  last := .inl rfl
  nodup := List.nodup_nil
  passed := fun _ hc => absurd hc List.not_mem_nil
  dead := fun _ hindex => absurd hindex (Nat.not_lt_zero _)
  kept := fun _ _ _ _ => rfl
  liveWords := rfl
  markState := rfl

theorem Swept.cell_notMem (h : block.Swept space i sweep freed) : block.cell i ∉ freed := by
  intro hmem
  obtain ⟨j, hj, hcell⟩ := h.passed _ hmem
  exact absurd (cell_inj hcell) (by omega)

/-- The sweep finds the object of the next cell, and its mark. -/
theorem Swept.isFree_next (h : block.Swept space i sweep freed)
    (hholds : ∀ object : block.Object, object.occupant.Holds object.cell space.memory)
    (object : block.Object) (hindex : object.index = i) :
    isFree build labeledSpace sweep.space (block.cell i) =
      !space.isCellLive build object.found := by
  subst hindex
  have hmemory : ∀ address, block.InCell object.index address →
      sweep.space.memory address = space.memory address :=
    fun address haddress => h.kept _ address haddress h.cell_notMem
  have hfound : getObjectFromStartAddress build labeledSpace sweep.space.memory
      (block.cell object.index) = some object.found := by
    refine object.occupant.getObjectFromStartAddress_eq (block.cell_aligned _) object.region_has
      (Object.holds_of_eq (hholds object) fun address hle hlt => ?_)
    exact hmemory address (object.inCell hle (by omega))
  have hlive : sweep.space.isCellLive build object.found =
      space.isCellLive build object.found := by
    rw [MarkSweepSpace.isCellLive, MarkSweepSpace.isCellLive, h.liveWords, h.markState,
      testMarkState, testMarkState, hmemory _ object.status_found_inCell]
  rw [isFree, hfound]
  exact congrArg (!·) hlive

/-- The next cell is left as it is. -/
theorem Swept.keep (h : block.Swept space i sweep freed)
    (hlive : ∀ object : block.Object, object.index = i →
      space.isCellLive build object.found = true) : block.Swept space (i + 1) sweep freed where
  chain := h.chain
  last := h.last
  nodup := h.nodup
  passed := fun c hc => by
    obtain ⟨j, hj, hcell⟩ := h.passed c hc
    exact ⟨j, by omega, hcell⟩
  dead := fun object hindex => by
    by_cases hsame : object.index = i
    · rw [hlive object hsame]
      refine iff_of_false ?_ (by decide)
      rw [Object.cell, hsame]
      exact h.cell_notMem
    · exact h.dead object (by omega)
  kept := h.kept
  liveWords := h.liveWords
  markState := h.markState

theorem zeroSmall_cell (memory' : Memory) (i : Nat) :
    zeroSmall memory' (block.cell i) block.cellExtent (block.cell i) = 0 :=
  if_pos (block.inCell_self i)

theorem zeroSmall_of_notIn {memory' : Memory} {address : Nat} (h : ¬ block.InCell i address) :
    zeroSmall memory' (block.cell i) block.cellExtent address = memory' address :=
  if_neg h

/-- Clearing the next cell leaves the links of the list. -/
theorem Swept.zeroSmall_freed (h : block.Swept space i sweep freed) (memory' : Memory) {c : Nat}
    (hc : c ∈ freed) : zeroSmall memory' (block.cell i) block.cellExtent c = memory' c := by
  obtain ⟨j, hj, rfl⟩ := h.passed c hc
  exact zeroSmall_of_notIn fun hin => absurd ((block.inCell_self j).eq hin) (by omega)

/-- The next cell is linked to the list and cleared. -/
theorem Swept.free (h : block.Swept space i sweep freed)
    (hdead : ∀ object : block.Object, object.index = i →
      space.isCellLive build object.found = false) :
    block.Swept space (i + 1) (freeCell block.cellExtent sweep (block.cell i))
      (freed ++ [block.cell i]) where
  chain := by
    dsimp only [freeCell]
    rcases h.last with rfl | ⟨front, rfl⟩
    · have hempty : sweep.firstFree = 0 := h.chain
      rw [if_pos hempty, if_pos hempty]
      exact chain_singleton (block.cell_ne_zero i) (zeroSmall_cell _ i)
    · have hne : sweep.firstFree ≠ 0 := fun hempty => by
        simpa using h.chain.head_eq_nil_iff.1 hempty
      rw [if_neg hne, if_neg hne]
      refine h.chain.snoc (fun b hb => ?_) ?_ (block.cell_ne_zero i) (zeroSmall_cell _ i)
      · have hlast : b ≠ sweep.lastFree := fun heq =>
          (List.nodup_append.1 h.nodup).2.2 b hb _ (List.mem_singleton_self _) heq
        rw [h.zeroSmall_freed _ (List.mem_append_left _ hb), Function.update_of_ne hlast]
      · rw [h.zeroSmall_freed _ (List.mem_append_right _ (List.mem_singleton_self _)),
          Function.update_self]
  last := .inr ⟨freed, rfl⟩
  nodup := by
    refine List.nodup_append.2 ⟨h.nodup, List.pairwise_singleton _ _, fun c hc c' hc' heq => ?_⟩
    rw [heq, List.mem_singleton.1 hc'] at hc
    exact h.cell_notMem hc
  passed := fun c hc => by
    rcases List.mem_append.1 hc with hc | hc
    · obtain ⟨j, hj, hcell⟩ := h.passed c hc
      exact ⟨j, by omega, hcell⟩
    · exact ⟨i, by omega, List.mem_singleton.1 hc⟩
  dead := fun object hindex => by
    rw [List.mem_append, List.mem_singleton, Object.cell]
    by_cases hsame : object.index = i
    · exact iff_of_true (.inr (congrArg block.cell hsame)) (hdead object hsame)
    · rw [or_iff_left fun hcell => hsame (cell_inj hcell)]
      exact h.dead object (by omega)
  kept := fun j address haddress hj => by
    obtain ⟨hfreed, hi⟩ := not_or.1 (mt List.mem_append.2 hj)
    dsimp only [freeCell]
    rw [zeroSmall_of_notIn fun hin => hi (by rw [haddress.eq hin]; exact List.mem_singleton_self _)]
    split
    · exact h.kept j address haddress hfreed
    · rename_i hne
      rw [Function.update_of_ne fun heq => ?_]
      · exact h.kept j address haddress hfreed
      · have hmem : sweep.lastFree ∈ freed := by
          rcases h.last with rfl | ⟨front, rfl⟩
          · exact absurd h.chain hne
          · exact List.mem_append_right _ (List.mem_singleton_self _)
        obtain ⟨k, -, hk⟩ := h.passed _ hmem
        have hjk : j = k := haddress.eq (by rw [heq, hk]; exact block.inCell_self k)
        rw [hjk, ← hk] at hfreed
        exact hfreed hmem
  liveWords := h.liveWords
  markState := h.markState

theorem Swept.step (h : block.Swept space i sweep freed)
    (hholds : ∀ object : block.Object, object.occupant.Holds object.cell space.memory) :
    ∃ freed', block.Swept space (i + 1)
      (sweepCell build labeledSpace block.cellExtent sweep (block.cell i)) freed' := by
  rw [sweepCell]
  cases hfree : isFree build labeledSpace sweep.space (block.cell i) with
  | true =>
      refine ⟨_, h.free fun object hindex => ?_⟩
      rw [h.isFree_next hholds object hindex, Bool.not_eq_true'] at hfree
      exact hfree
  | false =>
      refine ⟨freed, h.keep fun object hindex => ?_⟩
      rw [h.isFree_next hholds object hindex, Bool.not_eq_false'] at hfree
      exact hfree

theorem Swept.steps (h : block.Swept space i sweep freed)
    (hholds : ∀ object : block.Object, object.occupant.Holds object.cell space.memory) (n : Nat) :
    ∃ freed', block.Swept space (i + n)
      (sweepCells build labeledSpace block.cellExtent n (block.cell i) sweep) freed' := by
  induction n generalizing i sweep freed with
  | zero => exact ⟨freed, h⟩
  | succ n ih =>
      obtain ⟨freed', hstep⟩ := h.step hholds
      rw [sweepCells, ← block.cell_succ, Nat.add_succ, ← Nat.succ_add]
      exact ih hstep

variable (block space)

/-- `makeFreeList` of the block. -/
def makeFreeList : Sweep :=
  Mm.makeFreeList build labeledSpace block.first block.cellExtent block.cells space

variable {space}

/-- **What the sweep of a block does.**  The cell of an object comes into the free list exactly if
what the sweep finds there is not live; a cell that does not is left as it is. -/
theorem makeFreeList_spec
    (hholds : ∀ object : block.Object, object.occupant.Holds object.cell space.memory)
    (object : block.Object) :
    (OnChain (block.makeFreeList space).space.memory 0 (block.makeFreeList space).firstFree
        object.cell ↔ space.isCellLive build object.found = false) ∧
      (space.isCellLive build object.found = true → ∀ address, block.InCell object.index address →
        (block.makeFreeList space).space.memory address = space.memory address) := by
  obtain ⟨freed, hsteps⟩ := swept_zero.steps hholds block.cells
  have hswept : block.Swept space block.cells (block.makeFreeList space) freed := by
    rw [Nat.zero_add, cell, Nat.zero_mul, Nat.add_zero] at hsteps
    exact hsteps
  have hdead := hswept.dead object object.index_lt
  refine ⟨hswept.chain.onChain_iff.trans hdead, fun hlive address haddress => ?_⟩
  refine hswept.kept _ address haddress fun hmem => ?_
  exact absurd (hdead.1 hmem) (by rw [hlive]; decide)

end Sweep

end Block

/-! ## A collection -/

section Collection

variable {build : Build} {labeledSpace : Space} (space : MarkSweepSpace)
  (block : Block build labeledSpace space.memory)

/-- The space after the objects were traced. -/
def Block.traced (objects : List block.Object) : MarkSweepSpace :=
  (space.prepare build).traceObjects build (objects.map Block.Object.ref)

theorem prepare_memory : (space.prepare build).memory = space.memory := by
  rw [MarkSweepSpace.prepare]
  split <;> rfl

variable {space block} (objects : List block.Object)

/-- Tracing leaves what is in front of the status word of an object. -/
theorem traced_memory (object : block.Object) {address : Nat} (hle : object.cell ≤ address)
    (hlt : address < object.region + 4 * build.otherHeaderWords + 12) :
    (block.traced space objects).memory address = space.memory address := by
  rw [Block.traced, MarkSweepSpace.traceObjects_memory, prepare_memory]
  intro ref href
  obtain ⟨other, -, rfl⟩ := List.mem_map.1 href
  intro heq
  have hin : block.InCell object.index (statusAddress other.ref) :=
    heq ▸ object.inCell hle (Nat.le_of_lt hlt)
  have href := Block.Object.ref_eq_of_index (hin.eq other.status_inCell)
  rw [← href, object.status_ref] at heq
  omega

theorem traced_holds (object : block.Object) :
    object.occupant.Holds object.cell (block.traced space objects).memory :=
  Block.Object.holds_of_eq (block.holds _ object.index_lt _ object.occupies)
    fun _ hle hlt => traced_memory objects object hle (by omega)

/-- With header bits, a traced object has the new mark state. -/
theorem traced_markState (hheader : build.headerMarkBits = true) :
    (block.traced space objects).markState = deltaMarkState build space.markState ∧
      ∀ object ∈ objects, testMarkState build (block.traced space objects).memory object.ref
        (deltaMarkState build space.markState) = true := by
  have hstate : (space.prepare build).markState = deltaMarkState build space.markState := by
    rw [MarkSweepSpace.prepare, if_pos hheader]
  have hlt := deltaMarkState_lt build space.markState
  obtain ⟨htraced, hmarked⟩ := MarkSweepSpace.traceObjects_header (space.prepare build) hheader
    (by rw [hstate]; exact (markValue_eq hlt).2) (objects.map Block.Object.ref)
  rw [hstate] at htraced hmarked
  refine ⟨htraced, fun object hobject => testMarkState_of_markValue hlt ?_⟩
  exact hmarked _ (.inl (List.mem_map_of_mem hobject))

/-- With the side bitmap, the bit of the header of an object is never set. -/
theorem traced_liveBit (hbitmap : build.headerMarkBits = false) (object : block.Object) :
    liveBitSet (block.traced space objects).liveWords (refToAddress object.ref) = false := by
  rw [← Bool.not_eq_true, Block.traced, MarkSweepSpace.traceObjects_bitmap hbitmap]
  rintro (hset | ⟨ref, href, hsame⟩)
  · have hzero : (space.prepare build).liveWords = fun _ => 0 := by
      rw [MarkSweepSpace.prepare, if_neg (by rw [hbitmap]; decide)]
    rw [liveBitSet, hzero, Nat.zero_testBit] at hset
    exact Bool.false_ne_true hset
  · obtain ⟨other, -, rfl⟩ := List.mem_map.1 href
    have hslot : objectStartRef build other.ref - labelBytes = other.region := by
      rw [objectStartRef, other.ref_eq, labelBytes]
      omega
    have hheader : refToAddress object.ref = object.region + 4 * build.otherHeaderWords + 8 := by
      rw [refToAddress, object.ref_eq, build.refOffset_eq]
      omega
    have hregion : other.region = object.region + 4 * build.otherHeaderWords + 8 := by
      have hother := other.region_aligned
      have hobject := object.region_aligned
      omega
    have hin : block.InCell object.index other.region := by
      have hle := object.cell_le_region
      exact object.inCell (by omega) (by omega)
    have href := Block.Object.ref_eq_of_index
      (hin.eq (other.inCell other.cell_le_region (by omega)))
    rw [object.ref_eq, other.ref_eq] at href
    omega

variable (block) in
/-- The object is live after the marking, and the sweep neither links its cell into the free list
nor clears it. -/
structure Block.Survives (marked : MarkSweepSpace) (object : block.Object) : Prop where
  live : marked.isLive build object.ref = true
  unlinked : ¬ OnChain (block.makeFreeList marked).space.memory 0
    (block.makeFreeList marked).firstFree object.cell
  kept : ∀ address, block.InCell object.index address →
    (block.makeFreeList marked).space.memory address = marked.memory address

/-- Two liveness tests decide: that of the object, and that of what the sweep takes for it. -/
theorem survives_iff_live (object : block.Object) :
    block.Survives (block.traced space objects) object ↔
      (block.traced space objects).isLive build object.ref = true ∧
        (block.traced space objects).isCellLive build object.found = true := by
  obtain ⟨hlinked, hkept⟩ := block.makeFreeList_spec (traced_holds objects) object
  constructor
  · intro h
    exact ⟨h.live, Bool.not_eq_false _ ▸ mt hlinked.2 h.unlinked⟩
  · rintro ⟨hlive, hcell⟩
    refine ⟨hlive, fun hon => ?_, hkept hcell⟩
    rw [hlinked.1 hon] at hcell
    exact Bool.false_ne_true hcell

/-- With header bits the sweep looks at the mark of the object, or two words in front of it. -/
theorem isCellLive_found (hheader : build.headerMarkBits = true) {object : block.Object}
    (hobject : object ∈ objects) :
    (block.traced space objects).isCellLive build object.found = true ↔
      build.knowsLabels = true ∨ testMarkState build space.memory (object.ref - labelBytes)
        (deltaMarkState build space.markState) = true := by
  obtain ⟨hstate, hmarked⟩ := traced_markState objects hheader
  rw [MarkSweepSpace.isCellLive, if_neg (by rw [hheader]; decide), hstate]
  cases hknows : build.knowsLabels with
  | true =>
      rw [Block.Object.found, if_pos hknows]
      exact iff_of_true (hmarked object hobject) (.inl rfl)
  | false =>
      have hfound : object.found = object.ref - labelBytes := by
        rw [Block.Object.found, if_neg (by rw [hknows]; decide)]
      have hstatus := object.status_found
      have hle := object.cell_le_region
      rw [hknows, if_neg (by decide)] at hstatus
      rw [← hfound, testMarkState, testMarkState,
        traced_memory objects object (by omega) (by omega)]
      exact (or_iff_right Bool.false_ne_true).symm

/-- **When traced objects survive.**  All objects of a block that a collection traces survive it
exactly if there are none, or if the marks are in the headers and the sweep reads them there: it
counts the label slots, or the word two in front of each status word happens to look like a
mark. -/
theorem traced_survive_iff (build : Build) (labeledSpace : Space) (space : MarkSweepSpace)
    (block : Block build labeledSpace space.memory) (objects : List block.Object) :
    (∀ object ∈ objects, block.Survives (block.traced space objects) object) ↔
      objects = [] ∨ (build.headerMarkBits = true ∧
        (build.knowsLabels = true ∨ ∀ object ∈ objects,
          testMarkState build space.memory (object.ref - labelBytes)
            (deltaMarkState build space.markState) = true)) := by
  simp only [survives_iff_live]
  cases hheader : build.headerMarkBits with
  | false =>
      have hdead : ∀ object : block.Object,
          (block.traced space objects).isLive build object.ref = false := fun object => by
        rw [MarkSweepSpace.isLive, if_neg (by rw [hheader]; decide)]
        exact traced_liveBit objects hheader object
      constructor
      · intro h
        cases objects with
        | nil => exact .inl rfl
        | cons object objects =>
            have hlive := (h object List.mem_cons_self).1
            rw [hdead] at hlive
            exact absurd hlive Bool.false_ne_true
      · rintro (rfl | ⟨hfalse, -⟩)
        · exact fun _ hobject => absurd hobject List.not_mem_nil
        · exact absurd hfalse Bool.false_ne_true
  | true =>
      have hlive : ∀ object ∈ objects,
          (block.traced space objects).isLive build object.ref = true := fun object hobject => by
        obtain ⟨hstate, hmarked⟩ := traced_markState objects hheader
        rw [MarkSweepSpace.isLive, if_pos hheader, hstate]
        exact hmarked object hobject
      constructor
      · intro h
        refine .inr ⟨rfl, or_iff_not_imp_left.2 fun hknows object hobject => ?_⟩
        have hfound := (isCellLive_found objects hheader hobject).1 (h object hobject).2
        exact hfound.resolve_left hknows
      · intro h object hobject
        refine ⟨hlive object hobject, (isCellLive_found objects hheader hobject).2 ?_⟩
        rcases h with rfl | ⟨-, hknows | hmark⟩
        · exact absurd hobject List.not_mem_nil
        · exact .inl hknows
        · exact .inr (hmark object hobject)

end Collection

/-- The builds that differ in where the marks are. -/
def usualBuild (headerMarkBits : Bool) : Build where
  headerMarkBits := headerMarkBits
  needsLogBitInHeader := false
  markSweepMarkBits := 2
  difcEnabled := true
  difcBarriers := true
  difcNoStaticOrAllocBarriers := false
  buildForIA32 := true
  otherHeaderWords := 0
  markBits_le := by decide

/-- An object of 16 bytes in a cell of 36, which has room for its alignment. -/
def alignedObject (headerMarkBits : Bool) : Occupant (usualBuild headerMarkBits) 36 where
  request := ⟨16, 16, by decide, by decide, by decide, .inr (.inr ⟨rfl, rfl⟩)⟩
  offset := 8
  offset_aligned := by decide
  header_le := by cases headerMarkBits <;> decide
  fits := by cases headerMarkBits <;> decide

/-- A space that the object was allocated in, eight bytes into the first cell. -/
def oneObjectSpace : MarkSweepSpace where
  memory := fun address => if address < 0x10000108 then alignmentValue else 4
  liveWords := fun _ => 0
  markState := 1
  allocState := 0
  inMSCollection := false

/-- A block of two cells, with the object in the first. -/
def oneObjectBlock (headerMarkBits : Bool) :
    Block (usualBuild headerMarkBits) onePage oneObjectSpace.memory where
  first := 0x10000100
  cellExtent := 36
  cells := 2
  occupant := fun i => if i = 0 then some (alignedObject headerMarkBits) else none
  first_pos := by decide
  first_aligned := by decide
  cellExtent_pos := by decide
  cellExtent_aligned := by decide
  start_le := by decide
  end_le := by decide
  end_lt := by decide
  holds := fun i _ o ho => by
    split at ho
    · rename_i hi
      obtain rfl := Option.some.inj ho
      subst hi
      exact ⟨by cases headerMarkBits <;> decide, by cases headerMarkBits <;> decide⟩
    · cases ho

/-- The object of the block. -/
def oneObject (headerMarkBits : Bool) : (oneObjectBlock headerMarkBits).Object :=
  ⟨0, alignedObject headerMarkBits, Nat.zero_lt_two, rfl⟩

/-- With the mark in its header, the object survives a collection that traces it. -/
theorem headerMark_survives :
    (oneObjectBlock true).Survives
      ((oneObjectBlock true).traced oneObjectSpace [oneObject true]) (oneObject true) :=
  (traced_survive_iff (usualBuild true) onePage oneObjectSpace (oneObjectBlock true)
    [oneObject true]).2 (.inr ⟨rfl, .inl rfl⟩) (oneObject true) List.mem_cons_self

/-- With the side bitmap, the object is traced and a bit is set, but it is not live.  The sweep
links its cell into the free list and clears it, with the label of the object. -/
theorem bitmapMark_lost :
    let block := oneObjectBlock false
    let marked := block.traced oneObjectSpace [oneObject false]
    (oneObjectSpace.prepare (usualBuild false)).traceObjectLabeled (usualBuild false)
        (oneObject false).ref = (marked, true) ∧
      marked.isLive (usualBuild false) (oneObject false).ref = false ∧
      OnChain (block.makeFreeList marked).space.memory 0 (block.makeFreeList marked).firstFree
        (oneObject false).cell ∧
      marked.memory (oneObject false).region = 4 ∧
      (block.makeFreeList marked).space.memory (oneObject false).region = 0 ∧
      ¬ block.Survives marked (oneObject false) := by
  have hdead : ((oneObjectBlock false).traced oneObjectSpace [oneObject false]).isLive
      (usualBuild false) (oneObject false).ref = false :=
    traced_liveBit [oneObject false] rfl (oneObject false)
  refine ⟨rfl, hdead, ?_, rfl, rfl, fun h => ?_⟩
  · refine ((oneObjectBlock false).makeFreeList_spec (traced_holds [oneObject false])
      (oneObject false)).1.2 ?_
    exact hdead
  · have hlive := h.live
    rw [hdead] at hlive
    exact Bool.false_ne_true hlive

end Laminar.Mm
