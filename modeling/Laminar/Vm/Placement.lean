import Laminar.Vm.Barriers

/-!
# Where an object lies

The reference of an object without fields or of an array without elements is at or behind the
end of the object's own memory.  The barriers outside a region, which do not move the bounds of
the labeled space, err for such objects at its two ends.  An object that is larger than an array
header is never mistaken.
-/

namespace Laminar.Vm

-- what the collector and the build options put into a header
variable (otherHeaderBytes : Nat)

/-! ## Objects in memory -/

/-- The memory of an object: header and fields, and the label slots in front of the header of
a labeled object. -/
structure ObjectCell where
  labelSlots : Bool
  header : Nat
  size : Nat
  header_le_size : scalarHeaderSize otherHeaderBytes ≤ size
  slots_le_header : labelSlots = true → labelBytes ≤ header
  no_wrap : header + size ≤ 2 ^ 32

namespace ObjectCell

variable {otherHeaderBytes} (obj : ObjectCell otherHeaderBytes) (labeledSpace : Space)

/-- The first byte. -/
def first : Nat := if obj.labelSlots then obj.header - labelBytes else obj.header

/-- The reference. -/
def ref : Address := BitVec.ofNat 32 (obj.header + objectRefOffset otherHeaderBytes)

/-- All bytes lie in the space. -/
def Inside : Prop :=
  labeledSpace.start.toNat ≤ obj.first ∧ obj.header + obj.size ≤ labeledSpace.limit

/-- No byte lies in the space. -/
def Outside : Prop :=
  obj.header + obj.size ≤ labeledSpace.start.toNat ∨ labeledSpace.limit ≤ obj.first

/-- The object was placed as its labels say: with label slots in the labeled space, or without
them elsewhere. -/
def Places (labels : ObjectLabels) : Prop :=
  obj.labelSlots = labels.isLabeled ∧
    if labels.isLabeled then obj.Inside labeledSpace else obj.Outside labeledSpace

/-- The reference is on the same side of the ends of the space as the object.  Above the space
it may wrap around, and is then one of the first addresses. -/
def RefClear : Prop :=
  (obj.Inside labeledSpace →
    obj.header + objectRefOffset otherHeaderBytes < labeledSpace.limit) ∧
  (obj.Outside labeledSpace →
    obj.header + objectRefOffset otherHeaderBytes < labeledSpace.start.toNat ∨
    labeledSpace.extent.toNat = 0 ∨
    labeledSpace.limit ≤ obj.header ∧
      (obj.header + objectRefOffset otherHeaderBytes < 2 ^ 32 ∨ 0 < labeledSpace.start.toNat))

theorem first_le_header : obj.first ≤ obj.header := by
  unfold first
  split
  · exact Nat.sub_le _ _
  · exact Nat.le_refl _

theorem size_pos : 8 ≤ obj.size := by
  have hsize := obj.header_le_size
  simp only [scalarHeaderSize, javaHeaderBytes] at hsize
  omega

/-- The header is part of the object, so it lies where the object lies. -/
theorem inside_iff (h : obj.Inside labeledSpace ∨ obj.Outside labeledSpace) :
    obj.Inside labeledSpace ↔ labeledSpace.Has obj.header := by
  have hsize := obj.size_pos
  have hfirst := obj.first_le_header
  unfold Inside Outside at h
  unfold Inside Space.Has
  omega

theorem not_inside_of_outside (h : obj.Outside labeledSpace) : ¬ obj.Inside labeledSpace := by
  have hsize := obj.size_pos
  have hfirst := obj.first_le_header
  unfold Outside at h
  unfold Inside
  omega

theorem Places.inside_iff {labels : ObjectLabels} (h : obj.Places labeledSpace labels) :
    obj.Inside labeledSpace ↔ labels.isLabeled = true := by
  have hplace := h.2
  split at hplace
  · rename_i hlabeled
    exact iff_of_true hplace hlabeled
  · rename_i hlabeled
    exact iff_of_false (obj.not_inside_of_outside labeledSpace hplace) hlabeled

theorem Places.inside_or_outside {labels : ObjectLabels} (h : obj.Places labeledSpace labels) :
    obj.Inside labeledSpace ∨ obj.Outside labeledSpace := by
  have hplace := h.2
  split at hplace
  · exact Or.inl hplace
  · exact Or.inr hplace

/-- `isLabeled` finds the header. -/
theorem isLabeled_ref : labeledSpace.isLabeled otherHeaderBytes obj.ref = true ↔
    labeledSpace.Has obj.header := by
  have hsize := obj.size_pos
  have hwrap := obj.no_wrap
  have hheader : obj.ref - BitVec.ofNat 32 (objectRefOffset otherHeaderBytes) =
      BitVec.ofNat 32 obj.header := by
    rw [ref, BitVec.ofNat_add, BitVec.add_sub_cancel]
  rw [Space.isLabeled_eq, hheader, Space.isLabeledAddress_iff, BitVec.toNat_ofNat,
    Nat.mod_eq_of_lt (by omega)]

/-- The reference lies at most four bytes behind the end of the object. -/
theorem ref_le : obj.header + objectRefOffset otherHeaderBytes ≤ obj.header + obj.size + 4 := by
  have hsize := obj.header_le_size
  rw [objectRefOffset, arrayHeaderSize, arrayLengthBytes]
  omega

/-- The reference lies in the space exactly if the object does, or an end of the space is
between them. -/
theorem ref_has_iff (h : obj.Inside labeledSpace ∨ obj.Outside labeledSpace) :
    (labeledSpace.Has obj.ref.toNat ↔ obj.Inside labeledSpace) ↔ obj.RefClear labeledSpace := by
  have hsize := obj.size_pos
  have hwrap := obj.no_wrap
  have hfirst := obj.first_le_header
  have href := obj.ref_le
  obtain ⟨i, hi⟩ := labeledSpace.start_aligned
  obtain ⟨j, hj⟩ := labeledSpace.extent_aligned
  have hlimit := labeledSpace.no_wrap
  have htoNat : obj.ref.toNat =
      (obj.header + objectRefOffset otherHeaderBytes) % 2 ^ 32 := BitVec.toNat_ofNat _ _
  rw [bytesInPage] at hi hj
  unfold RefClear Space.Has
  rw [htoNat]
  unfold Inside Outside Space.limit at *
  omega

/-- **The barriers outside a region recognise exactly the objects of the labeled space**, and
`isLabeled` agrees with them, for the objects whose reference is clear of the ends of the
space and for no others. -/
theorem outsideSR_recognises_iff (h : obj.Inside labeledSpace ∨ obj.Outside labeledSpace) :
    (((∃ message, labeledSpace.readBarrierOutsideSR obj.ref = .difcException message) ↔
        labeledSpace.isLabeled otherHeaderBytes obj.ref = true) ∧
      ((∃ message, labeledSpace.writeBarrierOutsideSR obj.ref = .difcException message) ↔
        labeledSpace.isLabeled otherHeaderBytes obj.ref = true) ∧
      (labeledSpace.isLabeled otherHeaderBytes obj.ref = true ↔ obj.Inside labeledSpace)) ↔
    obj.RefClear labeledSpace := by
  have hlabeled : labeledSpace.isLabeled otherHeaderBytes obj.ref = true ↔
      obj.Inside labeledSpace := by
    rw [isLabeled_ref, inside_iff obj labeledSpace h]
  rw [Space.readBarrierOutsideSR, Space.writeBarrierOutsideSR,
    Space.accessOutsideSR_throws_iff, hlabeled, ← ref_has_iff obj labeledSpace h]
  exact ⟨fun hall => hall.1, fun hread => ⟨hread, hread, Iff.rfl⟩⟩

/-- An object that reaches beyond its reference is recognised wherever it lies. -/
theorem refClear_of_size (h : objectRefOffset otherHeaderBytes < obj.size) :
    obj.RefClear labeledSpace := by
  have hfirst := obj.first_le_header
  have hwrap := obj.no_wrap
  unfold RefClear Inside Outside Space.limit
  omega

end ObjectCell

/-! ## The ends of the space -/

/-- A labeled object with two fields, in the first bytes of the page. -/
def firstCell : ObjectCell 0 := ⟨true, 0x10000008, 16, by decide, by decide, by decide⟩

/-- Both barriers refuse it. -/
theorem firstCell_recognised :
    ((∃ message, onePage.readBarrierOutsideSR firstCell.ref = .difcException message) ↔
        onePage.isLabeled 0 firstCell.ref = true) ∧
      ((∃ message, onePage.writeBarrierOutsideSR firstCell.ref = .difcException message) ↔
        onePage.isLabeled 0 firstCell.ref = true) ∧
      (onePage.isLabeled 0 firstCell.ref = true ↔ firstCell.Inside onePage) :=
  (firstCell.outsideSR_recognises_iff onePage (Or.inl ⟨by decide, by decide⟩)).2
    (firstCell.refClear_of_size onePage (by decide))

/-- A labeled object without fields, in the last bytes of the page. -/
def lastCell : ObjectCell 0 := ⟨true, 0x10000ff8, 8, by decide, by decide, by decide⟩

/-- An unlabeled object without fields, right below the page. -/
def cellBelow : ObjectCell 0 := ⟨false, 0x0ffffff8, 8, by decide, by decide, by decide⟩

/-- The first is labeled and not refused, the second is unlabeled and refused. -/
theorem ends_mistaken :
    (lastCell.Inside onePage ∧ onePage.isLabeled 0 lastCell.ref = true ∧
      onePage.readBarrierOutsideSR lastCell.ref = .returned ∧
      onePage.writeBarrierOutsideSR lastCell.ref = .returned) ∧
    cellBelow.Outside onePage ∧ onePage.isLabeled 0 cellBelow.ref = false ∧
      onePage.readBarrierOutsideSR cellBelow.ref =
        .difcException "Labeled/Poisoned object accessed outside secure region" ∧
      onePage.writeBarrierOutsideSR cellBelow.ref =
        .difcException "Labeled/Poisoned object accessed outside secure region" :=
  ⟨⟨⟨by decide, by decide⟩, by decide, by decide, by decide⟩, Or.inl (by decide), by decide,
    by decide, by decide⟩

end Laminar.Vm
