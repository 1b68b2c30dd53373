import Laminar.Vm.LabelObjects

/-!
# Queries on label sets

`isSubsetOf` and `checkInUnion` on any three objects that are sets: strictly increasing up to
`len`, and empty only if they are `EMPTY`.  It does not matter how the objects were built.

The short cuts answer what the loops of `isSubsetOfSlowPath` and `checkInUnionSlowPath` would.
`trim` cuts every array to the `len` labels of its set; an index from `len` on is a fault there,
and the queries still return the same answers.
-/

namespace Laminar.Vm

open Laminar.Lib

namespace LabelObjects

/-- The same objects without the room behind their labels. -/
def trim (h : LabelObjects) : LabelObjects :=
  ⟨h.objects.map fun o => ⟨o.labels.take o.len, o.len⟩⟩

/-- `EMPTY` is there, every object is a set, and no array is too large for an `int`. -/
structure Sets (h : LabelObjects) : Prop where
  boot : emptyRef < h.objects.length
  guaranteed : h.Guaranteed
  arrays : ∀ o ∈ h.objects, o.labels.length < 2 ^ 31

section Queries

variable {h : LabelObjects} {l l1 l2 : LabelRef} {set s1 s2 : LabelSet}

theorem Sets.wellFormed (hs : h.Sets) : h.WellFormed := by
  have hbuilt : ∀ l < h.objects.length, ∃ set, h.Denotes l set := by
    intro l hl
    have hget : h.objects[l]? = some h.objects[l] := List.getElem?_eq_getElem hl
    have hmem : h.objects[l] ∈ h.objects := List.getElem_mem hl
    have hfits := hs.guaranteed.fits _ hmem
    refine ⟨⟨_, hs.guaranteed.increasing _ hmem⟩, _, hget, ⟨rfl, hfits, hs.arrays _ hmem⟩, ?_⟩
    -- a set is empty when `len` is 0, and only `EMPTY` has that
    rw [← hs.guaranteed.empty l _ hget]
    constructor
    · intro hzero
      apply LabelSet.eq_of_labels
      exact List.take_eq_nil_iff.2 (.inl hzero)
    · intro hempty
      have hlength := congrArg (fun set => set.labels.length) hempty
      dsimp only at hlength
      rw [List.length_take, Nat.min_eq_left hfits] at hlength
      exact hlength
  refine ⟨?_, hbuilt⟩
  obtain ⟨set, hd⟩ := hbuilt emptyRef hs.boot
  obtain rfl : set = .empty := hd.empty_iff.1 rfl
  exact hd

/-- An object denotes the same set without the room. -/
theorem Denotes.trim (hd : h.Denotes l set) : h.trim.Denotes l set := by
  obtain ⟨o, ho, hholds, hempty⟩ := hd
  refine ⟨⟨o.labels.take o.len, o.len⟩, ?_, ⟨?_, ?_, ?_⟩, hempty⟩
  · rw [LabelObjects.trim, List.getElem?_map, ho]
    rfl
  · rw [List.take_take, Nat.min_self]
    exact hholds.labels
  · rw [List.length_take]
    exact Nat.le_min.2 ⟨Nat.le_refl _, hholds.fits⟩
  · rw [List.length_take]
    exact Nat.lt_of_le_of_lt (Nat.min_le_right _ _) hholds.size

end Queries

/-! ## Exactness -/

/-- The query returns, and what it returns is whether `P`. -/
def Decides (out : Except ArrayFault Bool) (P : Prop) : Prop :=
  ∃ answer, out = .ok answer ∧ (answer = true ↔ P)

/-- What the queries on three objects are for. -/
structure Exact (h : LabelObjects) (a b c : LabelRef) : Prop where
  subset : Decides (h.isSubsetOf a b) (h.elements a ⊆ h.elements b)
  inUnion : Decides (h.checkInUnion a b c) (h.elements a ⊆ h.elements b ∪ h.elements c)
  /-- the union itself, unless its array is too large -/
  union : match h.union b c with
    | .ok (bc, h') => h'.isSubsetOf a bc = h.checkInUnion a b c
    | .error fault => fault = .negativeArraySize ∧ 2 ^ 31 ≤ h.len b + h.len c
  /-- the short cuts -/
  slowPaths : h.isSubsetOfSlowPath a b = h.isSubsetOf a b ∧
    h.checkInUnionSlowPath a b c = h.checkInUnion a b c
  /-- no read from `len` on -/
  trimmed : h.trim.isSubsetOfSlowPath a b = h.isSubsetOfSlowPath a b ∧
    h.trim.checkInUnionSlowPath a b c = h.checkInUnionSlowPath a b c

/-- **The queries on label sets are exact.**  They end, they answer whether the labels are
included, with or without the short cuts, and they read nothing behind the labels of a set. -/
theorem queries_exact {h : LabelObjects} (hs : h.Sets) {a b c : LabelRef}
    (ha : a < h.objects.length) (hb : b < h.objects.length) (hc : c < h.objects.length) :
    h.Exact a b c := by
  have hwf := hs.wellFormed
  obtain ⟨sets, hsets⟩ := hwf.exists_sets
  have hda := hsets a ha
  have hdb := hsets b hb
  have hdc := hsets c hc
  have hunion := hwf.union_yields hdb hdc
  refine ⟨⟨_, hda.isSubsetOf_eq hdb, ?_⟩, ⟨_, hda.checkInUnion_eq hdb hdc, ?_⟩, ?_,
    ⟨?_, ?_⟩, ?_, ?_⟩
  · rw [LabelSet.isSubsetOf_iff, hda.elements_eq, hdb.elements_eq]
    exact Iff.rfl
  · rw [LabelSet.checkInUnion_iff, hda.elements_eq, hdb.elements_eq, hdc.elements_eq]
    exact Iff.rfl
  · rw [hda.checkInUnion_eq hdb hdc]
    split
    · rename_i bc h' hcall
      rw [hcall] at hunion
      obtain ⟨-, hle, hd⟩ := hunion
      rw [(hda.mono hle).isSubsetOf_eq hd, Except.ok.injEq, Bool.eq_iff_iff,
        LabelSet.isSubsetOf_iff, LabelSet.checkInUnion_iff]
      exact forall₂_congr fun l _ => LabelSet.mem_union
    · rename_i fault hcall
      rw [hcall] at hunion
      rw [hdb.len_eq, hdc.len_eq]
      exact hunion
  · rw [hda.isSubsetOfSlowPath_eq hdb, hda.isSubsetOf_eq hdb]
  · rw [hda.checkInUnionSlowPath_eq hdb hdc, hda.checkInUnion_eq hdb hdc]
  · rw [hda.isSubsetOfSlowPath_eq hdb, hda.trim.isSubsetOfSlowPath_eq hdb.trim]
  · rw [hda.checkInUnionSlowPath_eq hdb hdc, hda.trim.checkInUnionSlowPath_eq hdb.trim hdc.trim]

/-- Three sets, one of them with room behind its label: `[5]` is in the union of `[-3]` and
`[5, 8]`, and not in `[-3]`. -/
theorem queries_exact_room :
    let h : LabelObjects := ⟨[⟨[], 0⟩, ⟨[5], 1⟩, ⟨[-3, 5], 1⟩, ⟨[5, 8], 2⟩]⟩
    h.Exact 1 2 3 ∧ h.checkInUnion 1 2 3 = .ok true ∧ h.isSubsetOf 1 2 = .ok false := by
  intro h
  have hs : h.Sets := by
    refine ⟨by decide, ⟨?_, ?_, ?_⟩, ?_⟩
    · simp [h, Increasing]
    · simp [h]
    · intro l o ho
      rcases l with _ | _ | _ | _ | l <;> simp [h, emptyRef] at ho ⊢ <;> simp [← ho]
    · simp [h]
  exact ⟨queries_exact hs (by decide) (by decide) (by decide), by decide +kernel,
    by decide +kernel⟩

end LabelObjects

end Laminar.Vm
