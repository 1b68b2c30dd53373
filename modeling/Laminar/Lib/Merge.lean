/-!
# Two-pointer loops over increasing lists

Strictly increasing lists as finite sets.  The loops below walk two or three lists
from the front and never go back; on increasing lists they compute the union, the
difference, the subset test and the test for membership in a union of two sets.
-/

namespace Laminar.Lib

variable {α : Type}

/-- Strictly increasing. -/
abbrev Increasing [LT α] (xs : List α) : Prop := xs.Pairwise (· < ·)

/-! ## Two lists -/

section Loops

variable [LT α] [DecidableLT α]

/-- Pick the lesser head, or both if they are equal. -/
def mergeUnion : List α → List α → List α
  | [], ys => ys
  | xs, [] => xs
  | x :: xs, y :: ys =>
      if x < y then x :: mergeUnion xs (y :: ys)
      else if y < x then y :: mergeUnion (x :: xs) ys
      else x :: mergeUnion xs ys
termination_by xs ys => xs.length + ys.length

/-- Keep the heads of the first list that the second list skips. -/
def mergeMinus : List α → List α → List α
  | [], _ => []
  | xs, [] => xs
  | x :: xs, y :: ys =>
      if x < y then x :: mergeMinus xs (y :: ys)
      else if y < x then mergeMinus (x :: xs) ys
      else mergeMinus xs ys
termination_by xs ys => xs.length + ys.length

/-- Is every element of the first list in the second? -/
def mergeSubset : List α → List α → Bool
  | [], _ => true
  | _ :: _, [] => false
  | x :: xs, y :: ys =>
      if y < x then mergeSubset (x :: xs) ys
      else if x < y then false
      else mergeSubset xs ys
termination_by xs ys => xs.length + ys.length

/-- Nothing of the first list is left out, so a union of its length is the list. -/
theorem sublist_mergeUnion_left (xs ys : List α) : xs.Sublist (mergeUnion xs ys) := by
  fun_induction mergeUnion xs ys with
  | case1 ys => exact List.nil_sublist ys
  | case2 xs _ => exact List.Sublist.refl xs
  | case3 x xs y ys hlt ih => exact ih.cons_cons x
  | case4 x xs y ys hlt hgt ih => exact ih.cons y
  | case5 x xs y ys hlt hgt ih => exact ih.cons_cons x

@[simp] theorem mergeUnion_nil_right (xs : List α) : mergeUnion xs [] = xs := by
  cases xs <;> rw [mergeUnion]
  exact List.cons_ne_nil _ _

@[simp] theorem mergeMinus_nil_right (xs : List α) : mergeMinus xs [] = xs := by
  cases xs <;> rw [mergeMinus]
  exact List.cons_ne_nil _ _

theorem length_mergeUnion_le (xs ys : List α) :
    (mergeUnion xs ys).length ≤ xs.length + ys.length := by
  fun_induction mergeUnion xs ys with
  | case1 ys => simp
  | case2 xs _ => simp
  | case3 x xs y ys hlt ih =>
      simp only [List.length_cons] at ih ⊢
      omega
  | case4 x xs y ys hlt hgt ih =>
      simp only [List.length_cons] at ih ⊢
      omega
  | case5 x xs y ys hlt hgt ih =>
      simp only [List.length_cons] at ih ⊢
      omega

theorem mergeMinus_sublist (xs ys : List α) : (mergeMinus xs ys).Sublist xs := by
  fun_induction mergeMinus xs ys with
  | case1 ys => exact List.Sublist.refl []
  | case2 xs _ => exact List.Sublist.refl xs
  | case3 x xs y ys hlt ih => exact ih.cons_cons x
  | case4 x xs y ys hlt hgt ih => exact ih
  | case5 x xs y ys hlt hgt ih => exact ih.cons x

end Loops

section Equal

variable [LT α] [LE α] [DecidableLT α] [Std.LawfulOrderLT α]

theorem mergeUnion_self (xs : List α) : mergeUnion xs xs = xs := by
  induction xs with
  | nil => rw [mergeUnion]
  | cons x xs ih => rw [mergeUnion, if_neg Std.lt_irrefl, if_neg Std.lt_irrefl, ih]

theorem mergeMinus_self (xs : List α) : mergeMinus xs xs = [] := by
  induction xs with
  | nil => rw [mergeMinus]
  | cons x xs ih => rw [mergeMinus, if_neg Std.lt_irrefl, if_neg Std.lt_irrefl, ih]

end Equal

section Heads

variable [LT α] [LE α] [Std.IsLinearOrder α] [Std.LawfulOrderLT α]

private theorem head_lt {x y : α} {ys : List α} (h : Increasing (y :: ys)) (hxy : x < y) :
    ∀ z ∈ y :: ys, x < z := by
  intro z hz
  rcases List.mem_cons.1 hz with rfl | hz
  · exact hxy
  · have := (List.pairwise_cons.1 h).1 z hz
    grind

private theorem not_mem_of_lt_head {x y : α} {ys : List α} (h : Increasing (y :: ys))
    (hxy : x < y) : x ∉ y :: ys := by
  intro hmem
  have := head_lt h hxy x hmem
  grind

end Heads

section Laws

variable [LT α] [LE α] [DecidableLT α] [Std.IsLinearOrder α] [Std.LawfulOrderLT α]

theorem mem_mergeUnion {xs ys : List α} {a : α} :
    a ∈ mergeUnion xs ys ↔ a ∈ xs ∨ a ∈ ys := by
  fun_induction mergeUnion xs ys with
  | case1 ys => simp
  | case2 xs _ => simp
  | case3 x xs y ys hlt ih => simp [ih, or_assoc]
  | case4 x xs y ys hlt hgt ih => simp [ih, or_left_comm]
  | case5 x xs y ys hlt hgt ih =>
      obtain rfl : x = y := by grind
      simp only [List.mem_cons, ih]
      grind

theorem mergeUnion_increasing {xs ys : List α} (hx : Increasing xs) (hy : Increasing ys) :
    Increasing (mergeUnion xs ys) := by
  fun_induction mergeUnion xs ys with
  | case1 ys => exact hy
  | case2 xs _ => exact hx
  | case3 x xs y ys hlt ih =>
      refine List.pairwise_cons.2 ⟨fun a ha => ?_, ih hx.tail hy⟩
      rcases mem_mergeUnion.1 ha with ha | ha
      · exact (List.pairwise_cons.1 hx).1 a ha
      · exact head_lt hy hlt a ha
  | case4 x xs y ys hlt hgt ih =>
      refine List.pairwise_cons.2 ⟨fun a ha => ?_, ih hx hy.tail⟩
      rcases mem_mergeUnion.1 ha with ha | ha
      · exact head_lt hx hgt a ha
      · exact (List.pairwise_cons.1 hy).1 a ha
  | case5 x xs y ys hlt hgt ih =>
      obtain rfl : x = y := by grind
      refine List.pairwise_cons.2 ⟨fun a ha => ?_, ih hx.tail hy.tail⟩
      rcases mem_mergeUnion.1 ha with ha | ha
      · exact (List.pairwise_cons.1 hx).1 a ha
      · exact (List.pairwise_cons.1 hy).1 a ha

theorem sublist_mergeUnion_right (xs ys : List α) : ys.Sublist (mergeUnion xs ys) := by
  fun_induction mergeUnion xs ys with
  | case1 ys => exact List.Sublist.refl ys
  | case2 xs _ => exact List.nil_sublist xs
  | case3 x xs y ys hlt ih => exact ih.cons x
  | case4 x xs y ys hlt hgt ih => exact ih.cons_cons y
  | case5 x xs y ys hlt hgt ih =>
      obtain rfl : x = y := by grind
      exact ih.cons_cons x

theorem mem_mergeMinus {xs ys : List α} {a : α} (hx : Increasing xs) (hy : Increasing ys) :
    a ∈ mergeMinus xs ys ↔ a ∈ xs ∧ a ∉ ys := by
  fun_induction mergeMinus xs ys with
  | case1 ys => simp
  | case2 xs _ => simp
  | case3 x xs y ys hlt ih =>
      have hnot := not_mem_of_lt_head hy hlt
      rw [List.mem_cons, ih hx.tail hy, List.mem_cons]
      grind
  | case4 x xs y ys hlt hgt ih =>
      have hnot := not_mem_of_lt_head hx hgt
      rw [ih hx hy.tail]
      grind
  | case5 x xs y ys hlt hgt ih =>
      obtain rfl : x = y := by grind
      have hnot : x ∉ xs := fun hmem => by
        have := (List.pairwise_cons.1 hx).1 x hmem
        grind
      rw [ih hx.tail hy.tail]
      grind

theorem mergeSubset_iff {xs ys : List α} (hx : Increasing xs) (hy : Increasing ys) :
    mergeSubset xs ys = true ↔ ∀ a ∈ xs, a ∈ ys := by
  fun_induction mergeSubset xs ys with
  | case1 ys => simp
  | case2 x xs =>
      simp only [Bool.false_eq_true, false_iff]
      exact fun hall => List.not_mem_nil (hall x List.mem_cons_self)
  | case3 x xs y ys hlt ih =>
      have hnot := not_mem_of_lt_head hx hlt
      rw [ih hx hy.tail]
      grind
  | case4 x xs y ys hlt hgt =>
      have hnot := not_mem_of_lt_head hy hgt
      simp only [Bool.false_eq_true, false_iff]
      exact fun hall => hnot (hall x List.mem_cons_self)
  | case5 x xs y ys hlt hgt ih =>
      obtain rfl : x = y := by grind
      have hlow := (List.pairwise_cons.1 hx).1
      rw [ih hx.tail hy.tail]
      grind

end Laws

/-! ## Three lists -/

section Passing

variable [LE α] [DecidableLE α]

/-- Drop the head unless it is greater than `x`. -/
def passUpTo (x : α) : List α → List α
  | [] => []
  | y :: ys => if y ≤ x then ys else y :: ys

theorem length_passUpTo_le (x : α) (ys : List α) : (passUpTo x ys).length ≤ ys.length := by
  cases ys with
  | nil => exact Nat.le_refl 0
  | cons y ys =>
      rw [passUpTo]
      split
      · exact Nat.le_succ _
      · exact Nat.le_refl _

/-- Unless `x` is the head, passing does not change whether it is in the list. -/
private theorem mem_passUpTo_self {x : α} {ys : List α} (hhead : ys.head? ≠ some x) :
    x ∈ passUpTo x ys ↔ x ∈ ys := by
  cases ys with
  | nil => exact Iff.rfl
  | cons y ys =>
      rw [passUpTo]
      split
      · grind
      · exact Iff.rfl

private theorem passUpTo_increasing [LT α] {x : α} {ys : List α} (h : Increasing ys) :
    Increasing (passUpTo x ys) := by
  cases ys with
  | nil => exact h
  | cons y ys =>
      rw [passUpTo]
      split
      · exact h.tail
      · exact h

/-- Is every element of the first list in the second or in the third?  A round that
passes no element of the two gives up. -/
def mergeInUnion [DecidableEq α] (xs ys zs : List α) : Bool :=
  match xs with
  | [] => true
  | x :: xs' =>
      if (passUpTo x ys).length = ys.length ∧ (passUpTo x zs).length = zs.length then false
      else if ys.head? = some x ∨ zs.head? = some x then
        mergeInUnion xs' (passUpTo x ys) (passUpTo x zs)
      else
        mergeInUnion (x :: xs') (passUpTo x ys) (passUpTo x zs)
termination_by xs.length + ys.length + zs.length
decreasing_by
  all_goals
    have hy := length_passUpTo_le x ys
    have hz := length_passUpTo_le x zs
    simp only [List.length_cons]
    omega

end Passing

section PassingLaws

variable [LT α] [LE α] [DecidableLE α] [Std.IsLinearOrder α] [Std.LawfulOrderLT α]

/-- Nothing above `x` is passed. -/
private theorem mem_passUpTo {x a : α} {ys : List α} (h : x < a) :
    a ∈ passUpTo x ys ↔ a ∈ ys := by
  cases ys with
  | nil => exact Iff.rfl
  | cons y ys =>
      rw [passUpTo]
      split
      · grind
      · exact Iff.rfl

/-- A list whose head is not passed has no element up to `x`. -/
private theorem not_mem_of_length_passUpTo {x : α} {ys : List α} (h : Increasing ys)
    (hlen : (passUpTo x ys).length = ys.length) : x ∉ ys := by
  cases ys with
  | nil => simp
  | cons y ys =>
      rw [passUpTo] at hlen
      split at hlen
      · simp at hlen
      · exact not_mem_of_lt_head h (by grind)

theorem mergeInUnion_iff [DecidableEq α] {xs ys zs : List α} (hx : Increasing xs)
    (hy : Increasing ys) (hz : Increasing zs) :
    mergeInUnion xs ys zs = true ↔ ∀ a ∈ xs, a ∈ ys ∨ a ∈ zs := by
  fun_induction mergeInUnion xs ys zs with
  | case1 ys zs => simp
  | case2 ys zs x xs hstuck =>
      have hny := not_mem_of_length_passUpTo hy hstuck.1
      have hnz := not_mem_of_length_passUpTo hz hstuck.2
      simp only [Bool.false_eq_true, false_iff]
      exact fun hall => (hall x List.mem_cons_self).elim hny hnz
  | case3 ys zs x xs hmove hhead ih =>
      have hlow := (List.pairwise_cons.1 hx).1
      have hfound : x ∈ ys ∨ x ∈ zs := hhead.imp List.mem_of_head? List.mem_of_head?
      rw [ih hx.tail (passUpTo_increasing hy) (passUpTo_increasing hz), List.forall_mem_cons]
      refine ⟨fun h => ⟨hfound, fun a ha => ?_⟩, fun h a ha => ?_⟩
      · exact (h a ha).imp (mem_passUpTo (hlow a ha)).1 (mem_passUpTo (hlow a ha)).1
      · exact (h.2 a ha).imp (mem_passUpTo (hlow a ha)).2 (mem_passUpTo (hlow a ha)).2
  | case4 ys zs x xs hmove hhead ih =>
      obtain ⟨hny, hnz⟩ := not_or.1 hhead
      have hsame : ∀ a ∈ x :: xs, (a ∈ passUpTo x ys ∨ a ∈ passUpTo x zs) ↔ a ∈ ys ∨ a ∈ zs := by
        intro a ha
        rcases List.mem_cons.1 ha with rfl | ha
        · exact or_congr (mem_passUpTo_self hny) (mem_passUpTo_self hnz)
        · have hlow := (List.pairwise_cons.1 hx).1 a ha
          exact or_congr (mem_passUpTo hlow) (mem_passUpTo hlow)
      rw [ih hx (passUpTo_increasing hy) (passUpTo_increasing hz)]
      exact ⟨fun h a ha => (hsame a ha).1 (h a ha), fun h a ha => (hsame a ha).2 (h a ha)⟩

end PassingLaws

end Laminar.Lib
