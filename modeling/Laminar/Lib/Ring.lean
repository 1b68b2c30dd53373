/-!
# Circular arrays

An array of `size` slots used as a ring: `count` of them are in use, from slot `cur` on and past
the end of the array back to its beginning.  `ringItems` lists what is in use, in order.  An item
is added behind the last one, or the first or the last one is replaced, by a write to one slot;
the first one is removed by moving `cur` on.
-/

namespace Laminar.Lib

variable {α : Type} {size : Nat}

/-- The slot `i` places after `cur`. -/
def ringSlot (hsize : 0 < size) (cur i : Nat) : Fin size := ⟨(cur + i) % size, Nat.mod_lt _ hsize⟩

/-- What is in use. -/
def ringItems (hsize : 0 < size) (slots : Fin size → α) (cur count : Nat) : List α :=
  (List.range count).map fun i => slots (ringSlot hsize cur i)

/-- A write to one slot. -/
def setSlot (slots : Fin size → α) (i : Fin size) (a : α) : Fin size → α :=
  fun j => if j = i then a else slots j

/-- Places less than `size` apart are different slots. -/
theorem ringSlot_ne {hsize : 0 < size} (cur : Nat) {i j : Nat} (hij : i < j)
    (hj : j < size) : ringSlot hsize cur i ≠ ringSlot hsize cur j := by
  intro h
  have hval : (cur + i) % size = (cur + j) % size := congrArg Fin.val h
  have hzero : (cur + j - (cur + i)) % size = 0 := Nat.sub_mod_eq_zero_of_mod_eq hval.symm
  rw [Nat.add_sub_add_left, Nat.mod_eq_of_lt (Nat.lt_of_le_of_lt (Nat.sub_le j i) hj)] at hzero
  omega

/-- A write behind the items in use does not change them. -/
theorem ringItems_setSlot {hsize : 0 < size} (slots : Fin size → α) (cur : Nat) {count i : Nat}
    (hi : count ≤ i) (hsz : i < size) (a : α) :
    ringItems hsize (setSlot slots (ringSlot hsize cur i) a) cur count =
      ringItems hsize slots cur count := by
  refine List.map_congr_left fun j hj => if_neg ?_
  exact ringSlot_ne cur (Nat.lt_of_lt_of_le (List.mem_range.1 hj) hi) hsz

/-- The items after one more was added. -/
theorem ringItems_push {hsize : 0 < size} (slots : Fin size → α) (cur : Nat) {count : Nat}
    (hcount : count < size) (a : α) :
    ringItems hsize (setSlot slots (ringSlot hsize cur count) a) cur (count + 1) =
      ringItems hsize slots cur count ++ [a] := by
  rw [← ringItems_setSlot slots cur (Nat.le_refl count) hcount a]
  unfold ringItems
  rw [List.range_succ, List.map_append, List.map_singleton, setSlot, if_pos rfl]

/-- The items, with the last one apart. -/
theorem ringItems_succ {hsize : 0 < size} (slots : Fin size → α) (cur count : Nat) :
    ringItems hsize slots cur (count + 1) =
      ringItems hsize slots cur count ++ [slots (ringSlot hsize cur count)] := by
  unfold ringItems
  rw [List.range_succ, List.map_append, List.map_singleton]

/-! ## The front -/

theorem ringSlot_next {hsize : 0 < size} (cur i : Nat) :
    ringSlot hsize ((cur + 1) % size) i = ringSlot hsize cur (i + 1) := by
  refine Fin.ext ?_
  show ((cur + 1) % size + i) % size = (cur + (i + 1)) % size
  rw [Nat.mod_add_mod, Nat.add_right_comm, Nat.add_assoc]

/-- The items, with the first one apart. -/
theorem ringItems_cons {hsize : 0 < size} (slots : Fin size → α) (cur count : Nat) :
    ringItems hsize slots cur (count + 1) =
      slots (ringSlot hsize cur 0) :: ringItems hsize slots ((cur + 1) % size) count := by
  unfold ringItems
  rw [List.range_succ_eq_map, List.map_cons, List.map_map]
  refine congrArg _ (List.map_congr_left fun i _ => ?_)
  rw [Function.comp_apply, ringSlot_next]

/-- A write to the first slot does not change the items behind it. -/
theorem ringItems_setSlot_first {hsize : 0 < size} (slots : Fin size → α) (cur : Nat) {count : Nat}
    (hcount : count + 1 ≤ size) (a : α) :
    ringItems hsize (setSlot slots (ringSlot hsize cur 0) a) ((cur + 1) % size) count =
      ringItems hsize slots ((cur + 1) % size) count := by
  refine List.map_congr_left fun i hi => if_neg ?_
  rw [ringSlot_next]
  have hlt := List.mem_range.1 hi
  exact Ne.symm (ringSlot_ne cur (Nat.succ_pos i) (by omega))

end Laminar.Lib
