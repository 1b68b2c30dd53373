/-!
# Cells of an array

Reads and writes that fail outside the array.  `Reads read xs` says that `read` gives the
elements of `xs` by position, which an array does for each of its initial parts.  A loop
that fills an array from the front keeps what it has written in `xs.take i`
(`writeAt_front`).
-/

namespace Laminar.Lib

variable {α ε : Type}

/-- Read the cell at `i`. -/
def readAt (fault : ε) (xs : List α) (i : Nat) : Except ε α :=
  match xs[i]? with
  | some x => .ok x
  | none => .error fault

/-- Write the cell at `i`. -/
def writeAt (fault : ε) (xs : List α) (i : Nat) (x : α) : Except ε (List α) :=
  if i < xs.length then .ok (xs.set i x) else .error fault

/-- `read` gives the elements of `xs`. -/
def Reads (read : Nat → Except ε α) (xs : List α) : Prop :=
  ∀ i < xs.length, ∃ x, read i = .ok x ∧ xs.drop i = x :: xs.drop (i + 1)

/-- A position is at the end, or there is an element to read. -/
theorem Reads.cases {read : Nat → Except ε α} {xs : List α} (h : Reads read xs) {i : Nat}
    (hi : i ≤ xs.length) :
    (i = xs.length ∧ xs.drop i = []) ∨
      (i < xs.length ∧ ∃ x, read i = .ok x ∧ xs.drop i = x :: xs.drop (i + 1)) := by
  by_cases hend : i = xs.length
  · exact .inl ⟨hend, List.drop_eq_nil_of_le (Nat.le_of_eq hend.symm)⟩
  · have hlt : i < xs.length := by omega
    exact .inr ⟨hlt, h i hlt⟩

theorem reads_take (fault : ε) (xs : List α) (n : Nat) : Reads (readAt fault xs) (xs.take n) := by
  intro i hi
  rw [List.length_take] at hi
  have hxs : i < xs.length := by omega
  refine ⟨xs[i], ?_, ?_⟩
  · rw [readAt, List.getElem?_eq_getElem hxs]
  · rw [List.drop_eq_getElem_cons (by rw [List.length_take]; omega), List.getElem_take]

theorem reads_singleton (x : α) : Reads (fun _ => (.ok x : Except ε α)) [x] := by
  intro i hi
  obtain rfl : i = 0 := Nat.lt_one_iff.1 hi
  exact ⟨x, rfl, rfl⟩

/-- A write at the end of the part that is filled. -/
theorem writeAt_front (fault : ε) {xs : List α} {i : Nat} (hi : i < xs.length) (x : α) :
    ∃ xs', writeAt fault xs i x = .ok xs' ∧ xs'.length = xs.length ∧
      xs'.take (i + 1) = xs.take i ++ [x] := by
  refine ⟨xs.set i x, if_pos hi, List.length_set, ?_⟩
  have hset : i < (xs.set i x).length := by
    rw [List.length_set]
    exact hi
  rw [List.take_succ_eq_append_getElem hset, List.take_set_of_le (Nat.le_refl i),
    List.getElem_set_self]

end Laminar.Lib
