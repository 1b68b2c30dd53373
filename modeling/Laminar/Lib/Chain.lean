/-!
# Singly linked lists

Cells that lead to one another by a function `next`, up to a last one that leads to `nil`.
`Chain next nil a cells` says which cells a list that starts at `a` consists of, and `OnChain`
that it comes to a cell.  A list is built by linking its last cell to a new one (`Chain.snoc`).
-/

namespace Laminar.Lib

variable {α : Type} {next next' : α → α} {nil a c l : α} {cells : List α}

/-- The cells of the list that starts at `a`. -/
def Chain (next : α → α) (nil : α) : α → List α → Prop
  | a, [] => a = nil
  | a, c :: cells => a = c ∧ c ≠ nil ∧ Chain next nil (next c) cells

/-- The list that starts at `a` comes to the cell. -/
inductive OnChain (next : α → α) (nil : α) : α → α → Prop
  | head {a : α} (hne : a ≠ nil) : OnChain next nil a a
  | tail {a c : α} (hne : a ≠ nil) (hrest : OnChain next nil (next a) c) : OnChain next nil a c

theorem Chain.onChain_iff (h : Chain next nil a cells) :
    OnChain next nil a c ↔ c ∈ cells := by
  induction cells generalizing a with
  | nil =>
      obtain rfl : a = nil := h
      refine iff_of_false (fun hon => ?_) List.not_mem_nil
      cases hon with
      | head hne => exact hne rfl
      | tail hne _ => exact hne rfl
  | cons b cells ih =>
      obtain ⟨rfl, hne, hrest⟩ := h
      rw [List.mem_cons, ← ih hrest]
      constructor
      · intro hon
        cases hon with
        | head => exact .inl rfl
        | tail _ hon => exact .inr hon
      · rintro (rfl | hon)
        · exact .head hne
        · exact .tail hne hon

theorem Chain.head_eq_nil_iff (h : Chain next nil a cells) : a = nil ↔ cells = [] := by
  cases cells with
  | nil => exact iff_of_true h rfl
  | cons b cells =>
      obtain ⟨rfl, hne, -⟩ := h
      exact iff_of_false hne (List.cons_ne_nil _ _)

/-- A list of one cell. -/
theorem chain_singleton (hc : c ≠ nil) (hend : next c = nil) : Chain next nil c [c] :=
  ⟨rfl, hc, hend⟩

/-- The last cell is linked to a new one. -/
theorem Chain.snoc (h : Chain next nil a (cells ++ [l])) (hcells : ∀ b ∈ cells, next' b = next b)
    (hl : next' l = c) (hc : c ≠ nil) (hend : next' c = nil) :
    Chain next' nil a (cells ++ [l] ++ [c]) := by
  induction cells generalizing a with
  | nil =>
      obtain ⟨hal, hne, -⟩ := h
      refine ⟨hal, hne, ?_⟩
      rw [hl]
      exact chain_singleton hc hend
  | cons b cells ih =>
      obtain ⟨hab, hne, hrest⟩ := h
      obtain ⟨hb, hcells⟩ := List.forall_mem_cons.1 hcells
      refine ⟨hab, hne, ?_⟩
      rw [hb]
      exact ih hrest hcells

end Laminar.Lib
