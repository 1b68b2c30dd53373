import Mathlib.Data.List.Nodup
import Mathlib.Data.List.Perm.Basic
import Mathlib.Logic.Function.Basic

/-!
# Doubly linked lists with a cursor

Nodes on a heap, each with a value and with pointers to its predecessor and its successor.
`Cursor heap before a after` says that the node at `a` is part of a list that is linked
both ways, with `before` in front of it, nearest first, and `after` behind it.  The cursor
can move either way, values can be written, and a new node can take the place of all that
was behind.
-/

namespace Laminar.Lib

/-- A node. -/
structure Node (α δ : Type) where
  data : δ
  prev : Option α
  next : Option α

variable {α δ : Type}

/-- `before` is what the predecessor pointers lead to from `a`, and the successor pointers
lead back. -/
def Backward (heap : α → Node α δ) : α → List α → Prop
  | a, [] => (heap a).prev = none
  | a, b :: before => (heap a).prev = some b ∧ (heap b).next = some a ∧ Backward heap b before

/-- The same in the other direction. -/
def Forward (heap : α → Node α δ) : α → List α → Prop
  | a, [] => (heap a).next = none
  | a, b :: after => (heap a).next = some b ∧ (heap b).prev = some a ∧ Forward heap b after

/-- A list of distinct nodes with a cursor at `a`. -/
structure Cursor (heap : α → Node α δ) (before : List α) (a : α) (after : List α) : Prop where
  back : Backward heap a before
  ahead : Forward heap a after
  nodup : (a :: (before ++ after)).Nodup

section Lookup

variable {heap : α → Node α δ} {before after : List α} {a : α}

theorem Backward.prev_eq (h : Backward heap a before) : (heap a).prev = before.head? := by
  cases before with
  | nil => exact h
  | cons b before => exact h.1

theorem Forward.next_eq (h : Forward heap a after) : (heap a).next = after.head? := by
  cases after with
  | nil => exact h
  | cons b after => exact h.1

/-- Follow the predecessor pointers for at most `n` nodes. -/
def pathBack (heap : α → Node α δ) : Nat → Option α → List α
  | 0, _ => []
  | _ + 1, none => []
  | n + 1, some a => a :: pathBack heap n (heap a).prev

theorem Backward.pathBack_eq (h : Backward heap a before) {n : Nat} (hn : before.length ≤ n) :
    pathBack heap n (heap a).prev = before := by
  induction before generalizing a n with
  | nil =>
      rw [show (heap a).prev = none from h]
      cases n <;> rfl
  | cons b before ih =>
      obtain ⟨hprev, -, hrest⟩ := h
      cases n with
      | zero => simp at hn
      | succ n =>
          rw [hprev, pathBack, ih hrest (Nat.le_of_succ_le_succ hn)]

end Lookup

/-! ## Moves -/

section Moves

variable {heap : α → Node α δ} {before after : List α} {a b : α}

theorem Cursor.right (h : Cursor heap before a (b :: after)) :
    Cursor heap (a :: before) b after := by
  obtain ⟨hnext, hprev, hahead⟩ := h.ahead
  refine ⟨⟨hprev, hnext, h.back⟩, hahead, ?_⟩
  have hperm : (a :: (before ++ b :: after)).Perm (b :: (a :: before ++ after)) :=
    (List.perm_middle.cons a).trans (List.Perm.swap b a _)
  exact hperm.nodup_iff.1 h.nodup

theorem Cursor.left (h : Cursor heap (b :: before) a after) :
    Cursor heap before b (a :: after) := by
  obtain ⟨hprev, hnext, hback⟩ := h.back
  refine ⟨hback, ⟨hnext, hprev, h.ahead⟩, ?_⟩
  have hperm : (a :: (b :: before ++ after)).Perm (b :: (before ++ a :: after)) :=
    (List.Perm.swap b a _).trans (List.perm_middle.symm.cons b)
  exact hperm.nodup_iff.1 h.nodup

end Moves

/-! ## Writes -/

section Writes

variable {heap heap' : α → Node α δ} {before after : List α} {a : α}

/-- The pointers of a node are as they were. -/
def SameLinks (heap heap' : α → Node α δ) (a : α) : Prop :=
  (heap' a).prev = (heap a).prev ∧ (heap' a).next = (heap a).next

theorem Backward.congr (h : Backward heap a before) (ha : (heap' a).prev = (heap a).prev)
    (hbefore : ∀ b ∈ before, SameLinks heap heap' b) : Backward heap' a before := by
  induction before generalizing a with
  | nil => exact ha.trans h
  | cons b before ih =>
      obtain ⟨hprev, hnext, hrest⟩ := h
      obtain ⟨⟨hbprev, hbnext⟩, htail⟩ := List.forall_mem_cons.1 hbefore
      exact ⟨ha.trans hprev, hbnext.trans hnext, ih hrest hbprev htail⟩

theorem Forward.congr (h : Forward heap a after) (ha : (heap' a).next = (heap a).next)
    (hafter : ∀ b ∈ after, SameLinks heap heap' b) : Forward heap' a after := by
  induction after generalizing a with
  | nil => exact ha.trans h
  | cons b after ih =>
      obtain ⟨hnext, hprev, hrest⟩ := h
      obtain ⟨⟨hbprev, hbnext⟩, htail⟩ := List.forall_mem_cons.1 hafter
      exact ⟨ha.trans hnext, hbprev.trans hprev, ih hrest hbnext htail⟩

/-- Values may be written anywhere. -/
theorem Cursor.congr (h : Cursor heap before a after) (hlinks : ∀ b, SameLinks heap heap' b) :
    Cursor heap' before a after :=
  ⟨h.back.congr (hlinks a).1 fun b _ => hlinks b, h.ahead.congr (hlinks a).2 fun b _ => hlinks b,
    h.nodup⟩

/-- A new node takes the place of what was behind the cursor, which moves there. -/
theorem Cursor.attach [DecidableEq α] (h : Cursor heap before a after) {b : α} {value : δ}
    (hb : b ∉ a :: before) :
    Cursor (Function.update (Function.update heap a { heap a with next := some b }) b
      ⟨value, some a, none⟩) (a :: before) b [] := by
  have hnodup : (a :: before).Nodup := by
    have hall := h.nodup
    rw [← List.cons_append] at hall
    exact (List.nodup_append.1 hall).1
  have hba : b ≠ a := fun heq => hb (heq ▸ List.mem_cons_self)
  have hbefore : b ∉ before := fun hmem => hb (List.mem_cons_of_mem a hmem)
  refine ⟨⟨?_, ?_, h.back.congr ?_ ?_⟩, ?_, ?_⟩
  · rw [Function.update_self]
  · rw [Function.update_of_ne (Ne.symm hba), Function.update_self]
  · rw [Function.update_of_ne (Ne.symm hba), Function.update_self]
  · intro c hc
    have hcb : c ≠ b := fun heq => hbefore (heq ▸ hc)
    have hca : c ≠ a := fun heq => (List.nodup_cons.1 hnodup).1 (heq ▸ hc)
    rw [SameLinks, Function.update_of_ne hcb, Function.update_of_ne hca]
    exact ⟨rfl, rfl⟩
  · rw [Forward, Function.update_self]
  · rw [List.append_nil]
    exact List.nodup_cons.2 ⟨hb, hnodup⟩

end Writes

end Laminar.Lib
