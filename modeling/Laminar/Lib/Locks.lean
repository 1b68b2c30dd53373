/-!
# Lock operations

A call is seen here as the sequence of lock operations it performs.  `replay` runs
the sequence on a count of holds per lock and fails at a release of a lock that
is not held.  A sequence is balanced when it can be replayed from no holds and
ends with none: whatever is taken is released once, and only after it was taken.
-/

namespace Laminar.Lib

variable {α : Type} [DecidableEq α]

/-- Take or release a lock. -/
inductive LockOp (α : Type)
  | take (a : α)
  | drop (a : α)

/-- The holds after one operation; a release needs a hold. -/
def LockOp.apply : LockOp α → (α → Nat) → Option (α → Nat)
  | .take a, holds => some fun b => if b = a then holds b + 1 else holds b
  | .drop a, holds =>
      if holds a = 0 then none else some fun b => if b = a then holds b - 1 else holds b

/-- The holds after a sequence of operations. -/
def replay : List (LockOp α) → (α → Nat) → Option (α → Nat)
  | [], holds => some holds
  | op :: ops, holds => (op.apply holds).bind (replay ops)

/-- Everything taken is released, and nothing else. -/
def Balanced (ops : List (LockOp α)) : Prop := replay ops (fun _ => 0) = some fun _ => 0

theorem replay_append (xs ys : List (LockOp α)) (holds : α → Nat) :
    replay (xs ++ ys) holds = (replay xs holds).bind (replay ys) := by
  induction xs generalizing holds with
  | nil => rfl
  | cons x xs ih =>
      rw [List.cons_append, replay, replay]
      cases x.apply holds with
      | none => rfl
      | some holds' => exact ih holds'

private theorem apply_frame {op : LockOp α} {holds holds' : α → Nat}
    (h : op.apply holds = some holds') (extra : α → Nat) :
    op.apply (fun a => holds a + extra a) = some fun a => holds' a + extra a := by
  cases op with
  | take a =>
      obtain rfl := Option.some.inj h
      refine congrArg some (funext fun b => ?_)
      dsimp only
      split <;> omega
  | drop a =>
      rw [LockOp.apply] at h
      split at h
      · simp at h
      · rename_i hheld
        obtain rfl := Option.some.inj h
        rw [LockOp.apply, if_neg (by omega)]
        refine congrArg some (funext fun b => ?_)
        by_cases hb : b = a
        · subst hb
          simp only [↓reduceIte]
          omega
        · simp only [if_neg hb]

/-- Holds of others do not disturb a sequence. -/
theorem replay_frame {ops : List (LockOp α)} {holds holds' : α → Nat}
    (h : replay ops holds = some holds') (extra : α → Nat) :
    replay ops (fun a => holds a + extra a) = some fun a => holds' a + extra a := by
  induction ops generalizing holds with
  | nil =>
      obtain rfl := Option.some.inj h
      rfl
  | cons op ops ih =>
      rw [replay] at h ⊢
      obtain ⟨mid, hop, hrest⟩ := Option.bind_eq_some_iff.1 h
      rw [apply_frame hop extra, Option.bind_some]
      exact ih hrest

/-- A balanced sequence leaves all holds as they were. -/
theorem Balanced.replay {ops : List (LockOp α)} (h : Balanced ops) (holds : α → Nat) :
    replay ops holds = some holds := by
  have hframe := replay_frame h holds
  simp only [Nat.zero_add] at hframe
  exact hframe

theorem balanced_nil : Balanced ([] : List (LockOp α)) := rfl

theorem Balanced.append {xs ys : List (LockOp α)} (hx : Balanced xs) (hy : Balanced ys) :
    Balanced (xs ++ ys) := by
  rw [Balanced, replay_append, hx, Option.bind_some]
  exact hy

/-- Around a balanced sequence a lock may be taken and released. -/
theorem Balanced.bracket {ops : List (LockOp α)} (h : Balanced ops) (a : α) :
    Balanced (.take a :: ops ++ [.drop a]) := by
  rw [Balanced, List.cons_append, Lib.replay, LockOp.apply, Option.bind_some, replay_append,
    h.replay, Option.bind_some, Lib.replay, LockOp.apply, if_neg (by simp), Option.bind_some,
    Lib.replay]
  refine congrArg some (funext fun b => ?_)
  by_cases hb : b = a <;> simp [hb]

/-- A sequence that takes one more lock than a balanced one is not balanced. -/
theorem Balanced.not_insert_take {xs ys : List (LockOp α)} (h : Balanced (xs ++ ys)) (a : α) :
    ¬ Balanced (xs ++ .take a :: ys) := by
  intro hmore
  rw [Balanced, replay_append] at h hmore
  obtain ⟨mid, hxs, hys⟩ := Option.bind_eq_some_iff.1 h
  have hframe := replay_frame hys fun b => if b = a then 1 else 0
  have hmid : (fun b => if b = a then mid b + 1 else mid b) =
      fun b => mid b + if b = a then 1 else 0 := by
    funext b
    split <;> rfl
  rw [hxs, Option.bind_some, Lib.replay, LockOp.apply, Option.bind_some, hmid, hframe,
    Option.some.injEq] at hmore
  have hone := congrFun hmore a
  simp at hone

/-- A sequence that starts by releasing a lock is not balanced. -/
theorem not_balanced_drop (a : α) (ops : List (LockOp α)) : ¬ Balanced (.drop a :: ops) := by
  intro h
  rw [Balanced, Lib.replay, LockOp.apply, if_pos rfl] at h
  simp at h

end Laminar.Lib
