import Laminar.Lib.Locks
import Mathlib.Data.Set.Insert
import Mathlib.Logic.Function.Basic

/-!
# Tasks that wait for locks

Tasks run calls at the same time, each a sequence of lock operations.  A lock that is held, by
whomever, cannot be taken: the task waits.  A deadlock is a set of tasks that all wait for locks
held in the set; one task that waits for itself is enough.

The usual rule excludes deadlocks: every call takes its locks in ascending order and releases
what it took.  `Ordered` states the rule for what the tasks have still to do, `advance` and
`start` keep it, and `Ordered.not_deadlocked` draws the conclusion.
-/

namespace Laminar.Lib

variable {T L : Type}

/-- What each task has still to do in its call, and who holds each lock. -/
structure Waiting (T L : Type) where
  pending : T → List (LockOp L)
  holder : L → Option T

namespace Waiting

/-- No task is in a call. -/
def idle : Waiting T L := ⟨fun _ => [], fun _ => none⟩

/-- The next operation of `t` takes a lock that `u` holds. -/
def WaitsFor (s : Waiting T L) (t u : T) : Prop :=
  ∃ a ops, s.pending t = .take a :: ops ∧ s.holder a = some u

/-- Every task of the set waits for a lock that a task of the set holds. -/
def Deadlocked (s : Waiting T L) (tasks : Set T) : Prop :=
  tasks.Nonempty ∧ ∀ t ∈ tasks, ∃ u ∈ tasks, s.WaitsFor t u

/-- With the locks `held` the operations can be performed, take locks in ascending order, and
release them all. -/
def Ascending (rank : L → Nat) : Set L → List (LockOp L) → Prop
  | held, [] => held = ∅
  | held, .take a :: ops => (∀ b ∈ held, rank b < rank a) ∧ Ascending rank (insert a held) ops
  | held, .drop a :: ops => a ∈ held ∧ Ascending rank (held \ {a}) ops

/-- One call may follow another. -/
theorem Ascending.append {rank : L → Nat} {xs ys : List (LockOp L)} {held : Set L}
    (hx : Ascending rank held xs) (hy : Ascending rank ∅ ys) : Ascending rank held (xs ++ ys) := by
  induction xs generalizing held with
  | nil =>
      obtain rfl : held = ∅ := hx
      exact hy
  | cons op xs ih =>
      cases op with
      | take a => exact ⟨hx.1, ih hx.2⟩
      | drop a => exact ⟨hx.1, ih hx.2⟩

/-- The locks a task holds. -/
def held (s : Waiting T L) (t : T) : Set L := { a | s.holder a = some t }

/-- What the tasks have still to do obeys the rule. -/
def Ordered (rank : L → Nat) (s : Waiting T L) : Prop :=
  ∀ t, Ascending rank (s.held t) (s.pending t)

variable {rank : L → Nat} {s s' : Waiting T L} {t : T}

theorem ordered_idle : Ordered rank (idle : Waiting T L) :=
  fun _ => Set.eq_empty_of_forall_notMem fun _ h => nomatch h

/-- A task that waits for a lock holds only smaller ones. -/
theorem Ordered.lt_of_waits (h : Ordered rank s) {a b : L} {ops : List (LockOp L)}
    (hpending : s.pending t = .take a :: ops) (hb : s.holder b = some t) : rank b < rank a := by
  have ht := h t
  rw [hpending] at ht
  exact ht.1 b hb

/-- **Locks taken in ascending order cannot deadlock.**  A task of a deadlocked set waits for a
lock, and the holder of that lock waits for a greater one. -/
theorem Ordered.not_deadlocked (h : Ordered rank s) {bound : Nat} (hbound : ∀ a, rank a < bound)
    (tasks : Set T) : ¬ s.Deadlocked tasks := by
  rintro ⟨⟨t, ht⟩, hwaits⟩
  -- the induction is on the room above the lock that `t` waits for
  have hchain : ∀ room, ∀ t ∈ tasks, ∀ a ops, s.pending t = .take a :: ops →
      bound - rank a = room → False := by
    intro room
    induction room using Nat.strongRecOn with
    | ind room ih =>
        intro t ht a ops hpending hroom
        obtain ⟨u, hu, a', ops', hpending', hholder⟩ := hwaits t ht
        obtain ⟨-, -, b, ops'', hpendingu, -⟩ := hwaits u hu
        rw [hpending] at hpending'
        obtain ⟨hop, -⟩ := List.cons.inj hpending'
        obtain rfl := LockOp.take.inj hop
        have hlt := h.lt_of_waits hpendingu hholder
        have hb := hbound b
        exact ih (bound - rank b) (by omega) u hu b ops'' hpendingu rfl
  obtain ⟨-, -, a, ops, hpending, -⟩ := hwaits t ht
  exact hchain _ t ht a ops hpending rfl

/-- A lock whose holder changes, seen from a task that is neither. -/
private theorem holder_update [DecidableEq L] {a : L} {new : Option T} {u : T}
    (hold : s.holder a ≠ some u) (hnew : new ≠ some u) (b : L) :
    Function.update s.holder a new b = some u ↔ s.holder b = some u := by
  by_cases hb : b = a
  · subst hb
    rw [Function.update_self]
    exact ⟨fun h => absurd h hnew, fun h => absurd h hold⟩
  · rw [Function.update_of_ne hb]

variable [DecidableEq T]

/-- A task that is in no call begins one. -/
def start (s : Waiting T L) (t : T) (ops : List (LockOp L)) : Option (Waiting T L) :=
  match s.pending t with
  | [] => some { s with pending := Function.update s.pending t ops }
  | _ :: _ => none

/-- The rule is kept if the other tasks hold what they held. -/
theorem Ordered.update (h : Ordered rank s) {ops : List (LockOp L)} {holder : L → Option T}
    (hframe : ∀ u, u ≠ t → ∀ a, holder a = some u ↔ s.holder a = some u)
    (hops : Ascending rank { a | holder a = some t } ops) :
    Ordered rank ⟨Function.update s.pending t ops, holder⟩ := by
  intro u
  show Ascending rank { a | holder a = some u } (Function.update s.pending t ops u)
  by_cases hu : u = t
  · subst hu
    rw [Function.update_self]
    exact hops
  · rw [Function.update_of_ne hu, show { a | holder a = some u } = s.held u from
      Set.ext (hframe u hu)]
    exact h u

theorem Ordered.start (h : Ordered rank s) {ops : List (LockOp L)} (hops : Ascending rank ∅ ops)
    (hs : s.start t ops = some s') : Ordered rank s' := by
  unfold Waiting.start at hs
  split at hs
  · rename_i hpending
    obtain rfl := Option.some.inj hs
    have ht := h t
    rw [hpending] at ht
    refine h.update (fun _ _ _ => Iff.rfl) ?_
    rw [show { a | s.holder a = some t } = ∅ from ht]
    exact hops
  · exact nomatch hs

variable [DecidableEq L]

/-- A task performs the next operation of its call, unless it has to wait. -/
def advance (s : Waiting T L) (t : T) : Option (Waiting T L) :=
  match s.pending t with
  | [] => none
  | .take a :: ops =>
      match s.holder a with
      | some _ => none
      | none => some ⟨Function.update s.pending t ops, Function.update s.holder a (some t)⟩
  | .drop a :: ops =>
      some ⟨Function.update s.pending t ops, Function.update s.holder a none⟩

theorem Ordered.advance (h : Ordered rank s) (hs : s.advance t = some s') : Ordered rank s' := by
  have ht := h t
  unfold Waiting.advance at hs
  split at hs
  · exact nomatch hs
  · rename_i a ops hpending
    rw [hpending] at ht
    split at hs
    · exact nomatch hs
    · rename_i hfree
      obtain rfl := Option.some.inj hs
      have hheld : { b | Function.update s.holder a (some t) b = some t } =
          insert a (s.held t) := by
        ext b
        by_cases hb : b = a
        · subst hb
          simp
        · simp [hb, held]
      refine h.update (fun u hu => holder_update ?_ ?_) (hheld ▸ ht.2)
      · rw [hfree]
        exact nofun
      · exact fun heq => hu (Option.some.inj heq).symm
  · rename_i a ops hpending
    rw [hpending] at ht
    obtain rfl := Option.some.inj hs
    have hheld : { b | Function.update s.holder a none b = some t } = s.held t \ {a} := by
      ext b
      by_cases hb : b = a
      · subst hb
        simp
      · simp [hb, held]
    refine h.update (fun u hu => holder_update ?_ nofun) (hheld ▸ ht.2)
    rw [show s.holder a = some t from ht.1]
    exact fun heq => hu (Option.some.inj heq).symm

end Waiting

end Laminar.Lib
