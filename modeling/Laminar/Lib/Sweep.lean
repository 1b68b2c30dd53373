import Mathlib.Algebra.GroupWithZero.Nat
import Mathlib.Data.Finset.Basic
import Mathlib.Logic.Function.Basic
import Mathlib.Order.BoundedOrder.Basic
import Mathlib.Order.Monotone.Defs

/-!
# Sweeping a system of monotone equations

A system of equations `x b = rhs b x` over an order with a least element, solved by
sweeps: start from `⊥`, visit the unknowns in a fixed order, replace each by its
right-hand side, and stop after a sweep that changes nothing.  New values are used
at once, in the same sweep.

The values only grow, so with a rank that strict growth increases the sweeps come to
an end (`sweeps_isSome`), at a solution (`sweeps_spec`), which is the least one
(`sweeps_le`).  A log may be kept on the way; what a visit may add to it is described by
an invariant, and what the last sweep adds to it is known (`sweeps_noted`).
-/

namespace Laminar.Lib

/-- A system of monotone equations, with a bound on the values and a rank. -/
structure Equations (ι L : Type) [PartialOrder L] where
  rhs : ι → (ι → L) → L
  mono : ∀ b, Monotone (rhs b)
  top : L
  rhs_le_top : ∀ b x, (∀ c, x c ≤ top) → rhs b x ≤ top
  rank : L → Nat
  rank_lt : ∀ u v, u < v → rank u < rank v

namespace Equations

variable {ι L γ : Type} [PartialOrder L] (eqs : Equations ι L)

/-- The values are below their right-hand sides and below the bound. -/
structure Growing (x : ι → L) : Prop where
  le_rhs : ∀ b, x b ≤ eqs.rhs b x
  le_top : ∀ b, x b ≤ eqs.top

theorem growing_bot [OrderBot L] : eqs.Growing fun _ => ⊥ :=
  ⟨fun _ => bot_le, fun _ => bot_le⟩

theorem rank_le {u v : L} (h : u ≤ v) : eqs.rank u ≤ eqs.rank v := by
  rcases eq_or_lt_of_le h with rfl | hlt
  · exact Nat.le_refl _
  · exact Nat.le_of_lt (eqs.rank_lt u v hlt)

/-! ## The sweeps -/

section Sweeps

variable [DecidableEq ι] [DecidableEq L] (note : ι → (ι → L) → γ → γ)

/-- The unknowns, the log and whether the current sweep has changed anything. -/
structure Sweep (ι L γ : Type) where
  value : ι → L
  log : γ
  changed : Bool

/-- Visit one unknown. -/
def visit (s : Sweep ι L γ) (b : ι) : Sweep ι L γ :=
  let new := eqs.rhs b s.value
  let log := note b s.value s.log
  if s.value b = new then { s with log := log }
  else ⟨Function.update s.value b new, log, true⟩

/-- One sweep. -/
def sweep (order : List ι) (x : ι → L) (log : γ) : Sweep ι L γ :=
  order.foldl (eqs.visit note) ⟨x, log, false⟩

/-- Sweep until nothing changes; `none` if that takes more than `fuel` sweeps. -/
def sweeps (order : List ι) : Nat → (ι → L) → γ → Option ((ι → L) × γ)
  | 0, _, _ => none
  | fuel + 1, x, log =>
      let s := eqs.sweep note order x log
      if s.changed then sweeps order fuel s.value s.log else some (s.value, s.log)

end Sweeps

/-! ## Growth -/

section Growth

variable [DecidableEq ι] {eqs}

theorem Growing.le_update {x : ι → L} (hx : eqs.Growing x) (b : ι) :
    x ≤ Function.update x b (eqs.rhs b x) := by
  intro c
  by_cases hc : c = b
  · subst hc
    rw [Function.update_self]
    exact hx.le_rhs c
  · rw [Function.update_of_ne hc]

theorem Growing.update {x : ι → L} (hx : eqs.Growing x) (b : ι) :
    eqs.Growing (Function.update x b (eqs.rhs b x)) := by
  have hle := hx.le_update b
  refine ⟨fun c => ?_, fun c => ?_⟩
  · by_cases hc : c = b
    · subst hc
      rw [Function.update_self]
      exact eqs.mono c hle
    · rw [Function.update_of_ne hc]
      exact le_trans (hx.le_rhs c) (eqs.mono c hle)
  · by_cases hc : c = b
    · subst hc
      rw [Function.update_self]
      exact eqs.rhs_le_top c x hx.le_top
    · rw [Function.update_of_ne hc]
      exact hx.le_top c

end Growth

section Visits

variable [DecidableEq ι] [DecidableEq L] {eqs} {note : ι → (ι → L) → γ → γ}

/-- What the visits of a sweep preserve, for a log whose invariant `P` every visit
keeps. -/
theorem foldl_visit {P : (ι → L) → γ → Prop}
    (hnote : ∀ b x log, eqs.Growing x → P x log →
      P (Function.update x b (eqs.rhs b x)) (note b x log))
    (order : List ι) (s : Sweep ι L γ) (hs : eqs.Growing s.value) (hP : P s.value s.log) :
    let s' := order.foldl (eqs.visit note) s
    eqs.Growing s'.value ∧ s.value ≤ s'.value ∧ P s'.value s'.log := by
  induction order generalizing s with
  | nil => exact ⟨hs, le_refl _, hP⟩
  | cons b order ih =>
      have hvisit : eqs.Growing (eqs.visit note s b).value ∧
          s.value ≤ (eqs.visit note s b).value ∧
          P (eqs.visit note s b).value (eqs.visit note s b).log := by
        have hnew := hnote b s.value s.log hs hP
        dsimp only [visit]
        split
        · rename_i heq
          rw [← heq, Function.update_eq_self] at hnew
          exact ⟨hs, le_refl _, hnew⟩
        · exact ⟨hs.update b, hs.le_update b, hnew⟩
      obtain ⟨hgrow, hle, hlog⟩ := hvisit
      obtain ⟨hgrow', hle', hlog'⟩ := ih _ hgrow hlog
      exact ⟨hgrow', le_trans hle hle', hlog'⟩

variable (note)

theorem foldl_visit_le (order : List ι) (s : Sweep ι L γ) (hs : eqs.Growing s.value) :
    eqs.Growing (order.foldl (eqs.visit note) s).value ∧
      s.value ≤ (order.foldl (eqs.visit note) s).value :=
  have hvisit : _ ∧ _ ∧ True :=
    foldl_visit (P := fun _ _ => True) (fun _ _ _ _ _ => trivial) order s hs trivial
  ⟨hvisit.1, hvisit.2.1⟩

/-- A sweep says that it changed something exactly if it did, and otherwise its
unknowns solve their equations. -/
theorem foldl_visit_changed (order : List ι) (s : Sweep ι L γ) (hs : eqs.Growing s.value) :
    let s' := order.foldl (eqs.visit note) s
    (s'.changed = false → s.changed = false ∧ s'.value = s.value ∧
      ∀ b ∈ order, s.value b = eqs.rhs b s.value) ∧
    (s'.changed = true → s.changed = true ∨ ∃ b ∈ order, s.value b < s'.value b) := by
  induction order generalizing s with
  | nil => exact ⟨fun h => ⟨h, rfl, fun b hb => absurd hb List.not_mem_nil⟩, Or.inl⟩
  | cons b order ih =>
      rw [List.foldl_cons]
      by_cases heq : s.value b = eqs.rhs b s.value
      · have hvisit : eqs.visit note s b = { s with log := note b s.value s.log } := by
          dsimp only [visit]
          rw [if_pos heq]
        rw [hvisit]
        obtain ⟨hfalse, htrue⟩ := ih { s with log := note b s.value s.log } hs
        refine ⟨fun h => ?_, fun h => ?_⟩
        · obtain ⟨hch, hval, hsol⟩ := hfalse h
          exact ⟨hch, hval, List.forall_mem_cons.2 ⟨heq, hsol⟩⟩
        · rcases htrue h with hch | ⟨c, hc, hlt⟩
          · exact Or.inl hch
          · exact Or.inr ⟨c, List.mem_cons_of_mem b hc, hlt⟩
      · have hvisit : eqs.visit note s b =
            ⟨Function.update s.value b (eqs.rhs b s.value), note b s.value s.log, true⟩ := by
          dsimp only [visit]
          rw [if_neg heq]
        rw [hvisit]
        obtain ⟨hfalse, -⟩ := ih ⟨Function.update s.value b (eqs.rhs b s.value),
          note b s.value s.log, true⟩ (hs.update b)
        have hle : Function.update s.value b (eqs.rhs b s.value) ≤ _ :=
          (foldl_visit_le note order ⟨Function.update s.value b (eqs.rhs b s.value),
            note b s.value s.log, true⟩ (hs.update b)).2
        refine ⟨fun h => absurd (hfalse h).1 (by simp), fun _ => Or.inr ⟨b, List.mem_cons_self, ?_⟩⟩
        have hlt : s.value b < eqs.rhs b s.value := lt_of_le_of_ne (hs.le_rhs b) heq
        have hb := hle b
        rw [Function.update_self] at hb
        exact lt_of_lt_of_le hlt hb

/-- What every note keeps, a sweep keeps. -/
theorem foldl_visit_log {R : γ → Prop} (hkeep : ∀ b x log, R log → R (note b x log))
    (order : List ι) (s : Sweep ι L γ) (hs : R s.log) :
    R (order.foldl (eqs.visit note) s).log := by
  induction order generalizing s with
  | nil => exact hs
  | cons b order ih =>
      apply ih
      dsimp only [visit]
      split <;> exact hkeep b _ _ hs

/-- A sweep that changes nothing notes every unknown with the values it started from. -/
theorem foldl_visit_noted {R : ι → γ → Prop} (hkeep : ∀ c b x log, R c log → R c (note b x log))
    (order : List ι) (s : Sweep ι L γ) (hs : eqs.Growing s.value)
    (hnote : ∀ b log, R b (note b s.value log))
    (hchanged : (order.foldl (eqs.visit note) s).changed = false) :
    ∀ b ∈ order, R b (order.foldl (eqs.visit note) s).log := by
  induction order generalizing s with
  | nil => exact fun b hb => absurd hb List.not_mem_nil
  | cons b order ih =>
      have hvisit : (eqs.visit note s b).changed = false :=
        have hgrow := (foldl_visit_le note [b] s hs).1
        ((foldl_visit_changed note order (eqs.visit note s b) hgrow).1 hchanged).1
      have hsame : eqs.visit note s b = { s with log := note b s.value s.log } := by
        dsimp only [visit] at hvisit ⊢
        split
        · rfl
        · rename_i hne
          rw [if_neg hne] at hvisit
          cases hvisit
      rw [List.foldl_cons, hsame] at hchanged ⊢
      refine List.forall_mem_cons.2 ⟨?_, ih _ hs hnote hchanged⟩
      exact foldl_visit_log note (hkeep b) order _ (hnote b s.log)

end Visits

/-! ## The end of the sweeps -/

section Weight

/-- The sum of the ranks, which every sweep that changes something increases. -/
def weight (order : List ι) (x : ι → L) : Nat := (order.map fun b => eqs.rank (x b)).sum

theorem weight_le (order : List ι) {x y : ι → L} (h : x ≤ y) :
    eqs.weight order x ≤ eqs.weight order y := by
  induction order with
  | nil => exact Nat.le_refl _
  | cons b order ih =>
      have hb := eqs.rank_le (h b)
      simp only [weight, List.map_cons, List.sum_cons] at ih ⊢
      omega

theorem weight_lt {order : List ι} {x y : ι → L} (h : x ≤ y) {b : ι} (hb : b ∈ order)
    (hlt : x b < y b) : eqs.weight order x < eqs.weight order y := by
  induction order with
  | nil => exact absurd hb List.not_mem_nil
  | cons c order ih =>
      have hc := eqs.rank_le (h c)
      have hrest := eqs.weight_le order h
      simp only [weight, List.map_cons, List.sum_cons] at ih hrest ⊢
      rcases List.mem_cons.1 hb with rfl | hmem
      · have := eqs.rank_lt _ _ hlt
        omega
      · have := ih hmem
        omega

theorem weight_le_top (order : List ι) {x : ι → L} (hx : eqs.Growing x) :
    eqs.weight order x ≤ order.length * eqs.rank eqs.top := by
  induction order with
  | nil => exact Nat.zero_le _
  | cons b order ih =>
      have hb := eqs.rank_le (hx.le_top b)
      simp only [weight, List.map_cons, List.sum_cons, List.length_cons, Nat.succ_mul] at ih ⊢
      omega

end Weight

section End

variable [DecidableEq ι] [DecidableEq L] {eqs} {note : ι → (ι → L) → γ → γ}

/-- With as much fuel as the weight can still grow the sweeps come to an end. -/
theorem sweeps_isSome (order : List ι) (fuel : Nat) {x : ι → L} (log : γ)
    (hx : eqs.Growing x)
    (hfuel : order.length * eqs.rank eqs.top < fuel + eqs.weight order x) :
    (eqs.sweeps note order fuel x log).isSome = true := by
  induction fuel generalizing x log with
  | zero =>
      have := eqs.weight_le_top order hx
      omega
  | succ fuel ih =>
      rw [sweeps]
      cases hchanged : (eqs.sweep note order x log).changed with
      | false => rfl
      | true =>
          obtain ⟨hgrow, hle⟩ := foldl_visit_le note order ⟨x, log, false⟩ hx
          obtain ⟨b, hb, hlt⟩ := ((foldl_visit_changed note order ⟨x, log, false⟩ hx).2
            hchanged).resolve_left (by simp)
          have hmore : eqs.weight order x < eqs.weight order (eqs.sweep note order x log).value :=
            eqs.weight_lt hle hb hlt
          exact ih _ hgrow (by omega)

/-- What holds when the sweeps have come to an end: the values solve the equations
of the order, and the log has kept its invariant. -/
theorem sweeps_spec {P : (ι → L) → γ → Prop}
    (hnote : ∀ b x log, eqs.Growing x → P x log →
      P (Function.update x b (eqs.rhs b x)) (note b x log))
    {order : List ι} {fuel : Nat} {x y : ι → L} {log log' : γ} (hx : eqs.Growing x)
    (hP : P x log) (h : eqs.sweeps note order fuel x log = some (y, log')) :
    (∀ b ∈ order, y b = eqs.rhs b y) ∧ P y log' := by
  induction fuel generalizing x log with
  | zero => simp [sweeps] at h
  | succ fuel ih =>
      rw [sweeps] at h
      obtain ⟨hgrow, -, hlog⟩ := foldl_visit hnote order ⟨x, log, false⟩ hx hP
      cases hchanged : (eqs.sweep note order x log).changed with
      | true =>
          simp only [hchanged] at h
          exact ih hgrow hlog h
      | false =>
          simp only [hchanged, Bool.false_eq_true, ↓reduceIte] at h
          obtain ⟨rfl, rfl⟩ := Prod.mk.inj (Option.some.inj h)
          obtain ⟨-, hval, hsol⟩ := (foldl_visit_changed note order ⟨x, log, false⟩ hx).1 hchanged
          refine ⟨fun b hb => ?_, hlog⟩
          exact (congrFun hval b).trans ((hsol b hb).trans (congrArg (eqs.rhs b) hval.symm))

/-- The end of the sweeps is below every solution. -/
theorem sweeps_le {order : List ι} {fuel : Nat} {x y z : ι → L} {log log' : γ}
    (hx : eqs.Growing x) (hz : ∀ b, z b = eqs.rhs b z) (hxz : x ≤ z)
    (h : eqs.sweeps note order fuel x log = some (y, log')) : y ≤ z := by
  refine (sweeps_spec (P := fun x _ => x ≤ z) (fun b x _ _ hle c => ?_) hx hxz h).2
  by_cases hc : c = b
  · subst hc
    rw [Function.update_self, hz c]
    exact eqs.mono c hle
  · rw [Function.update_of_ne hc]
    exact hle c

/-- The last sweep has noted every unknown with the values at the end. -/
theorem sweeps_noted {R : ι → γ → Prop} (hkeep : ∀ c b x log, R c log → R c (note b x log))
    {order : List ι} {fuel : Nat} {x y : ι → L} {log log' : γ} (hx : eqs.Growing x)
    (hnote : ∀ b log, R b (note b y log))
    (h : eqs.sweeps note order fuel x log = some (y, log')) : ∀ b ∈ order, R b log' := by
  induction fuel generalizing x log with
  | zero => simp [sweeps] at h
  | succ fuel ih =>
      rw [sweeps] at h
      cases hchanged : (eqs.sweep note order x log).changed with
      | true =>
          simp only [hchanged] at h
          exact ih (foldl_visit_le note order ⟨x, log, false⟩ hx).1 h
      | false =>
          simp only [hchanged, Bool.false_eq_true, ↓reduceIte] at h
          obtain ⟨rfl, rfl⟩ := Prod.mk.inj (Option.some.inj h)
          have hval : (eqs.sweep note order x log).value = x :=
            ((foldl_visit_changed note order ⟨x, log, false⟩ hx).1 hchanged).2.1
          rw [hval] at hnote
          exact foldl_visit_noted note hkeep order ⟨x, log, false⟩ hx hnote hchanged

/-- A log that collects what the visits find, more for larger values, has at the end
just what is found for the last values, although it was filled on the way. -/
theorem sweeps_collected {α : Type} [DecidableEq α] {found : ι → (ι → L) → Finset α}
    (hmono : ∀ b, Monotone (found b)) {order : List ι} (horder : ∀ b, b ∈ order) {fuel : Nat}
    {x y : ι → L} {log : Finset α} (hx : eqs.Growing x)
    (h : eqs.sweeps (fun b x log => log ∪ found b x) order fuel x ∅ = some (y, log)) (a : α) :
    a ∈ log ↔ ∃ b, a ∈ found b y := by
  constructor
  · refine (sweeps_spec (P := fun x log => ∀ a ∈ log, ∃ b, a ∈ found b x)
      (fun b x log hgrow hlog a ha => ?_) hx (fun a ha => absurd ha (Finset.notMem_empty a)) h).2 a
    have hle := hgrow.le_update b
    rcases Finset.mem_union.1 ha with hold | hnew
    · obtain ⟨c, hc⟩ := hlog a hold
      exact ⟨c, hmono c hle hc⟩
    · exact ⟨b, hmono b hle hnew⟩
  · rintro ⟨b, hb⟩
    have hkeep : ∀ c b x (log : Finset α), found c y ⊆ log → found c y ⊆ log ∪ found b x :=
      fun c b x log hlog => hlog.trans Finset.subset_union_left
    exact sweeps_noted hkeep hx (fun b log => Finset.subset_union_right) h b (horder b) hb

end End

end Equations

end Laminar.Lib
