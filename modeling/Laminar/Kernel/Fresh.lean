import Mathlib.Data.List.Nodup
import Laminar.Kernel.Rights

/-!
# Are allocated labels fresh?

`difc_alloc_label` hands out the low thirty bits of a counter of thirty-two bits.  The
counter starts at `CAP_START_VAL` and is never compared with `CAP_MAX_VAL`: the call
number `n` sees the counter `n + 1`, of which the label keeps the low bits and a
capability the others.  The call number `2 ^ 30 - 1` returns `LABEL_TCB`, in a capability
that carries PLUS whatever its `type`.

A run records each call with the state before it and after it.  `fresh_iff` says that
the labels are fresh and the capabilities as asked for exactly in the runs that are too
short to get there.
-/

namespace Laminar.Kernel

open Laminar.Lib

/-! ## Runs of allocations -/

/-- A call of `difc_alloc_label`. -/
structure AllocCall where
  pid : Pid
  type : BitVec 32
  region : Int

/-- A call that returned `label`. -/
structure Allocation where
  call : AllocCall
  before : Kernel
  label : LabelT
  after : Kernel

/-- The kernel and the allocations so far, oldest first. -/
structure Allocated where
  kernel : Kernel
  allocations : List Allocation

/-- One call that returns. -/
def Allocated.step (st : Allocated) (c : AllocCall) : Option Allocated :=
  match st.kernel.task c.pid with
  | none => none
  | some tsk =>
      match difcAllocLabel st.kernel c.pid tsk c.type c.region with
      | .ok (label, k) => some ⟨k, st.allocations ++ [⟨c, st.kernel, label, k⟩]⟩
      | .error _ => none

namespace Allocation

/-- The call added an entry `cap` to the list at `place`. -/
def Added (a : Allocation) (place : Place) (cap : CapabilityT) : Prop :=
  (a.before.listAt place).caps.count cap < (a.after.listAt place).caps.count cap

/-- The entries that the call added are for its label, with the signs asked for. -/
def AsAsked (a : Allocation) : Prop :=
  ∀ place cap, a.Added place cap →
    labelPart cap = a.label ∧ ∀ s, carries cap s = requests a.call.type s

end Allocation

/-- The labels are distinct and not `LABEL_TCB`, and the entries as asked for. -/
structure Allocated.Fresh (st : Allocated) : Prop where
  distinct : (st.allocations.map Allocation.label).Nodup
  notTcb : ∀ a ∈ st.allocations, a.label ≠ labelTcb
  asAsked : ∀ a ∈ st.allocations, a.AsAsked

/-! ## One allocation -/

theorem count_pushCap (list : CapList) (cap c : CapabilityT) :
    (pushCap list cap).caps.count c = list.caps.count c + [cap].count c := by
  rw [(caps_pushCap_perm list cap).count_eq, ← List.singleton_append, List.count_append,
    Nat.add_comm]

/-- Handing out a capability keeps the counter and adds no other entry. -/
private theorem allocTo_spec {cap : CapabilityT} {qs : List Pid} {k k' : Kernel}
    (h : qs.foldlM (difcAllocLabelTo cap) k = .ok k') :
    k'.curMaxCapability = k.curMaxCapability ∧ ∀ place c, c ≠ cap →
      (k'.listAt place).caps.count c = (k.listAt place).caps.count c := by
  refine foldlM_invariant (P := fun k₁ => k₁.curMaxCapability = k.curMaxCapability ∧
    ∀ place c, c ≠ cap →
      (k₁.listAt place).caps.count c = (k.listAt place).caps.count c) ?_ ⟨rfl, by intros; rfl⟩ h
  rintro k₁ q _ k₂ ⟨hcounter, hcount⟩ hone
  unfold difcAllocLabelTo at hone
  split at hone
  · obtain rfl := Except.ok.inj hone
    refine ⟨hcounter, ?_⟩
    intro place c hc
    rw [← hcount place c hc]
    have hnone : [cap].count c = 0 := List.count_eq_zero.2 (by simpa using hc)
    cases place with
    | capList p =>
        simp only [Kernel.listAt, Kernel.security_modifySecurity]
        split
        · cases k₁.security p with
          | none => rfl
          | some tsec =>
              show (pushCap tsec.capList cap).caps.count c = tsec.capList.caps.count c
              rw [count_pushCap, hnone, Nat.add_zero]
        · rfl
    | capSuspendList p =>
        simp only [Kernel.listAt, Kernel.security_modifySecurity]
        split
        · cases k₁.security p <;> rfl
        · rfl
  · simp at hone

/-- What a call does that sees the counter `counter`. -/
structure Allocation.With (a : Allocation) (counter : BitVec 32) : Prop where
  label : a.label = labelPart (newCap counter a.call.type)
  added : ∀ place cap, a.Added place cap → cap = newCap counter a.call.type

theorem difcAllocLabel_spec {k k' : Kernel} {p : Pid} {tsk : Task} {type : BitVec 32}
    {region : Int} {l : LabelT} (h : difcAllocLabel k p tsk type region = .ok (l, k')) :
    k'.curMaxCapability = k.curMaxCapability + 1#32 ∧
      Allocation.With ⟨⟨p, type, region⟩, k, l, k'⟩ (k.curMaxCapability + 1#32) := by
  unfold difcAllocLabel at h
  obtain ⟨k₁, hfold, hret⟩ := bind_eq_ok.mp h
  obtain ⟨rfl, rfl⟩ := Prod.mk.inj (Except.ok.inj hret)
  obtain ⟨hcounter, hcount⟩ := allocTo_spec hfold
  refine ⟨hcounter, rfl, ?_⟩
  intro place cap hadded
  by_cases hcap : cap = newCap (k.curMaxCapability + 1#32) type
  · exact hcap
  · have hlt : (k.listAt place).caps.count cap < (k₁.listAt place).caps.count cap := hadded
    have hsame : (k₁.listAt place).caps.count cap = (k.listAt place).caps.count cap := by
      rw [hcount place cap hcap]
      cases place <;> rfl
    omega

/-! ## Runs -/

namespace Allocated

/-- After `n` calls: the counter, and what each call saw of it. -/
structure Counted (n : Nat) (st : Allocated) : Prop where
  counter : st.kernel.curMaxCapability = BitVec.ofNat 32 (n + 1)
  length : st.allocations.length = n
  calls : ∀ (i : Nat) (a : Allocation), st.allocations[i]? = some a →
    a.With (BitVec.ofNat 32 (i + 2))

theorem Counted.step {n : Nat} {st st' : Allocated} {c : AllocCall} (h : st.Counted n)
    (hstep : st.step c = some st') : st'.Counted (n + 1) := by
  unfold Allocated.step at hstep
  split at hstep
  · cases hstep
  · split at hstep
    · rename_i label k hcall
      cases hstep
      obtain ⟨hcounter, hwith⟩ := difcAllocLabel_spec hcall
      have hnext : st.kernel.curMaxCapability + 1#32 = BitVec.ofNat 32 (n + 2) := by
        rw [h.counter, ← BitVec.ofNat_add]
      rw [hnext] at hcounter hwith
      constructor
      · exact hcounter
      · rw [List.length_append, h.length, List.length_singleton]
      · intro i a hi
        by_cases hlast : i < n
        · apply h.calls i a
          rwa [List.getElem?_append_left (by rw [h.length]; exact hlast)] at hi
        · rw [List.getElem?_append_right (by rw [h.length]; omega), h.length,
            List.getElem?_singleton] at hi
          split at hi
          · cases hi
            obtain rfl : i = n := by omega
            exact hwith
          · cases hi
    · cases hstep

theorem counted_of_run {k₀ : Kernel} (hstart : k₀.curMaxCapability = capStartVal)
    {calls : List AllocCall} {st : Allocated}
    (hrun : Run step (fun _ _ => True) ⟨k₀, []⟩ calls st) : st.Counted calls.length := by
  induction hrun with
  | nil =>
      refine ⟨hstart, rfl, ?_⟩
      intro i a hi
      cases hi
  | snoc _ _ hstep ih =>
      rw [List.length_append]
      exact ih.step hstep

/-- The labels are the low thirty bits of 2, 3, 4 and so on. -/
theorem Counted.label_toNat {n : Nat} {st : Allocated} (h : st.Counted n) {i : Nat}
    {a : Allocation} (hi : st.allocations[i]? = some a) :
    a.label.toNat = (i + 2) % 2 ^ 30 := by
  rw [(h.calls i a hi).label, toNat_labelPart_newCap, BitVec.toNat_ofNat]
  omega

/-- Before the counter meets the sign bits, labels are fresh. -/
theorem Counted.fresh {n : Nat} {st : Allocated} (h : st.Counted n) (hn : n < 2 ^ 30 - 1) :
    st.Fresh := by
  have hlt : ∀ {i : Nat} {a : Allocation}, st.allocations[i]? = some a → i < n := by
    intro i a hi
    rw [← h.length]
    exact (List.getElem?_eq_some_iff.1 hi).1
  constructor
  · rw [List.nodup_iff_getElem?_ne_getElem?]
    intro i j hij hj heq
    rw [List.length_map] at hj
    rw [List.getElem?_map, List.getElem?_map, List.getElem?_eq_getElem (Nat.lt_trans hij hj),
      List.getElem?_eq_getElem hj] at heq
    have hi := h.label_toNat (List.getElem?_eq_getElem (Nat.lt_trans hij hj))
    have hj' := h.label_toNat (List.getElem?_eq_getElem hj)
    rw [Option.some.inj heq, hj'] at hi
    rw [h.length] at hj
    omega
  · intro a ha htcb
    obtain ⟨i, hi⟩ := List.mem_iff_getElem?.1 ha
    have hlabel := h.label_toNat hi
    have hin := hlt hi
    rw [htcb, show labelTcb.toNat = 0 from rfl] at hlabel
    omega
  · intro a ha place cap hadded
    obtain ⟨i, hi⟩ := List.mem_iff_getElem?.1 ha
    have hwith := h.calls i a hi
    have hin := hlt hi
    rw [hwith.added place cap hadded]
    refine ⟨hwith.label.symm, ?_⟩
    intro s
    apply carries_newCap
    rw [BitVec.toNat_ofNat]
    omega

/-- The call number `2 ^ 30 - 1` returns `LABEL_TCB`. -/
theorem Counted.not_fresh {n : Nat} {st : Allocated} (h : st.Counted n)
    (hn : 2 ^ 30 - 1 ≤ n) : ¬ st.Fresh := by
  intro hfresh
  have hlt : 2 ^ 30 - 2 < st.allocations.length := by
    rw [h.length]
    omega
  apply hfresh.notTcb _ (List.getElem_mem hlt)
  apply BitVec.eq_of_toNat_eq
  exact h.label_toNat (List.getElem?_eq_getElem hlt)

/-- **The labels of a run are fresh, and the capabilities as asked for, if and only if it
has fewer than `2 ^ 30 - 1` calls.** -/
theorem fresh_iff {k₀ : Kernel} (hstart : k₀.curMaxCapability = capStartVal)
    {calls : List AllocCall} {st : Allocated}
    (hrun : Run step (fun _ _ => True) ⟨k₀, []⟩ calls st) :
    st.Fresh ↔ calls.length < 2 ^ 30 - 1 := by
  have hcounted := counted_of_run hstart hrun
  constructor
  · intro hfresh
    by_contra hlong
    exact hcounted.not_fresh (by omega) hfresh
  · exact hcounted.fresh

/-- A task allocates for itself and for its group. -/
theorem fresh_iff_two : ∃ calls st,
    Run step (fun _ _ => True) ⟨bootKernel 1000, []⟩ calls st ∧ st.Fresh ∧
      st.allocations.map Allocation.label = [2#64, 3#64] ∧
      (st.kernel.listAt (.capList 1)).caps =
        [2#64 ||| Sign.plus.wide, 3#64 ||| Sign.minus.wide] := by
  have hrun : Run step (fun _ _ => True) ⟨bootKernel 1000, []⟩
      ([] ++ [⟨1, capPlusMask, regionSelf⟩] ++ [⟨1, capMinusMask, regionGroup⟩]) _ :=
    .snoc (.snoc .nil trivial rfl) trivial rfl
  exact ⟨_, _, hrun, (fresh_iff rfl hrun).2 (by decide), rfl, rfl⟩

/-- The first task, after some allocations that went to nobody. -/
private def bootAt (counter : BitVec 32) : Kernel :=
  { bootKernel 1000 with curMaxCapability := counter }

/-- Calls for `REGION_NONE` only count. -/
private theorem run_none (n : Nat) : ∃ allocations,
    Run step (fun _ _ => True) ⟨bootKernel 1000, []⟩ (List.replicate n ⟨1, 0#32, 0⟩)
      ⟨bootAt (BitVec.ofNat 32 (n + 1)), allocations⟩ := by
  induction n with
  | zero => exact ⟨[], .nil⟩
  | succ n ih =>
      obtain ⟨allocations, hrun⟩ := ih
      have hlast := hrun.snoc (a := ⟨1, 0#32, 0⟩) trivial rfl
      rw [← List.replicate_succ'] at hlast
      have hnext : BitVec.ofNat 32 (n + 1) + 1#32 = BitVec.ofNat 32 (n + 1 + 1) :=
        (BitVec.ofNat_add (n + 1) 1).symm
      exact ⟨_, hnext ▸ hlast⟩

/-- The next one is for the task itself and asks for no sign. -/
private theorem run_self (n : Nat) : ∃ calls st,
    Run step (fun _ _ => True) ⟨bootKernel 1000, []⟩ calls st ∧ calls.length = n + 1 ∧
      st.allocations.getLast?.map (fun a => (a.label, a.call.type)) =
        some (labelPart (newCap (BitVec.ofNat 32 (n + 2)) 0#32), 0#32) ∧
      newCap (BitVec.ofNat 32 (n + 2)) 0#32 ∈ (st.kernel.listAt (.capList 1)).caps := by
  obtain ⟨allocations, hrun⟩ := run_none n
  have hnext : BitVec.ofNat 32 (n + 2) = BitVec.ofNat 32 (n + 1) + 1#32 :=
    BitVec.ofNat_add (n + 1) 1
  rw [hnext]
  refine ⟨_, _, hrun.snoc (a := ⟨1, 0#32, regionSelf⟩) trivial rfl, ?_, ?_, ?_⟩
  · rw [List.length_append, List.length_replicate, List.length_singleton]
  · rw [List.getLast?_concat]
    rfl
  · exact List.mem_singleton_self _

/-- The call number `2 ^ 30 - 1`, for the task itself and without any sign, returns
`LABEL_TCB`, and the task has the PLUS capability for it. -/
theorem label_tcb_allocated : ∃ calls st,
    Run step (fun _ _ => True) ⟨bootKernel 1000, []⟩ calls st ∧
      calls.length = 2 ^ 30 - 1 ∧ ¬ st.Fresh ∧
      st.allocations.getLast?.map (fun a => (a.label, a.call.type)) = some (labelTcb, 0#32) ∧
      st.kernel.Grants (.capList 1) labelTcb .plus := by
  obtain ⟨calls, st, hrun, hlength, hlast, hcap⟩ := run_self (2 ^ 30 - 2)
  have hlabel : labelPart (newCap (BitVec.ofNat 32 (2 ^ 30 - 2 + 2)) 0#32) = labelTcb := by
    decide
  refine ⟨calls, st, hrun, hlength, ?_, ?_, ?_⟩
  · apply (counted_of_run rfl hrun).not_fresh
    omega
  · rw [hlast, hlabel]
  · exact ⟨_, hcap, hlabel, by decide⟩

end Allocated

end Laminar.Kernel
