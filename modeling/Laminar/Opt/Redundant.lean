import Mathlib.Data.Finset.Card
import Mathlib.Data.Finset.SDiff
import Laminar.Lib.Sweep
import Laminar.Opt.Ir

/-!
# Redundant barriers

`computeRedundantReadBarriers` of the early pass and `computeRedundantBarriers` of
the late pass are the same data-flow loop over sets of registers; they differ in the
instructions they regard as checks.  The early pass runs before barriers are
inserted and looks at allocations and accesses, the late pass looks at the barrier
calls.

The sets start empty, a block takes the intersection over its predecessors, and the
loop runs until a whole round over the blocks changes nothing.  Instructions found
redundant are collected in every round.
-/

namespace Laminar.Opt

open Laminar.Lib

/-- Which pass, and whether it looks for redundant reads or writes. -/
inductive Pass
  | early (reads : Bool)
  | late (reads : Bool)

/-- The operand a pass regards as checked by an instruction, and whether the
instruction may be redundant for a register that was checked before. -/
def Pass.useOperand : Pass → Instr → Option (Operand × Bool)
  | .early _, .new result => some (.reg result, true)
  | .early _, .newArray result => some (.reg result, true)
  | .early true, .getField _ ref => some (ref, true)
  | .early true, .aload _ array => some (array, true)
  | .early false, .putField ref => some (ref, true)
  | .early false, .astore array => some (array, true)
  | .early _, _ => none
  | .late _, .call .difcAllocBarrierDynamicMethod param => some (param, false)
  | .late _, .call .difcAllocBarrierInsideSRMethod param => some (param, false)
  | .late true, .call (.difcReadBarrierMethod _) param => some (param, true)
  | .late false, .call (.difcWriteBarrierMethod _) param => some (param, true)
  | .late _, _ => none

variable (pass : Pass)

/-! ## One instruction -/

/-- `thisFullRedSet` after the look at the operand. -/
def afterUse (i : Instr) (set : Finset Register) : Finset Register :=
  match pass.useOperand i with
  | some (.reg useReg, _) => insert useReg set
  | _ => set

/-- `thisFullRedSet` after the instruction.  A move whose source is not in the set
leaves its result alone. -/
def transfer (set : Finset Register) (i : Instr) : Finset Register :=
  match i with
  | .move defReg (.reg useReg) =>
      if useReg ∈ afterUse pass i set then insert defReg (afterUse pass i set)
      else afterUse pass i set
  | .move _ (.const _) => afterUse pass i set
  | _ => afterUse pass i set \ i.defs.toFinset

/-- The instruction is added to `fullRedInsts`. -/
def flags (i : Instr) (set : Finset Register) : Bool :=
  match pass.useOperand i with
  | some (.reg useReg, isUse) => decide (useReg ∈ set) && isUse
  | some (.const _, _) => true
  | none => false

/-! ## A block -/

/-- The set after some instructions. -/
def propagate (insts : List Instr) (set : Finset Register) : Finset Register :=
  insts.foldl (transfer pass) set

/-- The indices of the instructions found redundant, counting from `k`. -/
def flagged (k : Nat) : List Instr → Finset Register → Finset Nat
  | [], _ => ∅
  | i :: insts, set =>
      let rest := flagged (k + 1) insts (transfer pass set i)
      if flags pass i set then insert k rest else rest

/-- The sets of the predecessors, intersected. -/
def meet : List (Finset Register) → Finset Register
  | [] => ∅
  | first :: rest => rest.foldl (· ∩ ·) first

variable (ir : Ir)

/-- The set at the top of a block. -/
def inSet (sets : Nat → Finset Register) (b : Nat) : Finset Register :=
  meet ((ir.getIn b).map sets)

/-- The set at the bottom of a block. -/
def outSet (b : Nat) (sets : Nat → Finset Register) : Finset Register :=
  propagate pass (ir.insts b) (inSet ir sets b)

/-- The set in front of an instruction. -/
def pointSet (sets : Nat → Finset Register) (b k : Nat) : Finset Register :=
  propagate pass ((ir.insts b).take k) (inSet ir sets b)

/-! ## Monotonicity -/

section Mono

variable {set set' : Finset Register}

theorem afterUse_mono (i : Instr) (h : set ⊆ set') :
    afterUse pass i set ⊆ afterUse pass i set' := by
  unfold afterUse
  split
  · exact Finset.insert_subset_insert _ h
  · exact h

theorem transfer_mono (i : Instr) (h : set ⊆ set') :
    transfer pass set i ⊆ transfer pass set' i := by
  have huse := afterUse_mono pass i h
  unfold transfer
  split
  · split
    · rename_i hmem
      rw [if_pos (huse hmem)]
      exact Finset.insert_subset_insert _ huse
    · split
      · exact huse.trans (Finset.subset_insert _ _)
      · exact huse
  · exact huse
  · exact Finset.sdiff_subset_sdiff huse (Finset.Subset.refl _)

theorem propagate_mono (insts : List Instr) (h : set ⊆ set') :
    propagate pass insts set ⊆ propagate pass insts set' := by
  induction insts generalizing set set' with
  | nil => exact h
  | cons i insts ih => exact ih (transfer_mono pass i h)

theorem flags_mono {i : Instr} (h : set ⊆ set') (hi : flags pass i set = true) :
    flags pass i set' = true := by
  unfold flags at hi ⊢
  split at hi
  · rename_i useReg isUse
    rw [Bool.and_eq_true, decide_eq_true_eq] at hi ⊢
    exact ⟨h hi.1, hi.2⟩
  · rfl
  · simp at hi

theorem flagged_mono (k : Nat) (insts : List Instr) (h : set ⊆ set') :
    flagged pass k insts set ⊆ flagged pass k insts set' := by
  induction insts generalizing k set set' with
  | nil => exact Finset.Subset.refl _
  | cons i insts ih =>
      have hrest := ih (k + 1) (transfer_mono pass i h)
      rw [flagged, flagged]
      split
      · rename_i hi
        rw [if_pos (flags_mono pass h hi)]
        exact Finset.insert_subset_insert _ hrest
      · split
        · exact hrest.trans (Finset.subset_insert _ _)
        · exact hrest

private theorem foldl_inter_mono {B : Type} (ps : List B) {sets sets' : B → Finset Register}
    (hsets : ∀ p, sets p ⊆ sets' p) (h : set ⊆ set') :
    (ps.map sets).foldl (· ∩ ·) set ⊆ (ps.map sets').foldl (· ∩ ·) set' := by
  induction ps generalizing set set' with
  | nil => exact h
  | cons p ps ih => exact ih (Finset.inter_subset_inter h (hsets p))

theorem meet_mono {B : Type} (ps : List B) {sets sets' : B → Finset Register}
    (h : ∀ p, sets p ⊆ sets' p) : meet (ps.map sets) ⊆ meet (ps.map sets') := by
  cases ps with
  | nil => exact Finset.Subset.refl _
  | cons p ps => exact foldl_inter_mono ps h (h p)

theorem inSet_mono {sets sets' : Nat → Finset Register} (h : ∀ p, sets p ⊆ sets' p) (b : Nat) :
    inSet ir sets b ⊆ inSet ir sets' b :=
  meet_mono (ir.getIn b) h

end Mono

private theorem foldl_inter_subset (rest : List (Finset Register)) (first : Finset Register) :
    rest.foldl (· ∩ ·) first ⊆ first ∧ ∀ s ∈ rest, rest.foldl (· ∩ ·) first ⊆ s := by
  induction rest generalizing first with
  | nil => exact ⟨Finset.Subset.refl _, fun s hs => absurd hs List.not_mem_nil⟩
  | cons s rest ih =>
      obtain ⟨hfirst, hrest⟩ := ih (first ∩ s)
      refine ⟨hfirst.trans Finset.inter_subset_left, List.forall_mem_cons.2 ⟨?_, hrest⟩⟩
      exact hfirst.trans Finset.inter_subset_right

theorem meet_subset {B : Type} (ps : List B) {sets : B → Finset Register}
    {bound : Finset Register} (h : ∀ p, sets p ⊆ bound) : meet (ps.map sets) ⊆ bound := by
  cases ps with
  | nil => exact Finset.empty_subset _
  | cons p ps => exact (foldl_inter_subset _ _).1.trans (h p)

/-- The set at the top of a block is within the set of every predecessor. -/
theorem inSet_subset (sets : Nat → Finset Register) {p b : Nat} (h : b ∈ ir.out p) :
    inSet ir sets b ⊆ sets p := by
  have hmem : sets p ∈ (ir.getIn b).map sets := List.mem_map_of_mem (Ir.mem_getIn.2 h)
  unfold inSet
  cases hmap : (ir.getIn b).map sets with
  | nil => simp [hmap] at hmem
  | cons first rest =>
      rw [hmap] at hmem
      rcases List.mem_cons.1 hmem with heq | hrest
      · exact heq ▸ (foldl_inter_subset rest first).1
      · exact (foldl_inter_subset rest first).2 _ hrest

theorem inSet_entry (sets : Nat → Finset Register) : inSet ir sets 0 = ∅ := by
  rw [inSet, ir.getIn_entry]
  rfl

/-! ## The loop -/

/-- The register an instruction may add to a set. -/
def adds (i : Instr) : Finset Register :=
  afterUse pass i ∅ ∪ i.defs.toFinset

theorem transfer_subset_adds (set : Finset Register) (i : Instr) :
    transfer pass set i ⊆ set ∪ adds pass i := by
  have huse : afterUse pass i set ⊆ set ∪ adds pass i := by
    unfold adds afterUse
    split
    · intro r hr
      rcases Finset.mem_insert.1 hr with rfl | hr
      · simp
      · exact Finset.mem_union_left _ hr
    · exact Finset.subset_union_left
  unfold transfer
  split
  · split
    · refine Finset.insert_subset ?_ huse
      simp [adds, Instr.defs]
    · exact huse
  · exact huse
  · exact Finset.sdiff_subset.trans huse

/-- All registers the sets of an IR may contain. -/
def registers : Finset Register :=
  (ir.blocks.flatMap Block.insts).foldr (fun i set => adds pass i ∪ set) ∅

theorem adds_subset_foldr {i : Instr} {insts : List Instr} (h : i ∈ insts) :
    adds pass i ⊆ insts.foldr (fun i set => adds pass i ∪ set) ∅ := by
  induction insts with
  | nil => exact absurd h List.not_mem_nil
  | cons j insts ih =>
      rcases List.mem_cons.1 h with rfl | hmem
      · exact Finset.subset_union_left
      · exact (ih hmem).trans Finset.subset_union_right

theorem adds_subset_registers {b : Nat} {i : Instr} (h : i ∈ ir.insts b) :
    adds pass i ⊆ registers pass ir := by
  have hmem : i ∈ ir.blocks.flatMap Block.insts := by
    unfold Ir.insts at h
    cases hblock : ir.blocks[b]? with
    | none => simp [hblock] at h
    | some block =>
        rw [hblock] at h
        exact List.mem_flatMap.2 ⟨block, List.mem_of_getElem? hblock, h⟩
  exact adds_subset_foldr pass hmem

theorem propagate_subset {insts : List Instr} {set bound : Finset Register} (h : set ⊆ bound)
    (hinsts : ∀ i ∈ insts, adds pass i ⊆ bound) : propagate pass insts set ⊆ bound := by
  induction insts generalizing set with
  | nil => exact h
  | cons i insts ih =>
      obtain ⟨hi, hrest⟩ := List.forall_mem_cons.1 hinsts
      exact ih ((transfer_subset_adds pass set i).trans (Finset.union_subset h hi)) hrest

/-- The equations between the sets of the blocks. -/
def equations : Equations Nat (Finset Register) where
  rhs := outSet pass ir
  mono b _ _ h := propagate_mono pass (ir.insts b) (inSet_mono ir h b)
  top := registers pass ir
  rhs_le_top b sets h := by
    refine propagate_subset pass (meet_subset (ir.getIn b) h) fun i hi => ?_
    exact adds_subset_registers pass ir hi
  rank := Finset.card
  rank_lt _ _ h := Finset.card_lt_card h

/-- The instructions of a block found redundant in one visit. -/
def collect (b : Nat) (sets : Nat → Finset Register) (fullRedInsts : Finset (Nat × Nat)) :
    Finset (Nat × Nat) :=
  fullRedInsts ∪ (flagged pass 0 (ir.insts b) (inSet ir sets b)).image fun k => (b, k)

theorem equations_end :
    ((equations pass ir).sweeps (collect pass ir) (List.range ir.blocks.length)
      (ir.blocks.length * (registers pass ir).card + 1) (fun _ => ∅) ∅).isSome = true := by
  refine Equations.sweeps_isSome _ _ _ (equations pass ir).growing_bot ?_
  rw [List.length_range]
  exact Nat.lt_of_lt_of_le (Nat.lt_succ_self _) (Nat.le_add_right _ _)

/-- `computeRedundantReadBarriers` and `computeRedundantBarriers`: the instructions
found redundant, by block and index. -/
def computeRedundantBarriers : Finset (Nat × Nat) :=
  (((equations pass ir).sweeps (collect pass ir) (List.range ir.blocks.length)
    (ir.blocks.length * (registers pass ir).card + 1) (fun _ => ∅) ∅).get
      (equations_end pass ir)).2

theorem of_mem_flagged {k j : Nat} {insts : List Instr} {set : Finset Register}
    (h : j ∈ flagged pass k insts set) :
    ∃ n i, j = k + n ∧ insts[n]? = some i ∧
      flags pass i (propagate pass (insts.take n) set) = true := by
  induction insts generalizing k set with
  | nil => exact absurd h (Finset.notMem_empty j)
  | cons i insts ih =>
      have hrest : j ∈ flagged pass (k + 1) insts (transfer pass set i) →
          ∃ n i', j = k + n ∧ (i :: insts)[n]? = some i' ∧
            flags pass i' (propagate pass ((i :: insts).take n) set) = true := by
        intro hmem
        obtain ⟨n, i', hj, hi', hflags⟩ := ih hmem
        exact ⟨n + 1, i', by omega, hi', hflags⟩
      rw [flagged] at h
      split at h
      · rename_i hflags
        rcases Finset.mem_insert.1 h with rfl | hmem
        · exact ⟨0, i, rfl, rfl, hflags⟩
        · exact hrest hmem
      · exact hrest h

/-- The sets solve the equations of the blocks. -/
def Solves (sets : Nat → Finset Register) : Prop :=
  ∀ b < ir.blocks.length, sets b = outSet pass ir b sets

/-- The instructions are redundant for the sets. -/
def RedundantFor (sets : Nat → Finset Register) (insts : Finset (Nat × Nat)) : Prop :=
  ∀ b k, (b, k) ∈ insts →
    ∃ i, ir.inst b k = some i ∧ flags pass i (pointSet pass ir sets b k) = true

section RedundantFor

variable {pass ir} {sets : Nat → Finset Register} {insts : Finset (Nat × Nat)}

theorem RedundantFor.flags_eq (h : RedundantFor pass ir sets insts) {b k : Nat} {i : Instr}
    (hmem : (b, k) ∈ insts) (hi : ir.inst b k = some i) :
    flags pass i (pointSet pass ir sets b k) = true := by
  obtain ⟨i', hi', hflags⟩ := h b k hmem
  rwa [Option.some.inj (hi.symm.trans hi')]

/-- What was found redundant stays redundant while the sets grow. -/
theorem RedundantFor.collect (h : RedundantFor pass ir sets insts)
    (hgrow : (equations pass ir).Growing sets) (b : Nat) :
    RedundantFor pass ir (Function.update sets b ((equations pass ir).rhs b sets))
      (collect pass ir b sets insts) := by
  intro c k hmem
  have hpoint : pointSet pass ir sets c k ⊆
      pointSet pass ir (Function.update sets b ((equations pass ir).rhs b sets)) c k :=
    propagate_mono pass _ (inSet_mono ir (hgrow.le_update b) c)
  have hflag : ∃ i, ir.inst c k = some i ∧ flags pass i (pointSet pass ir sets c k) = true := by
    rcases Finset.mem_union.1 hmem with hold | hnew
    · exact h c k hold
    · obtain ⟨j, hj, heq⟩ := Finset.mem_image.1 hnew
      obtain ⟨rfl, rfl⟩ := Prod.mk.inj heq
      obtain ⟨n, i, hn, hi, hflags⟩ := of_mem_flagged pass hj
      obtain rfl : j = n := by omega
      exact ⟨i, hi, hflags⟩
  obtain ⟨i, hi, hflags⟩ := hflag
  exact ⟨i, hi, flags_mono pass hpoint hflags⟩

end RedundantFor

/-- The sets the loop ends with solve the equations, and an instruction it found
redundant in any round is redundant for these sets. -/
theorem computeRedundantBarriers_spec :
    ∃ sets, Solves pass ir sets ∧
      RedundantFor pass ir sets (computeRedundantBarriers pass ir) := by
  obtain ⟨⟨sets, fullRedInsts⟩, hend⟩ := Option.isSome_iff_exists.1 (equations_end pass ir)
  obtain ⟨hsolves, hred⟩ := Equations.sweeps_spec (P := RedundantFor pass ir)
    (fun b sets fullRedInsts hgrow h => RedundantFor.collect h hgrow b)
    (equations pass ir).growing_bot (fun b k h => absurd h (Finset.notMem_empty _)) hend
  refine ⟨sets, fun b hb => hsolves b (List.mem_range.2 hb), ?_⟩
  rwa [computeRedundantBarriers, Option.get_of_eq_some _ hend]

end Laminar.Opt
