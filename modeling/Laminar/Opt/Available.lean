import Laminar.Opt.Exec

/-!
# What the redundant-barrier passes compute

The sets of a pass described by derivations instead of a loop.  A register is `Available` at a
position if an instruction checks it, or it was available before and the instruction does not
remove it, or it is copied from an available register, or it is available at the end of every
predecessor of the block.  Derivations are finite, so a register is not available around a loop
on the strength of the loop itself.

The passes find an instruction redundant exactly if its operand is available, or a constant
(`mem_computeRedundantBarriers_iff`).
-/

namespace Laminar.Opt

open Laminar.Lib

variable (pass : Pass) (ir : Ir)

/-- The register is checked on the way to the position. -/
inductive Available : Register → Nat → Nat → Prop
  | edge {r : Register} {b : Nat} : ir.getIn b ≠ [] →
      (∀ p ∈ ir.getIn b, Available r p (ir.insts p).length) → Available r b 0
  | use {r : Register} {b k : Nat} {i : Instr} {isUse : Bool} : ir.inst b k = some i →
      pass.useOperand i = some (.reg r, isUse) → r ∉ i.defs → Available r b (k + 1)
  | keep {r : Register} {b k : Nat} {i : Instr} : ir.inst b k = some i → Available r b k →
      r ∉ i.defs → Available r b (k + 1)
  | overwritten {r : Register} {b k : Nat} {val : Operand} :
      ir.inst b k = some (.move r val) → Available r b k → Available r b (k + 1)
  | copy {d s : Register} {b k : Nat} : ir.inst b k = some (.move d (.reg s)) →
      Available s b k → Available d b (k + 1)

/-- The instruction is redundant at the position. -/
def Redundant (b k : Nat) (i : Instr) : Prop :=
  (∃ r, pass.useOperand i = some (.reg r, true) ∧ Available pass ir r b k) ∨
    ∃ value isUse, pass.useOperand i = some (.const value, isUse)

section Transfer

variable {pass} {i : Instr} {set : Finset Register} {r : Register}

theorem mem_afterUse (h : r ∈ set) : r ∈ afterUse pass i set := by
  unfold afterUse
  split
  · exact Finset.mem_insert_of_mem h
  · exact h

/-- A register that is in the set after the look at the operand stays there unless it is
defined. -/
theorem mem_transfer_of_afterUse (h : r ∈ afterUse pass i set) (hdefs : r ∉ i.defs) :
    r ∈ transfer pass set i := by
  unfold transfer
  split
  · split
    · exact Finset.mem_insert_of_mem h
    · exact h
  · exact h
  · exact Finset.mem_sdiff.2 ⟨h, fun hd => hdefs (List.mem_toFinset.1 hd)⟩

theorem mem_transfer_use {isUse : Bool} (huse : pass.useOperand i = some (.reg r, isUse))
    (hdefs : r ∉ i.defs) : r ∈ transfer pass set i := by
  refine mem_transfer_of_afterUse ?_ hdefs
  rw [afterUse, huse]
  exact Finset.mem_insert_self r set

/-- A move does not remove its result. -/
theorem mem_transfer_move {val : Operand} (h : r ∈ set) :
    r ∈ transfer pass set (.move r val) := by
  cases val with
  | reg s =>
      rw [transfer]
      split
      · exact Finset.mem_insert_of_mem (mem_afterUse h)
      · exact mem_afterUse h
  | const value => exact mem_afterUse h

theorem mem_transfer_copy {s : Register} (h : s ∈ set) :
    r ∈ transfer pass set (.move r (.reg s)) := by
  rw [transfer, if_pos (mem_afterUse h)]
  exact Finset.mem_insert_self r _

end Transfer

/-! ## The sets -/

section Sets

variable {pass ir} {sets : Nat → Finset Register} {r : Register}

private theorem mem_foldl_inter (rest : List (Finset Register)) (first : Finset Register) :
    r ∈ rest.foldl (· ∩ ·) first ↔ r ∈ first ∧ ∀ s ∈ rest, r ∈ s := by
  induction rest generalizing first with
  | nil => simp
  | cons s rest ih =>
      rw [List.foldl_cons, ih, Finset.mem_inter, List.forall_mem_cons, and_assoc]

/-- The set at the top of a block has what all predecessors have, if there are any. -/
theorem mem_inSet {b : Nat} :
    r ∈ inSet ir sets b ↔ ir.getIn b ≠ [] ∧ ∀ p ∈ ir.getIn b, r ∈ sets p := by
  unfold inSet
  cases ir.getIn b with
  | nil => simp [meet]
  | cons p ps => simp [meet, mem_foldl_inter]

theorem getIn_lt {p b : Nat} (h : p ∈ ir.getIn b) : p < ir.blocks.length :=
  List.mem_range.1 (List.mem_filter.1 h).1

/-- The set at the end of a block. -/
theorem pointSet_length (sets : Nat → Finset Register) (b : Nat) :
    pointSet pass ir sets b (ir.insts b).length = outSet pass ir b sets := by
  rw [pointSet, List.take_length, outSet]

/-- Every solution has the available registers. -/
theorem Available.mem_pointSet {b k : Nat} (h : Available pass ir r b k)
    (hsets : Solves pass ir sets) : r ∈ pointSet pass ir sets b k := by
  induction h with
  | edge hne _ ih =>
      refine mem_inSet.2 ⟨hne, fun p hp => ?_⟩
      rw [hsets p (getIn_lt hp), ← pointSet_length]
      exact ih p hp
  | use hi huse hdefs =>
      rw [pointSet_succ hi]
      exact mem_transfer_use huse hdefs
  | keep hi _ hdefs ih =>
      rw [pointSet_succ hi]
      exact mem_transfer_of_afterUse (mem_afterUse ih) hdefs
  | overwritten hi _ ih =>
      rw [pointSet_succ hi]
      exact mem_transfer_move ih
  | copy hi _ ih =>
      rw [pointSet_succ hi]
      exact mem_transfer_copy ih

/-- The sets have available registers only. -/
def Derived (pass : Pass) (ir : Ir) (sets : Nat → Finset Register) : Prop :=
  ∀ p, ∀ r ∈ sets p, Available pass ir r p (ir.insts p).length

theorem Derived.available (h : Derived pass ir sets) {b k : Nat} (hk : k ≤ (ir.insts b).length)
    (hr : r ∈ pointSet pass ir sets b k) : Available pass ir r b k := by
  induction k generalizing r with
  | zero =>
      obtain ⟨hne, hall⟩ := mem_inSet.1 hr
      exact .edge hne fun p hp => h p r (hall p hp)
  | succ k ih =>
      have hi : ir.inst b k = some (ir.insts b)[k] := List.getElem?_eq_getElem hk
      rw [pointSet_succ hi] at hr
      have hbefore : ∀ {s}, s ∈ pointSet pass ir sets b k → Available pass ir s b k :=
        ih (Nat.le_of_succ_le hk)
      rcases mem_transfer hr with ⟨val, hmove, hin | ⟨s, hs, rfl⟩⟩ | ⟨hdefs, hin | ⟨isUse, huse⟩⟩
      · exact .overwritten (hmove ▸ hi) (hbefore hin)
      · exact .copy (hmove ▸ hi) (hbefore hs)
      · exact .keep hi (hbefore hin) hdefs
      · exact .use hi huse hdefs

theorem Derived.update (h : Derived pass ir sets) (b : Nat) :
    Derived pass ir (Function.update sets b (outSet pass ir b sets)) := by
  intro p r hr
  by_cases hp : p = b
  · subst hp
    rw [Function.update_self, ← pointSet_length] at hr
    exact h.available (Nat.le_refl _) hr
  · rw [Function.update_of_ne hp] at hr
    exact h p r hr

end Sets

/-! ## The instructions found -/

section Found

variable {pass ir}

theorem mem_flagged {k n : Nat} {insts : List Instr} {set : Finset Register} {i : Instr}
    (hi : insts[n]? = some i) (hflags : flags pass i (propagate pass (insts.take n) set) = true) :
    k + n ∈ flagged pass k insts set := by
  induction insts generalizing k n set with
  | nil => simp at hi
  | cons j insts ih =>
      rw [flagged]
      cases n with
      | zero =>
          obtain rfl : j = i := Option.some.inj hi
          rw [if_pos (show flags pass j set = true from hflags)]
          exact Finset.mem_insert_self k _
      | succ n =>
          have hrest : k + (n + 1) ∈ flagged pass (k + 1) insts (transfer pass set j) := by
            rw [Nat.add_comm n, ← Nat.add_assoc]
            exact ih hi hflags
          split
          · exact Finset.mem_insert_of_mem hrest
          · exact hrest

theorem flags_iff {i : Instr} {set : Finset Register} :
    flags pass i set = true ↔ (∃ r, pass.useOperand i = some (.reg r, true) ∧ r ∈ set) ∨
      ∃ value isUse, pass.useOperand i = some (.const value, isUse) := by
  unfold flags
  split
  · rename_i useReg isUse huse
    cases isUse <;> simp [huse]
  · rename_i value isUse huse
    simp [huse]
  · rename_i huse
    simp [huse]

/-- The sets a pass ends with are the derived solution, and it has found every instruction
that is redundant for them. -/
theorem computeRedundantBarriers_least (pass : Pass) (ir : Ir) :
    ∃ sets, Solves pass ir sets ∧ Derived pass ir sets ∧
      RedundantFor pass ir sets (computeRedundantBarriers pass ir) ∧
      ∀ b < ir.blocks.length, ∀ k ∈ flagged pass 0 (ir.insts b) (inSet ir sets b),
        (b, k) ∈ computeRedundantBarriers pass ir := by
  obtain ⟨⟨sets, fullRedInsts⟩, hend⟩ := Option.isSome_iff_exists.1 (equations_end pass ir)
  have hresult : computeRedundantBarriers pass ir = fullRedInsts := by
    rw [computeRedundantBarriers, Option.get_of_eq_some _ hend]
  obtain ⟨hsolves, hred, hderived⟩ := Equations.sweeps_spec
    (P := fun sets insts => RedundantFor pass ir sets insts ∧ Derived pass ir sets)
    (fun b sets insts hgrow h => ⟨h.1.collect hgrow b, h.2.update b⟩)
    (equations pass ir).growing_bot
    ⟨fun b k h => absurd h (Finset.notMem_empty _), fun p r h => absurd h (Finset.notMem_empty r)⟩
    hend
  have hkeep : ∀ c b x (insts : Finset (Nat × Nat)),
      (∀ k ∈ flagged pass 0 (ir.insts c) (inSet ir sets c), (c, k) ∈ insts) →
      ∀ k ∈ flagged pass 0 (ir.insts c) (inSet ir sets c), (c, k) ∈ collect pass ir b x insts :=
    fun c b x insts h k hk => Finset.mem_union_left _ (h k hk)
  have hnote : ∀ b (insts : Finset (Nat × Nat)),
      ∀ k ∈ flagged pass 0 (ir.insts b) (inSet ir sets b),
        (b, k) ∈ collect pass ir b sets insts :=
    fun b insts k hk => Finset.mem_union_right _ (Finset.mem_image_of_mem _ hk)
  have hnoted := Equations.sweeps_noted hkeep (equations pass ir).growing_bot hnote hend
  rw [hresult]
  exact ⟨sets, fun b hb => hsolves b (List.mem_range.2 hb), hderived, hred,
    fun b hb => hnoted b (List.mem_range.2 hb)⟩

/-- **The instructions a pass finds redundant** are those with an available operand or a
constant. -/
theorem mem_computeRedundantBarriers_iff {b k : Nat} :
    (b, k) ∈ computeRedundantBarriers pass ir ↔
      ∃ i, ir.inst b k = some i ∧ Redundant pass ir b k i := by
  obtain ⟨sets, hsolves, hderived, hred, hall⟩ := computeRedundantBarriers_least pass ir
  constructor
  · intro hmem
    obtain ⟨i, hi, hflags⟩ := hred b k hmem
    have hk : k ≤ (ir.insts b).length := Nat.le_of_lt (List.getElem?_eq_some_iff.1 hi).1
    refine ⟨i, hi, (flags_iff.1 hflags).imp_left ?_⟩
    rintro ⟨r, huse, hr⟩
    exact ⟨r, huse, hderived.available hk hr⟩
  · rintro ⟨i, hi, hredundant⟩
    have hflags : flags pass i (pointSet pass ir sets b k) = true := by
      refine flags_iff.2 (hredundant.imp_left ?_)
      rintro ⟨r, huse, hr⟩
      exact ⟨r, huse, hr.mem_pointSet hsolves⟩
    have hmem := mem_flagged (k := 0) hi hflags
    rw [Nat.zero_add] at hmem
    exact hall b (Ir.lt_of_inst hi) k hmem

end Found

end Laminar.Opt
