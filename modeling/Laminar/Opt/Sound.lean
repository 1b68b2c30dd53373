import Laminar.Lib.Run
import Laminar.Opt.Exec

/-!
# Soundness on normal control flow

The registers of the set at a position should hold objects that were checked.  All
instructions keep this but one: a move whose source is not in the set overwrites its
result and leaves it in the set.  The elimination is sound for executions in which
no move does harm: some access or barrier looked at the object it copies before, or
there is a path to the move on which its result was not touched, so that the result
is not in the set.
-/

namespace Laminar.Opt

open Laminar.Lib

variable (pass : Pass) (ir : Ir)

/-- The registers of the set at the current position hold checked objects, and so did
the registers that accesses and barriers looked at. -/
structure Sound (sets : Nat → Finset Register) (s : Exec) : Prop where
  regs : ∀ r ∈ pointSet pass ir sets s.block s.index, ∀ o, s.regs r = some o → o ∈ s.checked
  operands : ∀ o ∈ s.operands, o ∈ s.checked

/-- If the next instruction is a move, it copies an object that some access or barrier
looked at, or its result is untouched on some path. -/
def CopyOk (s : Exec) : Prop :=
  ∀ d val, ir.inst s.block s.index = some (.move d val) → ∀ o, val.eval s.regs = some o →
    o ∈ s.operands ∨ Untouched pass ir d s.block s.index

/-- No step throws, and every move is harmless. -/
def NormalCopies (s : Exec) : Action → Prop
  | .exec _ => CopyOk pass ir s
  | .jump _ => True
  | .throw _ => False

section Steps

variable {pass ir} {sets : Nat → Finset Register} {s : Exec}

/-- The operand of an instruction found redundant is in the set. -/
theorem mem_pointSet_of_flags {i : Instr} {set : Finset Register} {r : Register} {isUse : Bool}
    (h : flags pass i set = true) (huse : pass.useOperand i = some (.reg r, isUse)) : r ∈ set := by
  rw [flags, huse, Bool.and_eq_true, decide_eq_true_eq] at h
  exact h.1

/-- The object that an access or barrier looks at is checked then. -/
theorem Sound.checked_operand (hs : Sound pass ir sets s)
    (hfound : RedundantFor pass ir sets (computeRedundantBarriers pass ir))
    {i : Instr} (hi : ir.inst s.block s.index = some i) (values : Register → Option Obj)
    {r : Register} {isUse : Bool} (huse : pass.useOperand i = some (.reg r, isUse))
    (halloc : i.isAlloc = false) {o : Obj} (ho : s.regs r = some o) :
    o ∈ (s.advance pass ir i values).checked := by
  by_cases hred : (s.block, s.index) ∈ computeRedundantBarriers pass ir
  · have hmem := mem_pointSet_of_flags (hfound.flags_eq hred hi) huse
    exact s.checked_subset pass ir i values (hs.regs r hmem o ho)
  · simp [Exec.advance, hred, checkedBy, huse, halloc, Operand.eval, ho]

theorem Sound.advance (hs : Sound pass ir sets s) (hsets : Solves pass ir sets)
    (hfound : RedundantFor pass ir sets (computeRedundantBarriers pass ir))
    {i : Instr} (hi : ir.inst s.block s.index = some i) (hcopy : CopyOk pass ir s)
    (values : Register → Option Obj) : Sound pass ir sets (s.advance pass ir i values) := by
  have hgrow := s.checked_subset pass ir i values
  refine ⟨fun r hr => ?_, fun o ho => ?_⟩
  · rw [Exec.advance, pointSet_succ hi] at hr
    refine transfer_sound (P := fun v => ∀ o, v = some o → o ∈ s.checked)
      (fun v hv o ho => hgrow (hv o ho)) hs.regs (fun r isUse huse hdefs o ho => ?_)
      (fun d val hmove hd o ho => ?_) r hr
    · have halloc := Bool.eq_false_iff.2 fun halloc => hdefs (mem_defs_of_isAlloc halloc huse)
      exact hs.checked_operand hfound hi values huse halloc ho
    · subst hmove
      rcases hcopy d val hi o ho with hoperand | huntouched
      · exact hgrow (hs.operands o hoperand)
      · exact absurd hd (huntouched.not_mem hsets)
  · rcases List.mem_append.1 ho with ho | ho
    · obtain ⟨r, isUse, huse, halloc, ho⟩ := operandOf_eq_some.1 (Option.mem_toList.1 ho)
      exact hs.checked_operand hfound hi values huse halloc ho
    · exact hgrow (hs.operands o ho)

theorem Sound.edge (hs : Sound pass ir sets s) (hsets : Solves pass ir sets)
    (hend : s.index = (ir.insts s.block).length) {b : Nat} (hb : b ∈ ir.out s.block) :
    Sound pass ir sets { s with block := b, index := 0 } := by
  refine ⟨fun r hr => hs.regs r ?_, hs.operands⟩
  rw [hend]
  exact pointSet_edge hsets hb hr

theorem sound_start (regs : Register → Option Obj) : Sound pass ir sets (Exec.start regs) := by
  refine ⟨fun r hr => ?_, fun o ho => absurd ho List.not_mem_nil⟩
  rw [Exec.start, pointSet, inSet_entry] at hr
  exact absurd hr (Finset.notMem_empty r)

end Steps

/-- In an execution along normal edges in which every move is harmless, an access or
barrier found redundant has a register operand whose object was checked before. -/
theorem redundant_operand_checked (regs : Register → Option Obj) (actions : List Action)
    (s : Exec) (hrun : Run (execStep pass ir) (NormalCopies pass ir) (.start regs) actions s)
    (i : Instr) (r : Register) (isUse : Bool) (hi : ir.inst s.block s.index = some i)
    (huse : pass.useOperand i = some (.reg r, isUse))
    (hred : (s.block, s.index) ∈ computeRedundantBarriers pass ir) :
    ∀ o, s.regs r = some o → o ∈ s.checked := by
  obtain ⟨sets, hsets, hfound⟩ := computeRedundantBarriers_spec pass ir
  have hsound : Sound pass ir sets s := by
    refine Run.invariant (sound_start regs) (fun s a s' hs hguard hstep => ?_) hrun
    cases a with
    | exec values =>
        obtain ⟨i, hi, rfl⟩ := execStep_exec hstep
        exact hs.advance hsets hfound hi hguard values
    | jump target =>
        obtain ⟨hend, htarget, rfl⟩ := execStep_jump hstep
        exact hs.edge hsets hend htarget
    | throw handler => exact hguard.elim
  exact hsound.regs r (mem_pointSet_of_flags (hfound.flags_eq hred hi) huse)

/-! ## Two methods -/

/-- Read a field of register 1, copy register 1 to register 2, and read a field of
register 2. -/
def copyOut : Ir where
  blocks := [⟨[.call (.difcReadBarrierMethod .dynamic) (.reg 1), .move 2 (.reg 1),
    .call (.difcReadBarrierMethod .dynamic) (.reg 2)], [], []⟩]
  entry_noIn := by decide

/-- The second barrier is redundant, and the object was checked. -/
theorem copyOut_checked :
    ∃ actions s, Run (execStep (.late true) copyOut) (NormalCopies (.late true) copyOut)
        (.start fun _ => some 7) actions s ∧ (s.block, s.index) = (0, 2) ∧
      (0, 2) ∈ computeRedundantBarriers (.late true) copyOut ∧
      (∀ o, s.regs 2 = some o → o ∈ s.checked) := by
  have hred : (0, 2) ∈ computeRedundantBarriers (.late true) copyOut := by decide +kernel
  have hrun : Run (execStep (.late true) copyOut) (NormalCopies (.late true) copyOut)
      (.start fun _ => some 7) ([] ++ [.exec fun _ => none] ++ [.exec fun _ => none]) _ :=
    .snoc (.snoc .nil (by rintro d val ⟨⟩) rfl) (by
      rintro d val ⟨⟩ o ho
      obtain rfl := Option.some.inj ho
      exact Or.inl List.mem_cons_self) rfl
  exact ⟨_, _, hrun, rfl, hred, redundant_operand_checked (.late true) copyOut _ _ _ hrun _ 2 true
    rfl rfl hred⟩

/-- Read a field of register 1, copy register 2 to register 1, and read a field of
register 1. -/
def copyOver : Ir where
  blocks := [⟨[.call (.difcReadBarrierMethod .dynamic) (.reg 1), .move 1 (.reg 2),
    .call (.difcReadBarrierMethod .dynamic) (.reg 1)], [], []⟩]
  entry_noIn := by decide

/-- The second barrier is found redundant although its object was never checked. -/
theorem copyOver_unchecked :
    ∃ actions s, Run (execStep (.late true) copyOver) (fun _ a => ∀ h, a ≠ .throw h)
        (.start fun r => some r) actions s ∧ (s.block, s.index) = (0, 2) ∧
      (0, 2) ∈ computeRedundantBarriers (.late true) copyOver ∧
      s.regs 1 = some 2 ∧ 2 ∉ s.checked := by
  have hfirst : (0, 0) ∉ computeRedundantBarriers (.late true) copyOver := by decide +kernel
  have hmove : (0, 1) ∉ computeRedundantBarriers (.late true) copyOver := by decide +kernel
  refine ⟨[] ++ [.exec fun _ => none] ++ [.exec fun _ => none], _,
    .snoc (.snoc .nil (by simp) rfl) (by simp) rfl, rfl, by decide +kernel, rfl, ?_⟩
  simp [Exec.advance, Exec.start, hfirst, hmove, checkedBy, Pass.useOperand, Operand.eval,
    Instr.isAlloc]

end Laminar.Opt
