import Laminar.Opt.Sound

/-!
# Soundness across exceptions

For registers with a single definition moves do no harm: a register that is defined
only here was not touched before on some path to here.  Exceptions still do.  The
set at the top of a handler comes from the bottom of the blocks that may throw to
it, and an instruction that throws has not reached the bottom of its block.  The
elimination is sound for executions in which, when control leaves for a handler, every
register that the rest of the block would have checked or moved to holds an object
that some access or barrier looked at before, or is untouched on some other path to
the handler.
-/

namespace Laminar.Opt

open Laminar.Lib

variable (pass : Pass) (ir : Ir)

/-! ## Single definitions -/

/-- The registers an instruction reads. -/
def Instr.uses : Instr → List Register
  | .move _ (.reg r) => [r]
  | .getField _ (.reg r) => [r]
  | .aload _ (.reg r) => [r]
  | .putField (.reg r) => [r]
  | .astore (.reg r) => [r]
  | .call _ (.reg r) => [r]
  | _ => []

/-- Some path from the entry to the position does not define the register. -/
inductive Undefined (r : Register) : Nat → Nat → Prop
  | entry : Undefined r 0 0
  | inst {b k : Nat} {i : Instr} :
      Undefined r b k → ir.inst b k = some i → r ∉ i.defs → Undefined r b (k + 1)
  | edge {p b : Nat} : Undefined r p (ir.insts p).length → b ∈ ir.out p → Undefined r b 0

/-- Every register is defined by one instruction, on all paths to its uses. -/
structure SingleDefs : Prop where
  unique : ∀ {r b k i b' k' i'}, ir.inst b k = some i → r ∈ i.defs →
    ir.inst b' k' = some i' → r ∈ i'.defs → b = b' ∧ k = k'
  defined : ∀ {r b k i}, Undefined ir r b k → ir.inst b k = some i → r ∉ i.uses

section SingleDefs

variable {pass ir} {r : Register} {b k : Nat}

theorem mem_uses_or_defs {i : Instr} {isUse : Bool}
    (h : pass.useOperand i = some (.reg r, isUse)) : r ∈ i.uses ∨ r ∈ i.defs := by
  unfold Pass.useOperand at h
  split at h <;> simp_all [Instr.uses, Instr.defs]

theorem Undefined.untouched (hir : SingleDefs ir) (h : Undefined ir r b k) :
    Untouched pass ir r b k := by
  induction h with
  | entry => exact .entry
  | @inst b k i hundef hi hdefs ih =>
      have hflag : touched pass r i false = false := by
        have huses := hir.defined hundef hi
        unfold touched
        split
        · simpa [Instr.defs, eq_comm] using hdefs
        · rw [if_neg hdefs]
          split
          · rename_i useReg isUse huse
            rw [Bool.false_or, decide_eq_false_iff_not]
            rintro rfl
            exact (mem_uses_or_defs huse).elim huses hdefs
          · rfl
      have hpath := Path.inst ih hi
      rwa [hflag] at hpath
  | edge _ hedge ih => exact .edge ih hedge

/-- On the way to a position a register is not defined, or there is a first
definition. -/
theorem Path.undefined {t : Bool} (h : Path pass ir r b k t) :
    Undefined ir r b k ∨
      ∃ b' k' i, ir.inst b' k' = some i ∧ r ∈ i.defs ∧ Undefined ir r b' k' := by
  induction h with
  | entry => exact Or.inl .entry
  | @inst b k t i _ hi ih =>
      rcases ih with hundef | hdef
      · by_cases hr : r ∈ i.defs
        · exact Or.inr ⟨b, k, i, hi, hr, hundef⟩
        · exact Or.inl (.inst hundef hi hr)
      · exact Or.inr hdef
  | edge _ hedge ih => exact ih.imp (fun hundef => .edge hundef hedge) id

/-- The result of a move is untouched on some path to it. -/
theorem untouched_of_move (hir : SingleDefs ir) {val : Operand} {t : Bool}
    (hpath : Path pass ir r b k t) (hi : ir.inst b k = some (.move r val)) :
    Untouched pass ir r b k := by
  rcases hpath.undefined with hundef | ⟨b', k', i, hi', hdef, hundef⟩
  · exact hundef.untouched hir
  · obtain ⟨rfl, rfl⟩ := hir.unique hi' hdef hi List.mem_cons_self
    exact hundef.untouched hir

/-- A path goes on to the end of its block. -/
theorem Path.toEnd {t : Bool} (h : Path pass ir r b k t) (hk : k ≤ (ir.insts b).length) :
    ∃ t', Path pass ir r b (ir.insts b).length t' := by
  obtain ⟨n, hn⟩ := Nat.exists_eq_add_of_le hk
  induction n generalizing k t with
  | zero => exact ⟨t, hn ▸ h⟩
  | succ n ih =>
      have hlt : k < (ir.insts b).length := by omega
      exact ih (h.inst (List.getElem?_eq_getElem hlt)) hlt (by omega)

end SingleDefs

/-! ## Leaving a block in its middle -/

/-- When the next instruction throws: every register that the rest of the block
checks or moves to holds an object that some access or barrier looked at, or is
untouched on some path to the handler. -/
def ThrowOk (s : Exec) (handler : Nat) : Prop :=
  ∀ r, (∃ i ∈ (ir.insts s.block).drop s.index,
      (∃ isUse, pass.useOperand i = some (.reg r, isUse)) ∨ ∃ val, i = .move r val) →
    ∀ o, s.regs r = some o → o ∈ s.operands ∨ Untouched pass ir r handler 0

/-- Every throw is harmless. -/
def HarmlessThrows (s : Exec) : Action → Prop
  | .exec _ => True
  | .jump _ => True
  | .throw handler => ThrowOk pass ir s handler

section Throws

variable {pass ir} {sets : Nat → Finset Register} {s : Exec}

theorem mem_propagate {insts : List Instr} {set : Finset Register} {r : Register}
    (h : r ∈ propagate pass insts set) :
    r ∈ set ∨ ∃ i ∈ insts,
      (∃ isUse, pass.useOperand i = some (.reg r, isUse)) ∨ ∃ val, i = .move r val := by
  induction insts generalizing set with
  | nil => exact Or.inl h
  | cons i insts ih =>
      rcases ih h with hr | ⟨j, hj, hgen⟩
      · rcases mem_transfer hr with ⟨val, hi, -⟩ | ⟨-, hr | huse⟩
        · exact Or.inr ⟨i, List.mem_cons_self, Or.inr ⟨val, hi⟩⟩
        · exact Or.inl hr
        · exact Or.inr ⟨i, List.mem_cons_self, Or.inl huse⟩
      · exact Or.inr ⟨j, List.mem_cons_of_mem i hj, hgen⟩

theorem Sound.throw (hs : Sound pass ir sets s) (hsets : Solves pass ir sets) {handler : Nat}
    (hedge : handler ∈ ir.out s.block) (hthrow : ThrowOk pass ir s handler) :
    Sound pass ir sets { s with block := handler, index := 0 } := by
  refine ⟨fun r hr o ho => ?_, hs.operands⟩
  have hbottom := pointSet_edge hsets hedge hr
  have hrest : r ∈ propagate pass ((ir.insts s.block).drop s.index)
      (pointSet pass ir sets s.block s.index) := by
    rw [pointSet, propagate, propagate, ← List.foldl_append, List.take_append_drop]
    rwa [pointSet, List.take_length] at hbottom
  rcases mem_propagate hrest with hmem | hgen
  · exact hs.regs r hmem o ho
  · rcases hthrow r hgen o ho with hoperand | huntouched
    · exact hs.operands o hoperand
    · exact absurd hr (huntouched.not_mem hsets)

end Throws

/-- In an execution of an IR with single definitions in which every throw is
harmless, an access or barrier found redundant has a register operand whose object
was the operand of a check that completed before. -/
theorem redundant_operand_completed (hir : SingleDefs ir) (regs : Register → Option Obj)
    (actions : List Action) (s : Exec)
    (hrun : Run (execStep pass ir) (HarmlessThrows pass ir) (.start regs) actions s)
    (i : Instr) (r : Register) (isUse : Bool) (hi : ir.inst s.block s.index = some i)
    (huse : pass.useOperand i = some (.reg r, isUse))
    (hred : (s.block, s.index) ∈ computeRedundantBarriers pass ir) :
    ∀ o, s.regs r = some o → o ∈ s.checked := by
  obtain ⟨sets, hsets, hfound⟩ := computeRedundantBarriers_spec pass ir
  have hinv : Sound pass ir sets s ∧ ∀ d, ∃ t, Path pass ir d s.block s.index t := by
    refine Run.invariant
      (P := fun s => Sound pass ir sets s ∧ ∀ d, ∃ t, Path pass ir d s.block s.index t)
      ⟨sound_start regs, fun d => ⟨false, .entry⟩⟩ (fun s a s' hs hguard hstep => ?_) hrun
    obtain ⟨hsound, hpath⟩ := hs
    cases a with
    | exec values =>
        obtain ⟨i, hi, rfl⟩ := execStep_exec hstep
        have hcopy : CopyOk pass ir s := by
          intro d val hmove o ho
          obtain ⟨t, ht⟩ := hpath d
          exact Or.inr (untouched_of_move hir ht hmove)
        refine ⟨hsound.advance hsets hfound hi hcopy values, fun d => ?_⟩
        obtain ⟨t, ht⟩ := hpath d
        exact ⟨_, ht.inst hi⟩
    | jump target =>
        obtain ⟨hend, hedge, rfl⟩ := execStep_jump hstep
        refine ⟨hsound.edge hsets hend hedge, fun d => ?_⟩
        obtain ⟨t, ht⟩ := hpath d
        rw [hend] at ht
        exact ⟨t, ht.edge hedge⟩
    | throw handler =>
        obtain ⟨hindex, hedge, rfl⟩ := execStep_throw hstep
        refine ⟨hsound.throw hsets hedge hguard, fun d => ?_⟩
        obtain ⟨t, ht⟩ := hpath d
        obtain ⟨t', ht'⟩ := ht.toEnd (Nat.le_of_lt hindex)
        exact ⟨t', ht'.edge hedge⟩
  exact hinv.1.regs r (mem_pointSet_of_flags (hfound.flags_eq hred hi) huse)

/-! ## A method with a handler -/

/-- The prologue defines register 1, the next block may throw to a handler, and the
handler reads a field of register 1. -/
def handled (insts : List Instr) : Ir where
  blocks := [⟨[.other [1] false], [1], []⟩, ⟨insts, [], [2]⟩,
    ⟨[.call (.difcReadBarrierMethod .dynamic) (.reg 1)], [], []⟩]
  entry_noIn := by simp [Block.out]

/-- It has single definitions if its middle block defines nothing and reads register
1 only. -/
theorem handled_singleDefs {insts : List Instr} (hdefs : ∀ i ∈ insts, i.defs = [])
    (huses : ∀ i ∈ insts, ∀ r ∈ i.uses, r = 1) : SingleDefs (handled insts) := by
  have hinst : ∀ {b k i}, (handled insts).inst b k = some i →
      (b = 0 ∧ k = 0 ∧ i = .other [1] false) ∨ (b ≠ 0 ∧ i.defs = [] ∧ ∀ r ∈ i.uses, r = 1) := by
    intro b k i hi
    match b, hi with
    | 0, hi =>
        obtain ⟨hk, rfl⟩ := List.getElem?_eq_some_iff.1 hi
        obtain rfl : k = 0 := Nat.lt_one_iff.1 hk
        exact Or.inl ⟨rfl, rfl, rfl⟩
    | 1, hi =>
        have hmem := List.mem_of_getElem? hi
        exact Or.inr ⟨by decide, hdefs i hmem, huses i hmem⟩
    | 2, hi =>
        obtain rfl := List.mem_singleton.1 (List.mem_of_getElem? hi)
        exact Or.inr ⟨by decide, rfl, fun r hr => List.mem_singleton.1 hr⟩
    | b + 3, hi => simp [Ir.inst, Ir.insts, handled] at hi
  have hundef : ∀ {b k}, Undefined (handled insts) 1 b k → b = 0 ∧ k = 0 := by
    intro b k h
    induction h with
    | entry => exact ⟨rfl, rfl⟩
    | inst _ hi hr ih =>
        obtain ⟨rfl, rfl⟩ := ih
        rcases hinst hi with ⟨-, -, rfl⟩ | ⟨hb, -⟩
        · exact absurd List.mem_cons_self hr
        · exact absurd rfl hb
    | edge _ _ ih =>
        obtain ⟨rfl, hlen⟩ := ih
        simp [Ir.insts, handled] at hlen
  refine ⟨fun hi hr hi' hr' => ?_, fun {r b k i} h hi hr => ?_⟩
  · rcases hinst hi with ⟨rfl, rfl, rfl⟩ | ⟨-, hnil, -⟩
    · rcases hinst hi' with ⟨rfl, rfl, -⟩ | ⟨-, hnil, -⟩
      · exact ⟨rfl, rfl⟩
      · simp [hnil] at hr'
    · simp [hnil] at hr
  · rcases hinst hi with ⟨-, -, rfl⟩ | ⟨hb, -, hone⟩
    · simp [Instr.uses] at hr
    · obtain rfl := hone r hr
      exact hb (hundef h).1

/-- The middle block reads a field of register 1 and makes a call. -/
def readThenCall : Ir :=
  handled [.call (.difcReadBarrierMethod .dynamic) (.reg 1), .other [] true]

/-- The check completes and the call throws: the object of the barrier in the handler
was checked. -/
theorem readThenCall_checked :
    ∃ actions s, SingleDefs readThenCall ∧
      Run (execStep (.late true) readThenCall) (HarmlessThrows (.late true) readThenCall)
        (.start fun _ => none) actions s ∧ (s.block, s.index) = (2, 0) ∧
      (2, 0) ∈ computeRedundantBarriers (.late true) readThenCall ∧ s.regs 1 = some 5 ∧
      5 ∈ s.checked := by
  have hir : SingleDefs readThenCall :=
    handled_singleDefs (by simp [Instr.defs]) (by simp [Instr.uses])
  have hred : (2, 0) ∈ computeRedundantBarriers (.late true) readThenCall := by decide +kernel
  have hrun : Run (execStep (.late true) readThenCall)
      (HarmlessThrows (.late true) readThenCall) (.start fun _ => none)
      ([] ++ [.exec fun _ => some 5] ++ [.jump 1] ++ [.exec fun _ => none] ++ [.throw 2]) _ :=
    .snoc (.snoc (.snoc (.snoc .nil trivial rfl) trivial rfl) trivial rfl) (by
      rintro r ⟨i, hi, hgen⟩
      obtain rfl : i = .other [] true := List.mem_singleton.1 hi
      simp [Pass.useOperand] at hgen) rfl
  exact ⟨_, _, hir, hrun, rfl, hred, rfl, redundant_operand_completed (.late true) _ hir _ _ _
    hrun _ 1 true rfl rfl hred 5 rfl⟩

/-- The check itself throws: the barrier in the handler is found redundant although
no check has completed. -/
theorem handled_read_unchecked :
    ∃ ir actions s, SingleDefs ir ∧
      Run (execStep (.late true) ir) (fun _ _ => True) (.start fun _ => none) actions s ∧
      (s.block, s.index) = (2, 0) ∧ (2, 0) ∈ computeRedundantBarriers (.late true) ir ∧
      s.regs 1 = some 5 ∧ s.checked = [] := by
  refine ⟨handled [.call (.difcReadBarrierMethod .dynamic) (.reg 1)],
    [] ++ [.exec fun _ => some 5] ++ [.jump 1] ++ [.throw 2], _,
    handled_singleDefs (by simp [Instr.defs]) (by simp [Instr.uses]),
    .snoc (.snoc (.snoc .nil trivial rfl) trivial rfl) trivial rfl, rfl, by decide +kernel,
    rfl, ?_⟩
  simp [Exec.advance, Exec.start, checkedBy, Pass.useOperand]

end Laminar.Opt
