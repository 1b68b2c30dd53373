import Laminar.Opt.Redundant

/-!
# Executions of an IR

An execution walks through the blocks of an IR and records the objects that were
checked.  The results of instructions other than moves are open, and so is the way
out of a block.  An instruction that may throw can leave its block for one of the
handlers before it has had any effect.

`checked` collects the objects whose check was not removed: the operands of accesses
or barriers of the kind the pass looks at, and of allocation barriers, at positions
the pass did not find redundant.  `operands` collects the objects that were held by
the register of any of these accesses and barriers, whatever the pass found.
-/

namespace Laminar.Opt

/-- What the operand holds. -/
def Operand.eval (regs : Register → Option Obj) : Operand → Option Obj
  | .reg r => regs r
  | .const value => value

/-- An allocation, whose operand is its own result. -/
def Instr.isAlloc : Instr → Bool
  | .new _ => true
  | .newArray _ => true
  | _ => false

/-- The registers after an instruction with the given results. -/
def assign (i : Instr) (values regs : Register → Option Obj) : Register → Option Obj :=
  match i with
  | .move result val => fun r => if r = result then val.eval regs else regs r
  | i => fun r => if r ∈ i.defs then values r else regs r

/-- The object an instruction checks, for a pass. -/
def checkedBy (pass : Pass) (i : Instr) (regs regs' : Register → Option Obj) : Option Obj :=
  (pass.useOperand i).bind fun use => use.1.eval (if i.isAlloc then regs' else regs)

/-- The object in the register that an access or a barrier call looks at. -/
def operandOf (pass : Pass) (i : Instr) (regs : Register → Option Obj) : Option Obj :=
  match pass.useOperand i with
  | some (.reg r, _) => if i.isAlloc then none else regs r
  | _ => none

/-- A state of an execution. -/
structure Exec where
  block : Nat
  index : Nat
  regs : Register → Option Obj
  checked : List Obj
  operands : List Obj

/-- A step: the next instruction completes, control leaves the end of the block, or
the next instruction throws. -/
inductive Action
  | exec (values : Register → Option Obj)
  | jump (target : Nat)
  | throw (handler : Nat)

variable (pass : Pass) (ir : Ir)

/-- The state after the next instruction. -/
def Exec.advance (s : Exec) (i : Instr) (values : Register → Option Obj) : Exec where
  block := s.block
  index := s.index + 1
  regs := assign i values s.regs
  checked :=
    if (s.block, s.index) ∈ computeRedundantBarriers pass ir then s.checked
    else (checkedBy pass i s.regs (assign i values s.regs)).toList ++ s.checked
  operands := (operandOf pass i s.regs).toList ++ s.operands

theorem Exec.checked_subset (s : Exec) (i : Instr) (values : Register → Option Obj) :
    s.checked ⊆ (s.advance pass ir i values).checked := by
  dsimp only [Exec.advance]
  split
  · exact List.Subset.refl _
  · exact List.subset_append_right _ _

/-- One step. -/
def execStep (s : Exec) : Action → Option Exec
  | .exec values => (ir.inst s.block s.index).map (s.advance pass ir · values)
  | .jump target =>
      match ir.blocks[s.block]? with
      | none => none
      | some b =>
          if s.index = b.insts.length ∧ target ∈ b.normalOut then
            some { s with block := target, index := 0 }
          else none
  | .throw handler =>
      match ir.blocks[s.block]?, ir.inst s.block s.index with
      | some b, some i =>
          if i.isPei = true ∧ handler ∈ b.exceptionalOut then
            some { s with block := handler, index := 0 }
          else none
      | _, _ => none

/-- The start of an execution. -/
def Exec.start (regs : Register → Option Obj) : Exec := ⟨0, 0, regs, [], []⟩

section Inversion

variable {pass ir} {s s' : Exec}

theorem execStep_exec {values : Register → Option Obj}
    (h : execStep pass ir s (.exec values) = some s') :
    ∃ i, ir.inst s.block s.index = some i ∧ s' = s.advance pass ir i values := by
  obtain ⟨i, hi, rfl⟩ := Option.map_eq_some_iff.1 h
  exact ⟨i, hi, rfl⟩

theorem execStep_jump {target : Nat} (h : execStep pass ir s (.jump target) = some s') :
    s.index = (ir.insts s.block).length ∧ target ∈ ir.out s.block ∧
      s' = { s with block := target, index := 0 } := by
  rw [execStep] at h
  split at h
  · simp at h
  · rename_i b hb
    split at h
    · rename_i hjump
      rw [Ir.insts, Ir.out, hb]
      exact ⟨hjump.1, List.mem_append_left _ hjump.2, (Option.some.inj h).symm⟩
    · simp at h

theorem execStep_throw {handler : Nat} (h : execStep pass ir s (.throw handler) = some s') :
    s.index < (ir.insts s.block).length ∧ handler ∈ ir.out s.block ∧
      s' = { s with block := handler, index := 0 } := by
  rw [execStep] at h
  split at h
  · rename_i b i hb hi
    split at h
    · rename_i hthrow
      refine ⟨(List.getElem?_eq_some_iff.1 hi).1, ?_, (Option.some.inj h).symm⟩
      rw [Ir.out, hb]
      exact List.mem_append_right _ hthrow.2
    · simp at h
  · simp at h

end Inversion

/-! ## One instruction -/

theorem operandOf_eq_some {pass : Pass} {i : Instr} {regs : Register → Option Obj} {o : Obj} :
    operandOf pass i regs = some o ↔
      ∃ r isUse, pass.useOperand i = some (.reg r, isUse) ∧ i.isAlloc = false ∧
        regs r = some o := by
  unfold operandOf
  split
  · rename_i r isUse huse
    cases hi : i.isAlloc <;> simp [huse]
  · rename_i huse
    simp only [reduceCtorEq, false_iff]
    rintro ⟨r, isUse, heq, -⟩
    exact huse r isUse heq

section Transfer

variable {pass} {i : Instr} {set : Finset Register}

theorem afterUse_move (d : Register) (val : Operand) (set : Finset Register) :
    afterUse pass (.move d val) set = set := by
  cases pass with
  | early reads => cases reads <;> rfl
  | late reads => cases reads <;> rfl

/-- The operand of an allocation is the register it defines. -/
theorem mem_defs_of_isAlloc (hi : i.isAlloc = true) {r : Register} {isUse : Bool}
    (huse : pass.useOperand i = some (.reg r, isUse)) : r ∈ i.defs := by
  cases i with
  | new result =>
      cases pass with
      | early reads => cases reads <;> simp_all [Pass.useOperand, Instr.defs]
      | late reads => cases reads <;> simp [Pass.useOperand] at huse
  | newArray result =>
      cases pass with
      | early reads => cases reads <;> simp_all [Pass.useOperand, Instr.defs]
      | late reads => cases reads <;> simp [Pass.useOperand] at huse
  | _ => simp [Instr.isAlloc] at hi

/-- How a register gets into the set or stays there. -/
theorem mem_transfer {r : Register} (h : r ∈ transfer pass set i) :
    (∃ val, i = .move r val ∧ (r ∈ set ∨ ∃ s ∈ set, val = .reg s)) ∨
      r ∉ i.defs ∧ (r ∈ set ∨ ∃ isUse, pass.useOperand i = some (.reg r, isUse)) := by
  have huse : r ∈ afterUse pass i set →
      r ∈ set ∨ ∃ isUse, pass.useOperand i = some (.reg r, isUse) := by
    intro hr
    unfold afterUse at hr
    split at hr
    · rename_i useReg isUse heq
      rcases Finset.mem_insert.1 hr with rfl | hr
      · exact Or.inr ⟨isUse, heq⟩
      · exact Or.inl hr
    · exact Or.inl hr
  -- a register that was in the set before a move stays there
  have hkeep : ∀ {d val}, i = .move d val → r ∈ set →
      (∃ val, i = .move r val ∧ (r ∈ set ∨ ∃ s ∈ set, val = .reg s)) ∨
        r ∉ i.defs ∧ (r ∈ set ∨ ∃ isUse, pass.useOperand i = some (.reg r, isUse)) := by
    rintro d val rfl hr
    by_cases hd : r = d
    · exact Or.inl ⟨val, by rw [hd], Or.inl hr⟩
    · exact Or.inr ⟨by simpa [Instr.defs] using hd, Or.inl hr⟩
  unfold transfer at h
  split at h
  · rename_i defReg useReg
    rw [afterUse_move] at h
    split at h
    · rename_i hsrc
      rcases Finset.mem_insert.1 h with rfl | h
      · exact Or.inl ⟨.reg useReg, rfl, Or.inr ⟨useReg, hsrc, rfl⟩⟩
      · exact hkeep rfl h
    · exact hkeep rfl h
  · rw [afterUse_move] at h
    exact hkeep rfl h
  · obtain ⟨hr, hdefs⟩ := Finset.mem_sdiff.1 h
    exact Or.inr ⟨fun hd => hdefs (List.mem_toFinset.2 hd), huse hr⟩

theorem assign_of_not_mem {r : Register} (h : r ∉ i.defs) (values regs : Register → Option Obj) :
    assign i values regs r = regs r := by
  unfold assign
  split
  · exact if_neg (by simpa [Instr.defs] using h)
  · exact if_neg h

/-- One instruction keeps the meaning of the set: its registers hold good values.  A
check makes its operand good, and a move into a register of the set needs a good
value. -/
theorem transfer_sound {P Q : Option Obj → Prop} (hmono : ∀ v, P v → Q v)
    {regs values : Register → Option Obj} (hset : ∀ r ∈ set, P (regs r))
    (huse : ∀ r isUse, pass.useOperand i = some (.reg r, isUse) → r ∉ i.defs → Q (regs r))
    (hmove : ∀ d val, i = .move d val → d ∈ set → Q (val.eval regs)) :
    ∀ r ∈ transfer pass set i, Q (assign i values regs r) := by
  intro r hr
  rcases mem_transfer hr with ⟨val, rfl, hval⟩ | ⟨hdefs, hval⟩
  · have hassign : assign (.move r val) values regs r = val.eval regs := if_pos rfl
    rw [hassign]
    rcases hval with hr | ⟨s, hs, rfl⟩
    · exact hmove r val rfl hr
    · exact hmono _ (hset s hs)
  · rw [assign_of_not_mem hdefs]
    rcases hval with hr | ⟨isUse, huse'⟩
    · exact hmono _ (hset r hr)
    · exact huse r isUse huse' hdefs

end Transfer

/-! ## Points and paths -/

section Points

variable {pass ir} {sets : Nat → Finset Register} {b k : Nat}

theorem pointSet_succ {i : Instr} (h : ir.inst b k = some i) :
    pointSet pass ir sets b (k + 1) = transfer pass (pointSet pass ir sets b k) i := by
  unfold Ir.inst at h
  rw [pointSet, propagate, List.take_add_one, h, Option.toList_some, List.foldl_append]
  rfl

/-- What is known at the top of a block is known at the bottom of its predecessors. -/
theorem pointSet_edge (hsets : Solves pass ir sets) {p : Nat} (h : b ∈ ir.out p) :
    pointSet pass ir sets b 0 ⊆ pointSet pass ir sets p (ir.insts p).length := by
  have hp : p < ir.blocks.length := List.mem_range.1 (List.mem_filter.1 (Ir.mem_getIn.2 h)).1
  rw [pointSet, pointSet, List.take_length, List.take_zero]
  exact (inSet_subset ir sets h).trans (hsets p hp).subset

end Points

/-- The register has been touched: since its last definition by another instruction
it was the operand of a check or the result of a move. -/
def touched (r : Register) (i : Instr) (before : Bool) : Bool :=
  match i with
  | .move result _ => before || result = r
  | i =>
      if r ∈ i.defs then false
      else match pass.useOperand i with
        | some (.reg useReg, _) => before || useReg = r
        | _ => before

/-- A path through the graph from the entry to a position, with all edges taken at
the end of their block, and whether it touched the register. -/
inductive Path (r : Register) : Nat → Nat → Bool → Prop
  | entry : Path r 0 0 false
  | inst {b k : Nat} {t : Bool} {i : Instr} :
      Path r b k t → ir.inst b k = some i → Path r b (k + 1) (touched pass r i t)
  | edge {p b : Nat} {t : Bool} :
      Path r p (ir.insts p).length t → b ∈ ir.out p → Path r b 0 t

/-- Some path leaves the register untouched. -/
def Untouched (r : Register) (b k : Nat) : Prop := Path pass ir r b k false

section Paths

variable {pass ir} {sets : Nat → Finset Register} {r : Register}

theorem touched_of_mem_transfer {i : Instr} {set : Finset Register} {t : Bool}
    (ht : r ∈ set → t = true) (h : r ∈ transfer pass set i) : touched pass r i t = true := by
  rcases mem_transfer h with ⟨val, rfl, -⟩ | ⟨hdefs, hr⟩
  · simp [touched]
  · unfold touched
    split
    · rename_i result val
      rw [Bool.or_eq_true]
      refine Or.inl (ht (hr.resolve_right fun ⟨_, huse⟩ => ?_))
      have hmem : r ∈ afterUse pass (.move result val) ∅ := by
        rw [afterUse, huse]
        exact Finset.mem_insert_self r ∅
      rw [afterUse_move] at hmem
      exact Finset.notMem_empty r hmem
    · rw [if_neg hdefs]
      rcases hr with hr | ⟨isUse, huse⟩
      · split
        · rw [ht hr, Bool.true_or]
        · exact ht hr
      · simp [huse]

/-- A register of the set at a position was touched on every path to it. -/
theorem Path.touched {b k : Nat} {t : Bool} (h : Path pass ir r b k t)
    (hsets : Solves pass ir sets) (hr : r ∈ pointSet pass ir sets b k) : t = true := by
  induction h with
  | entry =>
      rw [pointSet, inSet_entry] at hr
      exact absurd hr (Finset.notMem_empty r)
  | inst _ hi ih =>
      rw [pointSet_succ hi] at hr
      exact touched_of_mem_transfer ih hr
  | edge _ hedge ih => exact ih (pointSet_edge hsets hedge hr)

theorem Untouched.not_mem {b k : Nat} (h : Untouched pass ir r b k)
    (hsets : Solves pass ir sets) : r ∉ pointSet pass ir sets b k := by
  intro hr
  have := Path.touched h hsets hr
  simp at this

end Paths

end Laminar.Opt
