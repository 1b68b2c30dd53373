/-!
# The intermediate representation

Basic blocks in code order, numbered from the entry.  Of an instruction the model
keeps what the redundant-barrier passes look at: the operand of a heap access or of
a barrier call, moves, and the registers the instruction defines.  Any other
instruction is `other`, and its results are left open.

A block is in factored form: an instruction in its middle may throw to one of the
handlers of the block.
-/

namespace Laminar.Opt

abbrev Register := Nat

/-- An object; what a register holds is an object or, with `none`, no object. -/
abbrev Obj := Nat

/-- A register or a constant. -/
inductive Operand
  | reg (r : Register)
  | const (value : Option Obj)

/-- The three versions of a barrier. -/
inductive Variant
  | dynamic
  | insideSR
  | outsideSR
deriving DecidableEq

/-- The barrier methods of `Entrypoints`. -/
inductive Target
  | difcAllocBarrierDynamicMethod
  | difcAllocBarrierInsideSRMethod
  | difcReadBarrierMethod (v : Variant)
  | difcWriteBarrierMethod (v : Variant)

/-- An instruction.  A barrier call has one parameter and no result. -/
inductive Instr
  | move (result : Register) (val : Operand)
  | new (result : Register)
  | newArray (result : Register)
  | getField (result : Register) (ref : Operand)
  | aload (result : Register) (array : Operand)
  | putField (ref : Operand)
  | astore (array : Operand)
  | call (target : Target) (param : Operand)
  | other (defs : List Register) (pei : Bool)

/-- `getDefs`. -/
def Instr.defs : Instr → List Register
  | .move result _ => [result]
  | .new result => [result]
  | .newArray result => [result]
  | .getField result _ => [result]
  | .aload result _ => [result]
  | .putField _ => []
  | .astore _ => []
  | .call _ _ => []
  | .other defs _ => defs

/-- `isPEI`: the instruction may throw. -/
def Instr.isPei : Instr → Bool
  | .move _ _ => false
  | .other _ pei => pei
  | _ => true

/-- A basic block with its normal and exceptional successors. -/
structure Block where
  insts : List Instr
  normalOut : List Nat
  exceptionalOut : List Nat

/-- `BasicBlock.getOut`. -/
def Block.out (b : Block) : List Nat := b.normalOut ++ b.exceptionalOut

/-- An IR in code order.  The entry, block 0, is the prologue that is generated
before the code of the method, so no edge leads to it. -/
structure Ir where
  blocks : List Block
  entry_noIn : ∀ b ∈ blocks, 0 ∉ b.out

namespace Ir

/-- The instructions of a block. -/
def insts (ir : Ir) (b : Nat) : List Instr := (ir.blocks[b]?.map Block.insts).getD []

/-- The successors of a block. -/
def out (ir : Ir) (b : Nat) : List Nat := (ir.blocks[b]?.map Block.out).getD []

/-- `getIn`: the predecessors of a block, along normal and exceptional edges. -/
def getIn (ir : Ir) (b : Nat) : List Nat :=
  (List.range ir.blocks.length).filter fun p => b ∈ ir.out p

/-- The instruction at a position of a block. -/
def inst (ir : Ir) (b k : Nat) : Option Instr := (ir.insts b)[k]?

theorem lt_of_inst {ir : Ir} {b k : Nat} {i : Instr} (h : ir.inst b k = some i) :
    b < ir.blocks.length := by
  refine Nat.lt_of_not_le fun hle => ?_
  rw [inst, insts, List.getElem?_eq_none hle] at h
  simp at h

theorem mem_getIn {ir : Ir} {p b : Nat} : p ∈ ir.getIn b ↔ b ∈ ir.out p := by
  rw [getIn, List.mem_filter, List.mem_range, decide_eq_true_eq]
  refine and_iff_right_of_imp fun h => ?_
  refine Nat.lt_of_not_le fun hle => ?_
  rw [out, List.getElem?_eq_none hle] at h
  simp at h

theorem getIn_entry (ir : Ir) : ir.getIn 0 = [] := by
  refine List.eq_nil_iff_forall_not_mem.2 fun p hp => ?_
  rw [mem_getIn, out] at hp
  cases hblock : ir.blocks[p]? with
  | none => simp [hblock] at hp
  | some b =>
      rw [hblock] at hp
      exact ir.entry_noIn b (List.mem_of_getElem? hblock) hp

end Ir

end Laminar.Opt
