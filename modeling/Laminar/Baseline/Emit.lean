import Laminar.Baseline.Bytecode

/-!
# Code of the baseline compiler

`BaselineCompilerImpl` turns every bytecode into a fixed piece of code.  Where the method has
DIFC barriers, the code for a heap access starts with one: it pushes a second copy of the
reference, loads it into the register for the first parameter and calls the barrier, which takes
the copy away.  The code for an allocation ends with a barrier for the new object.

The code for a branch names its target by the index of the bytecode.  In a build with the
Poisoned plan the collector has a read barrier, and where the adaptive system profiles a method
its conditional branches are counted.  Left out are the barriers for static fields, which no plan
asks for, the counters of invocations, prologues, calls of methods, `switch` bytecodes and
synchronized methods.
-/

namespace Laminar.Baseline

open Laminar.Vm (BarrierType)

variable {B : Type}

/-- Instructions without a jump. -/
def ops (os : List (Op B)) : List (Instr B) := os.map .op

@[simp] theorem ops_nil : ops ([] : List (Op B)) = [] := rfl

@[simp] theorem ops_cons (o : Op B) (os : List (Op B)) : ops (o :: os) = .op o :: ops os := rfl

/-- `genParameterRegisterLoad(asm, params)`. -/
@[simp] def genParameterRegisterLoad (params : Nat) : List (Op B) :=
  .movRegLoc .mov .t0 (.sp (params - 1)) ::
    (if 1 < params then [.movRegLoc .mov .t1 (.sp (params - 2))] else [])

/-- Push the only parameter of a method and call it. -/
def pushAndCall (param : Op B) (target : Target B) : List (Instr B) :=
  ops (param :: genParameterRegisterLoad 1 ++ [.callAbs target])

/-- `genBoundsCheck`. -/
def genBoundsCheck (index arrayRef : Reg) : List (Instr B) :=
  [.op (.cmpLengthReg arrayRef index), .skipIf .lgt 2, .op (.movTrapParam index),
    .op .intArrayBounds]

/-- `emitDynamicLinkingSequence`, for a member that may not be resolved. -/
def emitDynamicLinkingSequence (r : Reg) (id : Word) : List (Instr B) :=
  [.op (.movMemberOffset r id), .op (.cmpRegImm r needsDynamicLink), .skipIf .ne 4] ++
    pushAndCall (.pushImm id) .resolveMember ++ [.back 6]

/-- `genNullCheck`. -/
def genNullCheck (slot : Nat) : List (Op B) :=
  [.movRegLoc .mov .t1 (.sp slot), .loadTib .t1 .t1]

namespace Compiler

variable (cc : Compiler B)

/-- A DIFC barrier whose parameter is pushed by an instruction. -/
def difcBarrier (type : BarrierType) (param : Op B) : List (Instr B) :=
  match cc.addBarriers type with
  | some method => pushAndCall param (.barrier method)
  | none => []

/-- `compileModifyCheck`, with the slot of the object. -/
def compileModifyCheck (slot : Nat) : List (Instr B) :=
  if cc.extremeAssertions then pushAndCall (.pushLoc (.sp slot)) .modifyCheck else []

/-- The check of the index in `T0` for the array in `S0`. -/
def boundsCheck : List (Instr B) := if cc.generateBoundsChecks then genBoundsCheck .t0 .s0 else []

/-! ## Array loads -/

/-- `insertDIFCReadBarrier`. -/
def insertDifcReadBarrier : List (Instr B) := cc.difcBarrier .read (.pushLoc (.sp 1))

/-- The code for an array load.  The index goes to `T0` and the array to `S0`; `load` pushes the
element. -/
def emitArrayLoad (space load : List (Op B)) : List (Instr B) :=
  cc.insertDifcReadBarrier ++ ops ([.popReg .t0, .popReg .s0] ++ space) ++ cc.boundsCheck ++
    ops load

/-- `[S0 + T0 << scale + disp]`. -/
def element (scale : Nat) (disp : Word) : Loc := .mem (.regIdx .s0 .t0 scale disp)

def emitIaload : List (Instr B) := cc.emitArrayLoad [] [.pushLoc (element 2 0)]

def emitFaload : List (Instr B) := cc.emitArrayLoad [] [.pushLoc (element 2 0)]

/-- `emit_aaload`.  For `compileArrayLoadBarrier` the operands are put back on the stack. -/
def emitAaload : List (Instr B) :=
  if cc.needsReadBarrier then
    cc.emitArrayLoad []
      ([.subSp 2] ++ genParameterRegisterLoad 2 ++ [.callAbs .arrayLoadReadBarrier, .pushReg .t0])
  else cc.emitArrayLoad [] [.pushLoc (element 2 0)]

def emitCaload : List (Instr B) :=
  cc.emitArrayLoad [] [.movRegLoc .movzxWord .t1 (element 1 0), .pushReg .t1]

def emitSaload : List (Instr B) :=
  cc.emitArrayLoad [] [.movRegLoc .movsxWord .t1 (element 1 0), .pushReg .t1]

def emitBaload : List (Instr B) :=
  cc.emitArrayLoad [] [.movRegLoc .movsxByte .t1 (element 0 0), .pushReg .t1]

/-- `emit_laload` and `emit_daload`, which are the same. -/
def emitWideLoad : List (Instr B) :=
  if cc.sse2Base then
    cc.emitArrayLoad [.subSp 2] [.movqLoad (element 3 0), .movqStore (.sp 0)]
  else cc.emitArrayLoad [] [.pushLoc (element 3 4), .pushLoc (element 3 0)]

def emitLaload : List (Instr B) := cc.emitWideLoad

def emitDaload : List (Instr B) := cc.emitWideLoad

/-! ## Array stores -/

/-- `insertDIFCWriteBarrier`. -/
def insertDifcWriteBarrier (numSlots : Nat) : List (Instr B) :=
  cc.difcBarrier .write (.pushLoc (.sp numSlots))

/-- The value goes to `T1`, the index to `T0` and the array to `S0`, and the value is stored. -/
def popAndStore (size : Size) (scale : Nat) : List (Instr B) :=
  ops [.popReg .t1, .popReg .t0, .popReg .s0] ++ cc.boundsCheck ++
    ops [.movLocReg size (element scale 0) .t1]

/-- The code for an array store of a word that is no reference. -/
def emitArrayStore (size : Size) (scale : Nat) : List (Instr B) :=
  cc.insertDifcWriteBarrier 2 ++ cc.compileModifyCheck 2 ++ cc.popAndStore size scale

def emitIastore : List (Instr B) := cc.emitArrayStore .dword 2

def emitFastore : List (Instr B) := cc.emitArrayStore .dword 2

def emitCastore : List (Instr B) := cc.emitArrayStore .word 1

def emitSastore : List (Instr B) := cc.emitArrayStore .word 1

def emitBastore : List (Instr B) := cc.emitArrayStore .byte 0

/-- `emit_aastore`.  `checkstore` gets copies of the array and the value. -/
def emitAastore : List (Instr B) :=
  cc.insertDifcWriteBarrier 2 ++ cc.compileModifyCheck 2 ++
    ops ([.pushLoc (.sp 2), .pushLoc (.sp 1)] ++ genParameterRegisterLoad 2 ++
      [.callAbs .checkstore]) ++
    if cc.needsWriteBarrier then
      ops [.movRegLoc .mov .t0 (.sp 1), .movRegLoc .mov .s0 (.sp 2)] ++ cc.boundsCheck ++
        ops (genParameterRegisterLoad 3 ++ [.callAbs .arrayStoreWriteBarrier])
    else cc.popAndStore .dword 2

/-- `emit_lastore` and `emit_dastore`, which are the same. -/
def emitWideStore : List (Instr B) :=
  cc.insertDifcWriteBarrier 3 ++ cc.compileModifyCheck 3 ++
    if cc.sse2Base then
      ops [.movqLoad (.sp 0), .addSp 2, .popReg .t0, .popReg .s0] ++ cc.boundsCheck ++
        ops [.movqStore (element 3 0)]
    else
      ops [.movRegLoc .mov .t0 (.sp 2), .movRegLoc .mov .s0 (.sp 3),
        .movRegLoc .mov .t1 (.sp 0)] ++ cc.boundsCheck ++
        ops [.movLocReg .dword (element 3 0) .t1, .movRegLoc .mov .t1 (.sp 1), .addSp 4,
          .movLocReg .dword (element 3 4) .t1]

def emitLastore : List (Instr B) := cc.emitWideStore

def emitDastore : List (Instr B) := cc.emitWideStore

/-! ## Static fields -/

/-- The code of a static access, by where the field is in the JTOC. -/
def loadStatic (f : FieldReference) (low high : Addr) : List (Instr B) :=
  if f.kind.wide then ops [.pushLoc (.mem high), .pushLoc (.mem low)]
  else ops [.pushLoc (.mem low)]

def storeStatic (f : FieldReference) (low high : Addr) : List (Instr B) :=
  if f.kind.wide then ops [.popLoc (.mem low), .popLoc (.mem high)]
  else ops [.popLoc (.mem low)]

/-- `emit_unresolved_getstatic` and `emit_resolved_getstatic`. -/
def emitGetstatic (f : FieldReference) : List (Instr B) :=
  cc.difcBarrier .staticRead (.pushImm f.id) ++
    match f.offset with
    | none =>
        emitDynamicLinkingSequence .t0 f.id ++ (ops [.leaToc .s0] ++
          loadStatic f (.regIdx .s0 .t0 0 0) (.regIdx .s0 .t0 0 4))
    | some offset => loadStatic f (.abs offset) (.abs (offset + 4))

/-- `emit_unresolved_putstatic` and `emit_resolved_putstatic`. -/
def emitPutstatic (f : FieldReference) : List (Instr B) :=
  cc.difcBarrier .staticWrite (.pushImm f.id) ++
    match f.offset with
    | none =>
        emitDynamicLinkingSequence .t0 f.id ++ (ops [.leaToc .s0] ++
          storeStatic f (.regIdx .s0 .t0 0 0) (.regIdx .s0 .t0 0 4))
    | some offset => storeStatic f (.abs offset) (.abs (offset + 4))

/-! ## Fields -/

/-- The object goes to `S0`, and its place on the stack is taken by the value of the field. -/
def emitLoadField (f : FieldReference) (r : Reg) (a : Addr) : List (Instr B) :=
  if f.kind.wide then
    ops ([.movRegLoc .mov .s0 (.sp 0), .subSp 1] ++
      if cc.sse2Base then [.movqLoad (.mem a), .movqStore (.sp 0)]
      else [.fldQuad (.mem a), .fstpQuad (.sp 0)])
  else
    ops [.movRegLoc .mov .s0 (.sp 0), .movRegLoc f.kind.move r (.mem a),
      .movLocReg .dword (.sp 0) r]

/-- `compileGetfieldBarrier` and `compileGetfieldBarrierImm`, by the instruction that pushes the
offset of the field. -/
def compileGetfieldBarrier (pushOffset : Op B) (id : Word) : List (Instr B) :=
  ops (genNullCheck 0 ++ [pushOffset, .pushImm id] ++ genParameterRegisterLoad 3 ++
    [.callAbs .getfieldReadBarrier, .pushReg .t0])

/-- `emit_unresolved_getfield` and `emit_resolved_getfield`. -/
def emitGetfield (f : FieldReference) : List (Instr B) :=
  cc.difcBarrier .read (.pushLoc (.sp 0)) ++
    match f.offset with
    | none =>
        emitDynamicLinkingSequence .t0 f.id ++
          if f.kind = .reference ∧ cc.needsReadBarrier then
            compileGetfieldBarrier (.pushReg .t0) f.id
          else cc.emitLoadField f .t1 (.regIdx .s0 .t0 0 0)
    | some offset =>
        if f.kind = .reference ∧ cc.needsReadBarrier ∧ !f.untraced then
          compileGetfieldBarrier (.pushImm offset) f.id
        else cc.emitLoadField f .t0 (.regDisp .s0 offset)

/-- The value goes to `r` and the object to `S0`, and the value is stored. -/
def emitStoreField (f : FieldReference) (r : Reg) (a : Addr) : List (Instr B) :=
  if f.kind.wide then
    ops ([.movRegLoc .mov .s0 (.sp 2)] ++
      (if cc.sse2Base then [.movqLoad (.sp 0), .movqStore (.mem a)]
        else [.fldQuad (.sp 0), .fstpQuad (.mem a)]) ++ [.addSp 3])
  else
    ops [.movRegLoc .mov r (.sp 0), .movRegLoc .mov .s0 (.sp 1), .addSp 2,
      .movLocReg f.kind.size (.mem a) r]

/-- `compilePutfieldBarrier` and `compilePutfieldBarrierImm`, by the instruction that pushes the
offset of the field. -/
def compilePutfieldBarrier (pushOffset : Op B) (id : Word) : List (Instr B) :=
  ops (genNullCheck 1 ++ [.pushLoc (.sp 1), pushOffset, .pushLoc (.sp 2), .pushImm id] ++
    genParameterRegisterLoad 4 ++ [.callAbs .putfieldWriteBarrier, .addSp 2])

/-- The slot of the object under the value of a field. -/
def objectSlot (f : FieldReference) : Nat := if f.kind.wide then 2 else 1

/-- `emit_unresolved_putfield`. -/
def emitUnresolvedPutfield (f : FieldReference) : List (Instr B) :=
  cc.difcBarrier .write (.pushLoc (.sp (objectSlot f))) ++
    (emitDynamicLinkingSequence .t0 f.id ++
      if f.kind = .reference ∧ cc.needsWriteBarrier then
        compilePutfieldBarrier (.pushReg .t0) f.id
      else cc.emitStoreField f .t1 (.regIdx .s0 .t0 0 0))

/-- `emit_resolved_putfield`.  The slot of the check is that of the object only under a value of
one word. -/
def emitResolvedPutfield (f : FieldReference) (offset : Word) : List (Instr B) :=
  cc.difcBarrier .write (.pushLoc (.sp (objectSlot f))) ++ (cc.compileModifyCheck 1 ++
    if f.kind = .reference ∧ cc.needsWriteBarrier ∧ !f.untraced then
      compilePutfieldBarrier (.pushImm offset) f.id
    else cc.emitStoreField f .t0 (.regDisp .s0 offset))

/-! ## Allocations -/

/-- `difcAllocationBarrierHelper`. -/
def difcAllocationBarrierHelper : List (Instr B) := cc.difcBarrier .alloc (.pushReg .t0)

/-- Push the parameters of an allocation, call it and push the new object. -/
def callAllocation (params : List (Op B)) (target : Target B) : List (Instr B) :=
  ops (params ++ genParameterRegisterLoad target.parameterWords ++
    [.callAbs target, .pushReg .t0])

/-- `emit_resolved_new` and `emit_unresolved_new`. -/
def emitNew : ClassReference → List (Instr B)
  | .resolved instanceSize tibOffset hasFinalizer whichAllocator align offset =>
      callAllocation [.pushImm instanceSize, .pushTib tibOffset, .pushImm hasFinalizer,
        .pushImm whichAllocator, .pushImm align, .pushImm offset, .pushImm cc.site]
        .resolvedNewScalar ++ cc.difcAllocationBarrierHelper
  | .unresolved id =>
      callAllocation [.pushImm id, .pushImm cc.site] .unresolvedNewScalar ++
        cc.difcAllocationBarrierHelper

/-- `emit_resolved_newarray` and `emit_unresolved_newarray`; the length is on the stack. -/
def emitNewarray : ArrayReference → List (Instr B)
  | .resolved width headerSize tibOffset whichAllocator align offset =>
      callAllocation [.pushImm width, .pushImm headerSize, .pushTib tibOffset,
        .pushImm whichAllocator, .pushImm align, .pushImm offset, .pushImm cc.site]
        .resolvedNewArray ++ cc.difcAllocationBarrierHelper
  | .unresolved id =>
      callAllocation [.pushImm id, .pushImm cc.site] .unresolvedNewArray ++
        cc.difcAllocationBarrierHelper

/-- `emit_multianewarray`. -/
def emitMultianewarray (id : Word) (dimensions : Nat) : List (Instr B) :=
  ops ([.pushImm cc.methodId, .pushImm (BitVec.ofNat 32 dimensions), .pushImm id,
      .pushImm (argOffset dimensions)] ++ genParameterRegisterLoad 4 ++
      [.callAbs (.newArrayArray dimensions)]) ++
    ops (List.replicate dimensions (.popReg .s0)) ++
    (ops [.pushReg .t0] ++ cc.difcAllocationBarrierHelper)

/-! ## Branches and locals -/

/-- `genThreadSwitchTest(BACKEDGE)`. -/
def genThreadSwitchTest : List (Instr B) :=
  if cc.isInterruptible then
    [.op .cmpTakeYieldpoint, .skipIf .le 1, .op (.callAbs .yieldpointFromBackedge)]
  else []

/-- The yieldpoint of a branch that goes back. -/
def threadSwitchTest (bi target : Nat) : List (Instr B) :=
  if target ≤ bi then cc.genThreadSwitchTest else []

/-- `incEdgeCounter`; a counter does not become negative. -/
def incEdgeCounter (scratch : Reg) (counterIdx : Nat) : List (Instr B) :=
  [.op (.movRegCounter scratch counterIdx), .op (.addRegImm scratch 1), .skipIf .s 1,
    .op (.movCounterReg counterIdx scratch)]

/-- `genCondBranch`.  Each branch has two counters, and the one for branches that are taken is
jumped over by the others. -/
def genCondBranch (bi : Nat) (cond : Cond) (target : Nat) : List (Instr B) :=
  if cc.hasCounterArray then
    .skipIf cond.flipCode 5 :: incEdgeCounter .t1 (cc.edgeCounterIdx bi + edge true) ++
      (.goto target :: incEdgeCounter .t1 (cc.edgeCounterIdx bi + edge false))
  else [.gotoIf cond target]

/-- `localOffset`, in words. -/
def localOffset (bi index : Nat) : Nat := cc.localWords - 1 + cc.height bi - index

/-! ## Methods -/

/-- The code of a bytecode. -/
def emit (bi : Nat) : Bytecode → List (Instr B)
  | .aconstNull => ops [.pushImm 0]
  | .iconst val => ops [.pushImm val]
  | .iload index => ops [.pushLoc (.sp (cc.localOffset bi index))]
  -- POP computes its address after the stack pointer has moved
  | .istore index => ops [.popLoc (.sp (cc.localOffset bi index - 1))]
  | .pop => ops [.popReg .t0]
  | .iadd => ops [.popReg .t0, .addLocReg (.sp 0) .t0]
  | .arrayLoad .int => cc.emitIaload
  | .arrayLoad .float => cc.emitFaload
  | .arrayLoad .reference => cc.emitAaload
  | .arrayLoad .char => cc.emitCaload
  | .arrayLoad .short => cc.emitSaload
  | .arrayLoad .byte => cc.emitBaload
  | .arrayLoad .long => cc.emitLaload
  | .arrayLoad .double => cc.emitDaload
  | .arrayStore .int => cc.emitIastore
  | .arrayStore .float => cc.emitFastore
  | .arrayStore .reference => cc.emitAastore
  | .arrayStore .char => cc.emitCastore
  | .arrayStore .short => cc.emitSastore
  | .arrayStore .byte => cc.emitBastore
  | .arrayStore .long => cc.emitLastore
  | .arrayStore .double => cc.emitDastore
  | .getstatic f => cc.emitGetstatic f
  | .putstatic f => cc.emitPutstatic f
  | .getfield f => cc.emitGetfield f
  | .putfield f =>
      match f.offset with
      | none => cc.emitUnresolvedPutfield f
      | some offset => cc.emitResolvedPutfield f offset
  | .new t => cc.emitNew t
  | .newarray t => cc.emitNewarray t
  | .multianewarray id dimensions => cc.emitMultianewarray id dimensions
  | .arraylength => ops [.popReg .t0, .pushLength .t0]
  | .goto target => cc.threadSwitchTest bi target ++ [.goto target]
  | .ifeq target =>
      cc.threadSwitchTest bi target ++
        (ops [.popReg .t0, .testReg .t0] ++ cc.genCondBranch bi .eq target)
  | .ifIcmplt target =>
      cc.threadSwitchTest bi target ++
        (ops [.popReg .s0, .popReg .t0, .cmpRegReg .t0 .s0] ++ cc.genCondBranch bi .lt target)
  | .ireturn => ops [.popReg .t0, .epilogue true]
  | .return_ => ops [.epilogue false]

/-- The code of a method. -/
def genCode (code : List Bytecode) (bi : Nat) : List (Instr B) :=
  match code[bi]? with
  | some bytecode => cc.emit bi bytecode
  | none => []

end Compiler

end Laminar.Baseline
