import Laminar.Baseline.Machine
import Laminar.Vm.StaticBarriers

/-!
# What the bytecodes do

The bytecodes for heap accesses and allocations, with those that bring operands to them and
branch over them.  `Compiler.exec` is their meaning in a method with DIFC barriers: the barrier
gets the reference that is accessed, and the access comes after it.  Words of 64 bits are two
operands, the low one on top.

The meaning depends on the compiler in what it leaves open: which barriers a method has, whether
indices are checked, whether an assertion or a barrier of the collector is called, whether 64 bits
move at once, and whether branches are counted.
-/

namespace Laminar.Baseline

open Laminar.Lib
open Laminar.Vm (BarrierType)

/-! ## Types -/

/-- The contents of a field. -/
inductive Kind
  | boolean
  | byte
  | char
  | short
  | int
  | float
  | word
  | reference
  | long
  | double
deriving DecidableEq

namespace Kind

/-- `getSize() == BYTES_IN_LONG`. -/
def wide : Kind → Bool
  | .long | .double => true
  | _ => false

/-- The operands for a value. -/
def words (k : Kind) : Nat := if k.wide then 2 else 1

def move : Kind → Move
  | .boolean => .movzxByte
  | .byte => .movsxByte
  | .char => .movzxWord
  | .short => .movsxWord
  | _ => .mov

def size : Kind → Size
  | .boolean | .byte => .byte
  | .char | .short => .word
  | _ => .dword

end Kind

/-- The elements of an array, as the bytecodes tell them apart. -/
inductive ArrayKind
  | byte
  | char
  | short
  | int
  | float
  | reference
  | long
  | double
deriving DecidableEq

namespace ArrayKind

def wide : ArrayKind → Bool
  | .long | .double => true
  | _ => false

def words (k : ArrayKind) : Nat := if k.wide then 2 else 1

def move : ArrayKind → Move
  | .byte => .movsxByte
  | .char => .movzxWord
  | .short => .movsxWord
  | _ => .mov

def size : ArrayKind → Size
  | .byte => .byte
  | .char | .short => .word
  | _ => .dword

/-- `Assembler.BYTE`, `SHORT`, `WORD` and `LONG`. -/
def scale : ArrayKind → Nat
  | .byte => 0
  | .char | .short => 1
  | .int | .float | .reference => 2
  | .long | .double => 3

/-- The address of an element. -/
def address (k : ArrayKind) (ref index : Word) : Word := ref + (index <<< k.scale)

end ArrayKind

/-- A field.  It has an offset if it needs no dynamic link. -/
structure FieldReference where
  id : Word
  kind : Kind
  offset : Option Word
  untraced : Bool

/-- A class to instantiate: initialized, with what the allocation needs, or known by its id. -/
inductive ClassReference
  | resolved (instanceSize tibOffset hasFinalizer whichAllocator align offset : Word)
  | unresolved (id : Word)

/-- The type of an array. -/
inductive ArrayReference
  | resolved (width headerSize tibOffset whichAllocator align offset : Word)
  | unresolved (id : Word)

inductive Bytecode
  | aconstNull
  | iconst (val : Word)
  | iload (index : Nat)
  | istore (index : Nat)
  | pop
  | iadd
  | arrayLoad (k : ArrayKind)
  | arrayStore (k : ArrayKind)
  | getstatic (f : FieldReference)
  | putstatic (f : FieldReference)
  | getfield (f : FieldReference)
  | putfield (f : FieldReference)
  | new (t : ClassReference)
  | newarray (t : ArrayReference)
  | multianewarray (id : Word) (dimensions : Nat)
  | arraylength
  | goto (target : Nat)
  | ifeq (target : Nat)
  | ifIcmplt (target : Nat)
  | ireturn
  | return_

/-! ## The compiler and its runtime -/

/-- What the compiler knows: the build, and the method it compiles. -/
structure Compiler (B : Type) extends Layout where
  /-- `SSE2_BASE` -/
  sse2Base : Bool
  /-- `ExtremeAssertions` -/
  extremeAssertions : Bool
  /-- `NEEDS_READ_BARRIER` -/
  needsReadBarrier : Bool
  /-- `NEEDS_WRITE_BARRIER` -/
  needsWriteBarrier : Bool
  generateBoundsChecks : Bool
  isInterruptible : Bool
  /-- `DIFC.addBarriers(method, type)` -/
  addBarriers : BarrierType → Option B
  methodId : Word
  /-- `getDIFCAllocationSite(true, method)` -/
  site : Word
  hasCounterArray : Bool
  /-- `edgeCounterIdx` when a bytecode is compiled -/
  edgeCounterIdx : Nat → Nat
  localWords : Nat
  /-- the operands on the stack before each bytecode -/
  height : Nat → Nat

/-- The frame of a method. -/
structure Frame (B : Type) where
  operands : List Word
  locals : List Word
  world : World B

namespace Compiler

variable {B : Type} (cc : Compiler B) (rt : Runtime B)

/-- A call without a result. -/
def callVoid (target : Target B) (args : List Word) (w : World B) :
    Except (Stop B) (World B) := do
  let (_, w) ← w.call rt target args
  return w

/-- The DIFC barrier of a type, if the method has it. -/
def barrier (type : BarrierType) (arg : Word) (w : World B) : Except (Stop B) (World B) :=
  match cc.addBarriers type with
  | some method => callVoid rt (.barrier method) [arg] w
  | none => .ok w

/-- `modifyCheck` of an object that is to be changed. -/
def modifyCheck (ref : Word) (w : World B) : Except (Stop B) (World B) :=
  if cc.extremeAssertions then callVoid rt .modifyCheck [ref] w else .ok w

/-- Check an index. -/
def checkBounds (ref index : Word) (w : World B) : Except (Stop B) (World B) :=
  if cc.generateBoundsChecks then do
    let (length, w) ← w.header ref (ref + cc.arrayLengthOffset)
    if index.ult length then return w else .error (w.stop (.arrayBounds index))
  else .ok w

/-- The offset of a field, which may have to be resolved. -/
def link (f : FieldReference) (w : World B) : Except (Stop B) (Word × World B) :=
  match f.offset with
  | some offset => .ok (offset, w)
  | none =>
      if (w.memberOffset f.id).1 = needsDynamicLink then do
        let w ← callVoid rt .resolveMember [f.id] (w.memberOffset f.id).2
        return w.memberOffset f.id
      else .ok (w.memberOffset f.id)

/-- The yieldpoint of a branch, if it goes back. -/
def yieldpoint (bi target : Nat) (w : World B) : Except (Stop B) (World B) :=
  if target ≤ bi ∧ cc.isInterruptible = true then
    if (w.takeYieldpoint rt).1.sle 0 then .ok (w.takeYieldpoint rt).2
    else callVoid rt .yieldpointFromBackedge [] (w.takeYieldpoint rt).2
  else .ok w

/-- Count to `0x7fffffff`. -/
def increment (counter : Nat) (w : World B) : World B :=
  if (w.heap.edgeCounters counter + 1).msb then w
  else w.setCounter counter (w.heap.edgeCounters counter + 1)

/-- `EdgeCounts.TAKEN` and `NOT_TAKEN`. -/
def edge (taken : Bool) : Nat := if taken then 0 else 1

/-- Count a conditional branch. -/
def countBranch (bi : Nat) (taken : Bool) (w : World B) : World B :=
  if cc.hasCounterArray then increment (cc.edgeCounterIdx bi + edge taken) w else w

/-- Load 64 bits as two words of 32 bits, the high one first. -/
def loadPair (ref a : Word) (w : World B) : Except (Stop B) (List Word × World B) := do
  let (high, w) ← w.load .mov ref (a + 4)
  let (low, w) ← w.load .mov ref a
  return ([low, high], w)

/-- Load 64 bits at once. -/
def loadQuad (ref a : Word) (w : World B) : Except (Stop B) (List Word × World B) := do
  let (v, w) ← w.loadQuad ref a
  return ([v.1, v.2], w)

def loadWord (move : Move) (ref a : Word) (w : World B) :
    Except (Stop B) (List Word × World B) := do
  let (v, w) ← w.load move ref a
  return ([v], w)

/-- Store 64 bits as two words, the low one first. -/
def storePair (ref a low high : Word) (w : World B) : Except (Stop B) (World B) := do
  let w ← w.store .dword ref a low
  w.store .dword ref (a + 4) high

/-! ## Accesses -/

/-- Load an element. -/
def loadElement (k : ArrayKind) (ref index : Word) (w : World B) :
    Except (Stop B) (List Word × World B) :=
  if k.wide then
    if cc.sse2Base then loadQuad ref (k.address ref index) w
    else loadPair ref (k.address ref index) w
  else loadWord k.move ref (k.address ref index) w

/-- A call for its result. -/
def callForWord (target : Target B) (args : List Word) (w : World B) :
    Except (Stop B) (List Word × World B) := do
  let (v, w) ← w.call rt target args
  return ([v], w)

/-- `xaload`.  A reference may be loaded by the barrier of the collector. -/
def arrayLoad (k : ArrayKind) (ref index : Word) (w : World B) :
    Except (Stop B) (List Word × World B) := do
  let w ← cc.barrier rt .read ref w
  let w ← cc.checkBounds ref index w
  if k = .reference ∧ cc.needsReadBarrier then
    callForWord rt .arrayLoadReadBarrier [ref, index] w
  else cc.loadElement k ref index w

/-- `lastore` and `dastore`. -/
def arrayStoreWide (k : ArrayKind) (ref index low high : Word) (w : World B) :
    Except (Stop B) (World B) := do
  let w ← cc.barrier rt .write ref w
  let w ← cc.modifyCheck rt ref w
  let w ← cc.checkBounds ref index w
  if cc.sse2Base then w.storeQuad ref (k.address ref index) (low, high)
  else storePair ref (k.address ref index) low high w

/-- `xastore` of one word.  A reference is checked against the type of the array, and may be
stored by the barrier of the collector. -/
def arrayStore (k : ArrayKind) (ref index v : Word) (w : World B) :
    Except (Stop B) (World B) := do
  let w ← cc.barrier rt .write ref w
  let w ← cc.modifyCheck rt ref w
  if k = .reference then
    let w ← callVoid rt .checkstore [ref, v] w
    let w ← cc.checkBounds ref index w
    if cc.needsWriteBarrier then callVoid rt .arrayStoreWriteBarrier [ref, index, v] w
    else w.store .dword ref (k.address ref index) v
  else
    let w ← cc.checkBounds ref index w
    w.store k.size ref (k.address ref index) v

/-- `getstatic`. -/
def getstatic (f : FieldReference) (w : World B) : Except (Stop B) (List Word × World B) := do
  let w ← cc.barrier rt .staticRead f.id w
  let (offset, w) ← link rt f w
  if f.kind.wide then loadPair cc.toc (cc.toc + offset) w
  else loadWord .mov cc.toc (cc.toc + offset) w

/-- `putstatic`; a value of one word is in `low`. -/
def putstatic (f : FieldReference) (low high : Word) (w : World B) :
    Except (Stop B) (World B) := do
  let w ← cc.barrier rt .staticWrite f.id w
  let (offset, w) ← link rt f w
  if f.kind.wide then storePair cc.toc (cc.toc + offset) low high w
  else w.store .dword cc.toc (cc.toc + offset) low

/-- The barriers of the collector are for references in traced fields; an unresolved field may be
one. -/
def maybeTraced (f : FieldReference) : Bool :=
  f.kind = .reference && (f.offset.isNone || !f.untraced)

/-- Load a field, or have the barrier of the collector do it, after a look at the header of the
object. -/
def loadField (f : FieldReference) (ref offset : Word) (w : World B) :
    Except (Stop B) (List Word × World B) :=
  if maybeTraced f ∧ cc.needsReadBarrier then do
    let (_, w) ← w.header ref (ref + cc.tibOffset)
    callForWord rt .getfieldReadBarrier [ref, offset, f.id] w
  else if f.kind.wide then loadQuad ref (ref + offset) w
  else loadWord f.kind.move ref (ref + offset) w

/-- `getfield`. -/
def getfield (f : FieldReference) (ref : Word) (w : World B) :
    Except (Stop B) (List Word × World B) := do
  let w ← cc.barrier rt .read ref w
  let (offset, w) ← link rt f w
  cc.loadField rt f ref offset w

/-- Store a word in a field, or have the barrier of the collector do it. -/
def storeField (f : FieldReference) (ref offset v : Word) (w : World B) :
    Except (Stop B) (World B) :=
  if maybeTraced f ∧ cc.needsWriteBarrier then do
    let (_, w) ← w.header ref (ref + cc.tibOffset)
    callVoid rt .putfieldWriteBarrier [ref, offset, v, f.id] w
  else w.store f.kind.size ref (ref + offset) v

/-- Only a resolved field has the check of `ExtremeAssertions`. -/
def checkResolved (f : FieldReference) (ref : Word) (w : World B) : Except (Stop B) (World B) :=
  if f.offset.isSome then cc.modifyCheck rt ref w else .ok w

/-- The rest of `putfield`, when the offset of the field is known. -/
def putLinked (f : FieldReference) (ref offset low high : Word) (w : World B) :
    Except (Stop B) (World B) := do
  let w ← cc.checkResolved rt f ref w
  if f.kind.wide then w.storeQuad ref (ref + offset) (low, high)
  else cc.storeField rt f ref offset low w

/-- `putfield`; a value of one word is in `low`. -/
def putfield (f : FieldReference) (ref low high : Word) (w : World B) :
    Except (Stop B) (World B) := do
  let w ← cc.barrier rt .write ref w
  let (offset, w) ← link rt f w
  cc.putLinked rt f ref offset low high w

/-! ## Allocations -/

/-- The call that allocates an object. -/
def allocateScalar (t : ClassReference) (w : World B) : Except (Stop B) (Word × World B) :=
  match t with
  | .resolved instanceSize tibOffset hasFinalizer whichAllocator align offset => do
      let (tib, w) ← w.header cc.toc (cc.toc + tibOffset)
      w.call rt .resolvedNewScalar
        [instanceSize, tib, hasFinalizer, whichAllocator, align, offset, cc.site]
  | .unresolved id => w.call rt .unresolvedNewScalar [id, cc.site]

/-- The call that allocates an array. -/
def allocateArray (t : ArrayReference) (count : Word) (w : World B) :
    Except (Stop B) (Word × World B) :=
  match t with
  | .resolved width headerSize tibOffset whichAllocator align offset => do
      let (tib, w) ← w.header cc.toc (cc.toc + tibOffset)
      w.call rt .resolvedNewArray
        [count, width, headerSize, tib, whichAllocator, align, offset, cc.site]
  | .unresolved id => w.call rt .unresolvedNewArray [count, id, cc.site]

/-- The barrier of a new object. -/
def allocated (p : Word × World B) : Except (Stop B) (Word × World B) := do
  let w ← cc.barrier rt .alloc p.1 p.2
  return (p.1, w)

/-- `new`. -/
def new (t : ClassReference) (w : World B) : Except (Stop B) (Word × World B) :=
  cc.allocateScalar rt t w >>= cc.allocated rt

/-- `newarray` and `anewarray`. -/
def newarray (t : ArrayReference) (count : Word) (w : World B) :
    Except (Stop B) (Word × World B) :=
  cc.allocateArray rt t count w >>= cc.allocated rt

/-- The place of the dimensions, from the frame pointer on entry to `newArrayArray`. -/
def argOffset (dimensions : Nat) : Word := BitVec.ofNat 32 ((dimensions + 6) * 4)

/-- `multianewarray`; the dimensions are given as they lie on the stack. -/
def multianewarray (id : Word) (dimensions : List Word) (w : World B) :
    Except (Stop B) (Word × World B) :=
  w.call rt (.newArrayArray dimensions.length)
    ([cc.methodId, BitVec.ofNat 32 dimensions.length, id, argOffset dimensions.length] ++
      dimensions.reverse) >>= cc.allocated rt

/-! ## Bytecodes -/

/-- Stop because an operand or a local is missing. -/
def stuck {α : Type} (f : Frame B) : Except (Stop B) α := .error (f.world.stop .outOfFrame)

/-- A bytecode, at its index in the method; gives the index of the next one. -/
def exec (bi : Nat) (f : Frame B) : Bytecode → Except (Stop B) (Nat × Frame B)
  | .aconstNull => .ok (bi + 1, { f with operands := 0 :: f.operands })
  | .iconst val => .ok (bi + 1, { f with operands := val :: f.operands })
  | .iload i =>
      match f.locals[i]? with
      | some v => .ok (bi + 1, { f with operands := v :: f.operands })
      | none => stuck f
  | .istore i =>
      match f.operands with
      | v :: rest => .ok (bi + 1, { f with
          operands := rest
          locals := f.locals.set i v })
      | _ => stuck f
  | .pop =>
      match f.operands with
      | _ :: rest => .ok (bi + 1, { f with operands := rest })
      | _ => stuck f
  | .iadd =>
      match f.operands with
      | b :: a :: rest => .ok (bi + 1, { f with operands := (a + b) :: rest })
      | _ => stuck f
  | .arrayLoad k =>
      match f.operands with
      | index :: ref :: rest => do
          let (v, w) ← cc.arrayLoad rt k ref index f.world
          return (bi + 1, ⟨v ++ rest, f.locals, w⟩)
      | _ => stuck f
  | .arrayStore k =>
      if k.wide then
        match f.operands with
        | low :: high :: index :: ref :: rest => do
            let w ← cc.arrayStoreWide rt k ref index low high f.world
            return (bi + 1, ⟨rest, f.locals, w⟩)
        | _ => stuck f
      else
        match f.operands with
        | v :: index :: ref :: rest => do
            let w ← cc.arrayStore rt k ref index v f.world
            return (bi + 1, ⟨rest, f.locals, w⟩)
        | _ => stuck f
  | .getstatic field => do
      let (v, w) ← cc.getstatic rt field f.world
      return (bi + 1, ⟨v ++ f.operands, f.locals, w⟩)
  | .putstatic field =>
      if field.kind.wide then
        match f.operands with
        | low :: high :: rest => do
            let w ← cc.putstatic rt field low high f.world
            return (bi + 1, ⟨rest, f.locals, w⟩)
        | _ => stuck f
      else
        match f.operands with
        | v :: rest => do
            let w ← cc.putstatic rt field v 0 f.world
            return (bi + 1, ⟨rest, f.locals, w⟩)
        | _ => stuck f
  | .getfield field =>
      match f.operands with
      | ref :: rest => do
          let (v, w) ← cc.getfield rt field ref f.world
          return (bi + 1, ⟨v ++ rest, f.locals, w⟩)
      | _ => stuck f
  | .putfield field =>
      if field.kind.wide then
        match f.operands with
        | low :: high :: ref :: rest => do
            let w ← cc.putfield rt field ref low high f.world
            return (bi + 1, ⟨rest, f.locals, w⟩)
        | _ => stuck f
      else
        match f.operands with
        | v :: ref :: rest => do
            let w ← cc.putfield rt field ref v 0 f.world
            return (bi + 1, ⟨rest, f.locals, w⟩)
        | _ => stuck f
  | .new t => do
      let (ref, w) ← cc.new rt t f.world
      return (bi + 1, ⟨ref :: f.operands, f.locals, w⟩)
  | .newarray t =>
      match f.operands with
      | count :: rest => do
          let (ref, w) ← cc.newarray rt t count f.world
          return (bi + 1, ⟨ref :: rest, f.locals, w⟩)
      | _ => stuck f
  | .multianewarray id dimensions => do
      let (ref, w) ← cc.multianewarray rt id (f.operands.take dimensions) f.world
      return (bi + 1, ⟨ref :: f.operands.drop dimensions, f.locals, w⟩)
  | .arraylength =>
      match f.operands with
      | ref :: rest => do
          let (length, w) ← f.world.header ref (ref + cc.arrayLengthOffset)
          return (bi + 1, ⟨length :: rest, f.locals, w⟩)
      | _ => stuck f
  | .goto target => do
      let w ← cc.yieldpoint rt bi target f.world
      return (target, { f with world := w })
  | .ifeq target =>
      match f.operands with
      | v :: rest => do
          let w ← cc.yieldpoint rt bi target f.world
          return (if v = 0 then target else bi + 1,
            ⟨rest, f.locals, cc.countBranch bi (v = 0) w⟩)
      | _ => stuck f
  | .ifIcmplt target =>
      match f.operands with
      | b :: a :: rest => do
          let w ← cc.yieldpoint rt bi target f.world
          return (if a.slt b then target else bi + 1,
            ⟨rest, f.locals, cc.countBranch bi (a.slt b) w⟩)
      | _ => stuck f
  | .ireturn =>
      match f.operands with
      | v :: _ => .error (f.world.stop (.returned (some v)))
      | _ => stuck f
  | .return_ => .error (f.world.stop (.returned none))

end Compiler

/-! ## Methods -/

namespace Bytecode

/-- The operands that a bytecode takes. -/
def pops : Bytecode → Nat
  | .aconstNull | .iconst _ | .iload _ | .getstatic _ | .new _ | .goto _ | .return_ => 0
  | .istore _ | .pop | .getfield _ | .newarray _ | .arraylength | .ifeq _ | .ireturn => 1
  | .iadd | .arrayLoad _ | .ifIcmplt _ => 2
  | .arrayStore k => k.words + 2
  | .putstatic f => f.kind.words
  | .putfield f => f.kind.words + 1
  | .multianewarray _ dimensions => dimensions

/-- The operands that a bytecode leaves. -/
def pushes : Bytecode → Nat
  | .aconstNull | .iconst _ | .iload _ | .iadd | .new _ | .newarray _ | .multianewarray _ _
  | .arraylength => 1
  | .arrayLoad k => k.words
  | .getstatic f | .getfield f => f.kind.words
  | .istore _ | .pop | .arrayStore _ | .putstatic _ | .putfield _ | .goto _ | .ifeq _
  | .ifIcmplt _ | .ireturn | .return_ => 0

/-- The bytecodes that may come next. -/
def targets (bi : Nat) : Bytecode → List Nat
  | .goto target => [target]
  | .ifeq target | .ifIcmplt target => [target, bi + 1]
  | .ireturn | .return_ => []
  | _ => [bi + 1]

end Bytecode

/-- A bytecode of a verified method: its operands and its local are there, and each bytecode
that may come next expects the operands it leaves. -/
structure Compiler.Fits {B : Type} (cc : Compiler B) (length bi : Nat) (bytecode : Bytecode) :
    Prop where
  pops_le : bytecode.pops ≤ cc.height bi
  target : ∀ t ∈ bytecode.targets bi,
    t < length ∧ cc.height t = cc.height bi - bytecode.pops + bytecode.pushes
  index_lt : ∀ index, bytecode = .iload index ∨ bytecode = .istore index →
    index < cc.localWords

/-- The bytecodes of a method fit together. -/
def Compiler.Verified {B : Type} (cc : Compiler B) (code : List Bytecode) : Prop :=
  ∀ bi bytecode, code[bi]? = some bytecode → cc.Fits code.length bi bytecode

/-- **The limits of the build.**  Two templates for fields of 64 bits do not do what the bytecode
does.  Without SSE2 the value goes through the floating-point unit, which changes a signalling
NaN; and the check of `ExtremeAssertions` for a resolved field gets a word of the value in place
of the object.  A build in which a method has no such field access moves all values as they
are. -/
structure Compiler.MovesExactly {B : Type} (cc : Compiler B) (code : List Bytecode) : Prop where
  sse2 : ∀ f, .getfield f ∈ code ∨ .putfield f ∈ code → f.kind.wide = true → cc.sse2Base = true
  check : ∀ f, .putfield f ∈ code → f.kind.wide = true → cc.extremeAssertions = true →
    f.offset = none

/-- A method at one of its bytecodes. -/
structure Activation (B : Type) where
  bi : Nat
  frame : Frame B

/-- The next bytecode of a method. -/
def bytecodeStep {B : Type} (cc : Compiler B) (rt : Runtime B) (code : List Bytecode)
    (s : Activation B) : Except (Stop B) (Activation B) :=
  match code[s.bi]? with
  | some bytecode => do
      let (bi, f) ← cc.exec rt s.bi s.frame bytecode
      return ⟨bi, f⟩
  | none => Compiler.stuck s.frame

/-- The frame has the operands and locals that the compiler expects. -/
structure Activation.Valid {B : Type} (cc : Compiler B) (code : List Bytecode)
    (s : Activation B) : Prop where
  bi_lt : s.bi < code.length
  operands : s.frame.operands.length = cc.height s.bi
  locals : s.frame.locals.length = cc.localWords

namespace Compiler

variable {B : Type} {cc : Compiler B} {rt : Runtime B}

section Lengths

variable {ref a : Word} {w : World B} {r : List Word × World B}

theorem length_loadPair (h : loadPair ref a w = .ok r) : r.1.length = 2 := by
  obtain ⟨q, -, h⟩ := bind_eq_ok.1 h
  obtain ⟨q', -, h⟩ := bind_eq_ok.1 h
  cases h
  rfl

theorem length_loadQuad (h : loadQuad ref a w = .ok r) : r.1.length = 2 := by
  obtain ⟨q, -, h⟩ := bind_eq_ok.1 h
  cases h
  rfl

theorem length_loadWord {move : Move} (h : loadWord move ref a w = .ok r) : r.1.length = 1 := by
  obtain ⟨q, -, h⟩ := bind_eq_ok.1 h
  cases h
  rfl

theorem length_callForWord {target : Target B} {args : List Word}
    (h : callForWord rt target args w = .ok r) : r.1.length = 1 := by
  obtain ⟨q, -, h⟩ := bind_eq_ok.1 h
  cases h
  rfl

theorem length_arrayLoad {k : ArrayKind} {index : Word}
    (h : cc.arrayLoad rt k ref index w = .ok r) : r.1.length = k.words := by
  obtain ⟨w₁, -, h⟩ := bind_eq_ok.1 h
  obtain ⟨w₂, -, h⟩ := bind_eq_ok.1 h
  split at h
  · rename_i hbarrier
    rw [hbarrier.1]
    exact length_callForWord h
  rw [loadElement] at h
  rw [ArrayKind.words]
  split at h
  · rw [if_pos ‹_›]
    split at h
    · exact length_loadQuad h
    · exact length_loadPair h
  · rw [if_neg ‹_›]
    exact length_loadWord h

theorem length_getstatic {f : FieldReference} (h : cc.getstatic rt f w = .ok r) :
    r.1.length = f.kind.words := by
  obtain ⟨w₁, -, h⟩ := bind_eq_ok.1 h
  obtain ⟨q, -, h⟩ := bind_eq_ok.1 h
  dsimp only at h
  rw [Kind.words]
  split at h
  · rw [if_pos ‹_›]
    exact length_loadPair h
  · rw [if_neg ‹_›]
    exact length_loadWord h

theorem kind_of_maybeTraced {f : FieldReference} (h : maybeTraced f = true) :
    f.kind = .reference := by
  rw [maybeTraced, Bool.and_eq_true] at h
  exact of_decide_eq_true h.1

theorem length_getfield {f : FieldReference} (h : cc.getfield rt f ref w = .ok r) :
    r.1.length = f.kind.words := by
  obtain ⟨w₁, -, h⟩ := bind_eq_ok.1 h
  obtain ⟨q, -, h⟩ := bind_eq_ok.1 h
  dsimp only at h
  rw [loadField] at h
  split at h
  · rename_i hbarrier
    obtain ⟨q', -, h⟩ := bind_eq_ok.1 h
    rw [length_callForWord h, kind_of_maybeTraced hbarrier.1]
    rfl
  rw [Kind.words]
  split at h
  · rw [if_pos ‹_›]
    exact length_loadQuad h
  · rw [if_neg ‹_›]
    exact length_loadWord h

end Lengths

section Next

variable {bi t n : Nat} {f' : Frame B} {rest locals : List Word}

/-- A load goes on with the next bytecode and has pushed its value. -/
theorem targets_of_load {x : Except (Stop B) (List Word × World B)}
    (h : (do
      let (v, w) ← x
      return (bi + 1, (⟨v ++ rest, locals, w⟩ : Frame B))) = .ok (t, f'))
    (hn : ∀ r, x = .ok r → r.1.length + rest.length = n) :
    t ∈ [bi + 1] ∧ f'.operands.length = n ∧ f'.locals.length = locals.length := by
  obtain ⟨r, hr, h⟩ := bind_eq_ok.1 h
  cases h
  exact ⟨List.mem_singleton_self _, List.length_append.trans (hn r hr), rfl⟩

/-- A store goes on with the next bytecode and the operands that it does not take. -/
theorem targets_of_store {x : Except (Stop B) (World B)}
    (h : (do
      let w ← x
      return (bi + 1, (⟨rest, locals, w⟩ : Frame B))) = .ok (t, f'))
    (hn : rest.length = n) :
    t ∈ [bi + 1] ∧ f'.operands.length = n ∧ f'.locals.length = locals.length := by
  obtain ⟨w, -, h⟩ := bind_eq_ok.1 h
  cases h
  exact ⟨List.mem_singleton_self _, hn, rfl⟩

end Next

/-- A bytecode leads to one of its targets with the operands it leaves. -/
theorem exec_targets {bi t : Nat} {f f' : Frame B} {bytecode : Bytecode}
    (hpops : bytecode.pops ≤ f.operands.length)
    (h : cc.exec rt bi f bytecode = .ok (t, f')) :
    t ∈ bytecode.targets bi ∧
      f'.operands.length = f.operands.length - bytecode.pops + bytecode.pushes ∧
      f'.locals.length = f.locals.length := by
  obtain ⟨operands, locals, world⟩ := f
  simp only at hpops ⊢
  cases bytecode with
  | aconstNull | iconst val =>
      cases h
      exact ⟨List.mem_singleton_self _, rfl, rfl⟩
  | iload index =>
      rw [exec] at h
      split at h
      · cases h
        exact ⟨List.mem_singleton_self _, rfl, rfl⟩
      · cases h
  | istore index =>
      cases operands with
      | nil => cases h
      | cons v rest =>
          cases h
          exact ⟨List.mem_singleton_self _, rfl, List.length_set⟩
  | pop =>
      cases operands with
      | nil => cases h
      | cons v rest =>
          cases h
          exact ⟨List.mem_singleton_self _, rfl, rfl⟩
  | iadd =>
      rcases operands with _ | ⟨b, _ | ⟨a, rest⟩⟩
      · cases h
      · cases h
      · cases h
        exact ⟨List.mem_singleton_self _, rfl, rfl⟩
  | arrayLoad k =>
      rcases operands with _ | ⟨index, _ | ⟨ref, rest⟩⟩
      · cases h
      · cases h
      · refine targets_of_load h fun r hr => ?_
        simp [length_arrayLoad hr, Bytecode.pops, Bytecode.pushes]
        omega
  | arrayStore k =>
      rw [exec] at h
      cases hwide : k.wide with
      | true =>
          rw [hwide, if_pos rfl] at h
          rcases operands with _ | ⟨low, _ | ⟨high, _ | ⟨index, _ | ⟨ref, rest⟩⟩⟩⟩
          iterate 4 cases h
          refine targets_of_store h ?_
          simp [Bytecode.pops, Bytecode.pushes, ArrayKind.words, hwide]
      | false =>
          rw [hwide, if_neg Bool.false_ne_true] at h
          rcases operands with _ | ⟨v, _ | ⟨index, _ | ⟨ref, rest⟩⟩⟩
          iterate 3 cases h
          refine targets_of_store h ?_
          simp [Bytecode.pops, Bytecode.pushes, ArrayKind.words, hwide]
  | getstatic field =>
      refine targets_of_load h fun r hr => ?_
      simp [length_getstatic hr, Bytecode.pops, Bytecode.pushes]
      omega
  | putstatic field =>
      rw [exec] at h
      cases hwide : field.kind.wide with
      | true =>
          rw [hwide, if_pos rfl] at h
          rcases operands with _ | ⟨low, _ | ⟨high, rest⟩⟩
          iterate 2 cases h
          refine targets_of_store h ?_
          simp [Bytecode.pops, Bytecode.pushes, Kind.words, hwide]
      | false =>
          rw [hwide, if_neg Bool.false_ne_true] at h
          rcases operands with _ | ⟨v, rest⟩
          · cases h
          · refine targets_of_store h ?_
            simp [Bytecode.pops, Bytecode.pushes, Kind.words, hwide]
  | getfield field =>
      rcases operands with _ | ⟨ref, rest⟩
      · cases h
      · refine targets_of_load h fun r hr => ?_
        simp [length_getfield hr, Bytecode.pops, Bytecode.pushes]
        omega
  | putfield field =>
      rw [exec] at h
      cases hwide : field.kind.wide with
      | true =>
          rw [hwide, if_pos rfl] at h
          rcases operands with _ | ⟨low, _ | ⟨high, _ | ⟨ref, rest⟩⟩⟩
          iterate 3 cases h
          refine targets_of_store h ?_
          simp [Bytecode.pops, Bytecode.pushes, Kind.words, hwide]
      | false =>
          rw [hwide, if_neg Bool.false_ne_true] at h
          rcases operands with _ | ⟨v, _ | ⟨ref, rest⟩⟩
          iterate 2 cases h
          refine targets_of_store h ?_
          simp [Bytecode.pops, Bytecode.pushes, Kind.words, hwide]
  | new t =>
      obtain ⟨r, -, h⟩ := bind_eq_ok.1 h
      cases h
      exact ⟨List.mem_singleton_self _, rfl, rfl⟩
  | newarray t =>
      rcases operands with _ | ⟨count, rest⟩
      · cases h
      · obtain ⟨r, -, h⟩ := bind_eq_ok.1 h
        cases h
        exact ⟨List.mem_singleton_self _, rfl, rfl⟩
  | multianewarray id dimensions =>
      obtain ⟨r, -, h⟩ := bind_eq_ok.1 h
      cases h
      refine ⟨List.mem_singleton_self _, ?_, rfl⟩
      simp [Bytecode.pops, Bytecode.pushes]
  | arraylength =>
      rcases operands with _ | ⟨ref, rest⟩
      · cases h
      · obtain ⟨r, -, h⟩ := bind_eq_ok.1 h
        cases h
        exact ⟨List.mem_singleton_self _, rfl, rfl⟩
  | goto target =>
      obtain ⟨w, -, h⟩ := bind_eq_ok.1 h
      cases h
      exact ⟨List.mem_singleton_self _, rfl, rfl⟩
  | ifeq target =>
      rcases operands with _ | ⟨v, rest⟩
      · cases h
      · obtain ⟨w, -, h⟩ := bind_eq_ok.1 h
        cases h
        refine ⟨?_, rfl, rfl⟩
        split <;> simp [Bytecode.targets]
  | ifIcmplt target =>
      rcases operands with _ | ⟨b, _ | ⟨a, rest⟩⟩
      · cases h
      · cases h
      · obtain ⟨w, -, h⟩ := bind_eq_ok.1 h
        cases h
        refine ⟨?_, rfl, rfl⟩
        split <;> simp [Bytecode.targets]
  | ireturn =>
      rcases operands with _ | ⟨v, rest⟩
      · cases h
      · cases h
  | return_ => cases h

end Compiler

end Laminar.Baseline
