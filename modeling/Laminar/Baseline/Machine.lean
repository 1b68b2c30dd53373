import Laminar.Lib.Code

/-!
# The machine of the baseline compiler

The part of the IA-32 that the baseline compiler uses for heap accesses.  Expressions live on
the stack of the method's frame, with the locals at its bottom; `T0`, `T1` and `S0` are scratch
registers, and a call may change all of them and whatever lies beneath the stack pointer.

The stack is kept apart from the rest of the memory and counted in words, and so are the table of
member offsets and the counters of the method's branches, which `EBX` points to.  The rest is a
heap of bytes, to which objects and the JTOC belong.  An access through a null base register
traps.

What the virtual machine does in a call is open: a `Runtime` answers each call from what has
happened so far.  A call leaves the words of the frame as they are, so a collection must not move
the objects they refer to.  The `trace` records the calls, the accesses to the heap, the offsets
that were looked up and the flags that were tested; since every test is in it, a timer may set
`takeYieldpoint` at any moment.
-/

namespace Laminar.Baseline

open Laminar.Lib

abbrev Word := BitVec 32

/-! ## The heap -/

/-- The bytes of the memory, `memberOffsets` of the dynamic linker, and the edge counters of the
method. -/
structure Heap where
  bytes : Word → BitVec 8
  memberOffsets : Word → Word
  edgeCounters : Nat → Word

/-- `MOVZX` and `MOVSX` of a byte or of 16 bits, and `MOV`. -/
inductive Move
  | movzxByte
  | movsxByte
  | movzxWord
  | movsxWord
  | mov

/-- How many bytes a store writes: one, two or four. -/
inductive Size
  | byte
  | word
  | dword

namespace Heap

/-- 16 bits, the low byte first. -/
def half (h : Heap) (a : Word) : BitVec 16 := h.bytes (a + 1) ++ h.bytes a

/-- Load from an address. -/
def load (h : Heap) (a : Word) : Move → Word
  | .movzxByte => (h.bytes a).setWidth 32
  | .movsxByte => (h.bytes a).signExtend 32
  | .movzxWord => (h.half a).setWidth 32
  | .movsxWord => (h.half a).signExtend 32
  | .mov => h.half (a + 2) ++ h.half a

/-- Set one byte. -/
def setByte (h : Heap) (a : Word) (b : BitVec 8) : Heap :=
  { h with bytes := fun a' => if a' = a then b else h.bytes a' }

/-- Store to an address. -/
def store (h : Heap) (a v : Word) : Size → Heap
  | .byte => h.setByte a (v.setWidth 8)
  | .word => (h.setByte a (v.setWidth 8)).setByte (a + 1) ((v >>> 8).setWidth 8)
  | .dword =>
      (((h.setByte a (v.setWidth 8)).setByte (a + 1) ((v >>> 8).setWidth 8)).setByte (a + 2)
        ((v >>> 16).setWidth 8)).setByte (a + 3) ((v >>> 24).setWidth 8)

/-- Set one counter. -/
def setCounter (h : Heap) (i : Nat) (v : Word) : Heap :=
  { h with edgeCounters := fun i' => if i' = i then v else h.edgeCounters i' }

end Heap

/-! ## Calls -/

/-- The methods that the compiled code calls.  `B` is the type of the barrier methods. -/
inductive Target (B : Type)
  | barrier (method : B)
  | checkstore
  | modifyCheck
  | resolveMember
  | arrayLoadReadBarrier
  | getfieldReadBarrier
  | arrayStoreWriteBarrier
  | putfieldWriteBarrier
  | resolvedNewScalar
  | unresolvedNewScalar
  | resolvedNewArray
  | unresolvedNewArray
  | newArrayArray (dimensions : Nat)
  | yieldpointFromBackedge
deriving DecidableEq

namespace Target

variable {B : Type}

/-- The words that a method takes from the stack. -/
def parameterWords : Target B → Nat
  | .barrier _ => 1
  | .checkstore => 2
  | .modifyCheck => 1
  | .resolveMember => 1
  | .arrayLoadReadBarrier => 2
  | .getfieldReadBarrier => 3
  | .arrayStoreWriteBarrier => 3
  | .putfieldWriteBarrier => 4
  | .resolvedNewScalar => 7
  | .unresolvedNewScalar => 2
  | .resolvedNewArray => 8
  | .unresolvedNewArray => 3
  | .newArrayArray _ => 4
  | .yieldpointFromBackedge => 0

/-- The words behind the parameters that a method looks at and leaves: `newArrayArray` finds
the dimensions there. -/
def peekedWords : Target B → Nat
  | .newArrayArray dimensions => dimensions
  | _ => 0

end Target

/-- What is seen of a run: the calls, the loads and stores of fields and elements with base and
address, the reads of a header, where the length of an array is, or of the pointer to a type
information block, the offsets that the table had for members, and the values of
`takeYieldpoint`. -/
inductive Event (B : Type)
  | call (target : Target B) (args : List Word)
  | load (ref a : Word)
  | store (ref a : Word)
  | header (ref : Word)
  | memberOffset (id offset : Word)
  | takeYieldpoint (flag : Word)
deriving DecidableEq

/-- How a method ends. -/
inductive Reason (B : Type)
  | nullPointer
  | arrayBounds (index : Word)
  | threw (target : Target B)
  | returned (value : Option Word)
  /-- an access behind the bottom of the frame, which verified code does not make -/
  | outOfFrame

/-- The end of a run. -/
structure Stop (B : Type) where
  reason : Reason B
  heap : Heap
  trace : List (Event B)

/-- How a call ends. -/
inductive Reply
  | returned (result : Word) (heap : Heap)
  | threw (heap : Heap)

/-- What a call leaves in the scratch registers and beneath the stack pointer. -/
structure Scratch where
  t1 : Word
  s0 : Word
  xmm0 : Word × Word
  fp0 : Word × Word
  flags : Word × Word
  trapParam : Word
  below : Nat → Word

/-- `NEEDS_DYNAMIC_LINK`. -/
def needsDynamicLink : Word := -32767

/-- The rest of the virtual machine. -/
structure Runtime (B : Type) where
  reply : List (Event B) → Heap → Target B → List Word → Reply
  scratch : List (Event B) → Scratch
  /-- `takeYieldpoint` -/
  takeYieldpoint : List (Event B) → Word
  /-- a member that has been resolved has its offset in the table -/
  resolves : ∀ trace heap id result heap',
    reply trace heap .resolveMember [id] = .returned result heap' →
      heap'.memberOffsets id ≠ needsDynamicLink

/-- The heap and what has happened to it. -/
structure World (B : Type) where
  heap : Heap
  trace : List (Event B)

namespace World

variable {B : Type} (w : World B)

/-- Stop here. -/
def stop (reason : Reason B) : Stop B := ⟨reason, w.heap, w.trace⟩

/-- Call a method. -/
def call (rt : Runtime B) (target : Target B) (args : List Word) :
    Except (Stop B) (Word × World B) :=
  match rt.reply w.trace w.heap target args with
  | .returned result heap => .ok (result, ⟨heap, w.trace ++ [.call target args]⟩)
  | .threw heap => .error ⟨.threw target, heap, w.trace ++ [.call target args]⟩

/-- Use a base address. -/
def access (event : Word → Event B) (ref : Word) : Except (Stop B) (World B) :=
  if ref = 0 then .error (w.stop .nullPointer)
  else .ok { w with trace := w.trace ++ [event ref] }

/-- Load a word, or less and extend it. -/
def load (move : Move) (ref a : Word) : Except (Stop B) (Word × World B) := do
  let w ← w.access (.load · a) ref
  return (w.heap.load a move, w)

/-- Store a word, or the low part of it. -/
def store (size : Size) (ref a v : Word) : Except (Stop B) (World B) := do
  let w ← w.access (.store · a) ref
  return { w with heap := w.heap.store a v size }

/-- Load 64 bits, the low word first. -/
def loadQuad (ref a : Word) : Except (Stop B) ((Word × Word) × World B) := do
  let w ← w.access (.load · a) ref
  return ((w.heap.load a .mov, w.heap.load (a + 4) .mov), w)

/-- Store 64 bits. -/
def storeQuad (ref a : Word) (v : Word × Word) : Except (Stop B) (World B) := do
  let w ← w.access (.store · a) ref
  return { w with heap := (w.heap.store a v.1 .dword).store (a + 4) v.2 .dword }

/-- Read a word that belongs to the virtual machine. -/
def header (ref a : Word) : Except (Stop B) (Word × World B) := do
  let w ← w.access .header ref
  return (w.heap.load a .mov, w)

/-- Look the offset of a member up. -/
def memberOffset (id : Word) : Word × World B :=
  (w.heap.memberOffsets id,
    { w with trace := w.trace ++ [.memberOffset id (w.heap.memberOffsets id)] })

/-- Test `takeYieldpoint`. -/
def takeYieldpoint (rt : Runtime B) : Word × World B :=
  (rt.takeYieldpoint w.trace,
    { w with trace := w.trace ++ [.takeYieldpoint (rt.takeYieldpoint w.trace)] })

/-- Set one counter. -/
def setCounter (i : Nat) (v : Word) : World B := { w with heap := w.heap.setCounter i v }

end World

/-! ## Instructions -/

inductive Reg
  | t0
  | t1
  | s0
deriving DecidableEq

/-- An address outside the stack.  Addresses in the JTOC are given as offsets. -/
inductive Addr
  | regDisp (base : Reg) (disp : Word)
  | regIdx (base index : Reg) (scale : Nat) (disp : Word)
  | abs (offset : Word)

/-- A place in the memory: a word of the stack, counted from the stack pointer, or an
address. -/
inductive Loc
  | sp (slot : Nat)
  | mem (addr : Addr)

/-- The conditions of class `Assembler`; `LGT` and `LLE` compare without sign, and `S` is the sign
of the difference. -/
inductive Cond
  | eq
  | ne
  | lt
  | ge
  | le
  | gt
  | lgt
  | lle
  | s
  | ns
deriving DecidableEq

/-- `flipCode`. -/
def Cond.flipCode : Cond → Cond
  | .eq => .ne
  | .ne => .eq
  | .lt => .ge
  | .ge => .lt
  | .le => .gt
  | .gt => .le
  | .lgt => .lle
  | .lle => .lgt
  | .s => .ns
  | .ns => .s

/-- The instructions that fall through. -/
inductive Op (B : Type)
  | pushReg (r : Reg)
  | pushImm (v : Word)
  | pushLoc (l : Loc)
  | popReg (r : Reg)
  | popLoc (l : Loc)
  | movRegLoc (move : Move) (r : Reg) (l : Loc)
  | movLocReg (size : Size) (l : Loc) (r : Reg)
  | addLocReg (l : Loc) (r : Reg)
  /-- `ADD SP, 4 * slots` -/
  | addSp (slots : Nat)
  /-- `SUB SP, 4 * slots` -/
  | subSp (slots : Nat)
  /-- `LEA r, JTOC` -/
  | leaToc (r : Reg)
  /-- `MOVQ XMM0, l` -/
  | movqLoad (l : Loc)
  /-- `MOVQ l, XMM0` -/
  | movqStore (l : Loc)
  /-- `FLD FP0, l` -/
  | fldQuad (l : Loc)
  /-- `FSTP l, FP0` -/
  | fstpQuad (l : Loc)
  | cmpRegReg (r r' : Reg)
  | cmpRegImm (r : Reg) (v : Word)
  | testReg (r : Reg)
  /-- `CMP` of the length of the array at `base` -/
  | cmpLengthReg (base index : Reg)
  /-- `PUSH` of the length of the array at `base` -/
  | pushLength (base : Reg)
  /-- `baselineEmitLoadTIB` -/
  | loadTib (r base : Reg)
  /-- `PUSH` of a type information block, which is in the JTOC -/
  | pushTib (offset : Word)
  /-- the offset of a member, from the table -/
  | movMemberOffset (r : Reg) (id : Word)
  /-- `MOV r, [EBX + 4 * counter]` -/
  | movRegCounter (r : Reg) (counter : Nat)
  /-- `MOV [EBX + 4 * counter], r` -/
  | movCounterReg (counter : Nat) (r : Reg)
  | addRegImm (r : Reg) (v : Word)
  /-- `CMP` of `takeYieldpoint` with 0 -/
  | cmpTakeYieldpoint
  /-- `MOV` to `arrayIndexTrapParam` -/
  | movTrapParam (r : Reg)
  /-- `INT TRAP_ARRAY_BOUNDS` -/
  | intArrayBounds
  | callAbs (target : Target B)
  /-- `genEpilogue`, with a value in `T0` or without one -/
  | epilogue (value : Bool)

abbrev Instr (B : Type) := Code.Instr (Op B) Cond

/-! ## The processor -/

/-- The state of the processor.  `below` are the words beneath the stack pointer, the nearest
first, and `flags` the operands of the last comparison. -/
structure Cpu (B : Type) where
  t0 : Word
  t1 : Word
  s0 : Word
  xmm0 : Word × Word
  fp0 : Word × Word
  flags : Word × Word
  trapParam : Word
  stack : List Word
  below : Nat → Word
  world : World B

/-- Where the compiled code finds the JTOC and the words of a header. -/
structure Layout where
  toc : Word
  arrayLengthOffset : Word
  tibOffset : Word

/-- `FLD` turns a signalling NaN into a quiet one. -/
def quiet (v : Word × Word) : Word × Word :=
  if v.2 &&& 0x7ff00000 = 0x7ff00000 ∧ (v.2 &&& 0x000fffff ≠ 0 ∨ v.1 ≠ 0) then
    (v.1, v.2 ||| 0x00080000)
  else v

namespace Cpu

variable {B : Type} (c : Cpu B)

@[simp] def reg : Reg → Word
  | .t0 => c.t0
  | .t1 => c.t1
  | .s0 => c.s0

@[simp] def setReg (v : Word) : Reg → Cpu B
  | .t0 => { c with t0 := v }
  | .t1 => { c with t1 := v }
  | .s0 => { c with s0 := v }

@[simp] def push (v : Word) : Cpu B :=
  { c with
    stack := v :: c.stack
    below := fun i => c.below (i + 1) }

@[simp] def pop : Except (Stop B) (Word × Cpu B) :=
  match c.stack with
  | [] => .error (c.world.stop .outOfFrame)
  | v :: rest => .ok (v, { c with
      stack := rest
      below := fun i => if i = 0 then v else c.below (i - 1) })

/-- Move the stack pointer up. -/
@[simp] def addSp : Nat → Cpu B → Except (Stop B) (Cpu B)
  | 0, c => .ok c
  | n + 1, c => c.pop >>= fun r => addSp n r.2

/-- Move the stack pointer down, onto what lies beneath it. -/
@[simp] def subSp : Nat → Cpu B → Cpu B
  | 0, c => c
  | n + 1, c => subSp n (c.push (c.below 0))

/-- The base of an address. -/
@[simp] def base (layout : Layout) : Addr → Word
  | .regDisp base _ => c.reg base
  | .regIdx base _ _ _ => c.reg base
  | .abs _ => layout.toc

@[simp] def address (layout : Layout) : Addr → Word
  | .regDisp base disp => c.reg base + disp
  | .regIdx base index scale disp => c.reg base + (c.reg index <<< scale) + disp
  | .abs offset => layout.toc + offset

/-- Load from a place. -/
@[simp] def load (layout : Layout) (move : Move) : Loc → Except (Stop B) (Word × Cpu B)
  | .sp n =>
      match c.stack[n]? with
      | some v => .ok (v, c)
      | none => .error (c.world.stop .outOfFrame)
  | .mem a => do
      let (v, w) ← c.world.load move (c.base layout a) (c.address layout a)
      return (v, { c with world := w })

/-- Store to a place. -/
@[simp] def store (layout : Layout) (size : Size) (v : Word) : Loc → Except (Stop B) (Cpu B)
  | .sp n =>
      if n < c.stack.length then .ok { c with stack := c.stack.set n v }
      else .error (c.world.stop .outOfFrame)
  | .mem a => do
      let w ← c.world.store size (c.base layout a) (c.address layout a) v
      return { c with world := w }

/-- Load 64 bits from a place. -/
@[simp] def loadQuad (layout : Layout) : Loc → Except (Stop B) ((Word × Word) × Cpu B)
  | .sp n =>
      match c.stack[n]?, c.stack[n + 1]? with
      | some low, some high => .ok ((low, high), c)
      | _, _ => .error (c.world.stop .outOfFrame)
  | .mem a => do
      let (v, w) ← c.world.loadQuad (c.base layout a) (c.address layout a)
      return (v, { c with world := w })

/-- Store 64 bits to a place. -/
@[simp] def storeQuad (layout : Layout) (v : Word × Word) : Loc → Except (Stop B) (Cpu B)
  | .sp n =>
      if n + 1 < c.stack.length then
        .ok { c with stack := (c.stack.set n v.1).set (n + 1) v.2 }
      else .error (c.world.stop .outOfFrame)
  | .mem a => do
      let w ← c.world.storeQuad (c.base layout a) (c.address layout a) v
      return { c with world := w }

/-- The arguments of a call.  The first two are in `T0` and `T1`, and the others on the stack,
the last one on top. -/
@[simp] def args (target : Target B) : List Word :=
  (match target.parameterWords with
    | 0 => []
    | 1 => [c.t0]
    | n + 2 => c.t0 :: c.t1 :: (c.stack.take n).reverse) ++
  ((c.stack.drop target.parameterWords).take target.peekedWords).reverse

/-- The state in which a call leaves the processor, with its result in `T0`. -/
def leftBy (rt : Runtime B) (stack : List Word) (p : Word × World B) : Cpu B where
  t0 := p.1
  t1 := (rt.scratch p.2.trace).t1
  s0 := (rt.scratch p.2.trace).s0
  xmm0 := (rt.scratch p.2.trace).xmm0
  fp0 := (rt.scratch p.2.trace).fp0
  flags := (rt.scratch p.2.trace).flags
  trapParam := (rt.scratch p.2.trace).trapParam
  stack := stack
  below := (rt.scratch p.2.trace).below
  world := p.2

@[simp] theorem leftBy_t0 (rt : Runtime B) (stack : List Word) (p : Word × World B) :
    (leftBy rt stack p).t0 = p.1 := rfl

@[simp] theorem leftBy_stack (rt : Runtime B) (stack : List Word) (p : Word × World B) :
    (leftBy rt stack p).stack = stack := rfl

@[simp] theorem leftBy_world (rt : Runtime B) (stack : List Word) (p : Word × World B) :
    (leftBy rt stack p).world = p.2 := rfl

/-- Call a method, which removes its parameters from the stack. -/
@[simp] def call (rt : Runtime B) (target : Target B) : Except (Stop B) (Cpu B) := do
  let p ← c.world.call rt target (c.args target)
  return leftBy rt (c.stack.drop target.parameterWords) p

/-- Perform an instruction. -/
@[simp] def run (layout : Layout) (rt : Runtime B) : Op B → Except (Stop B) (Cpu B)
  | .pushReg r => .ok (c.push (c.reg r))
  | .pushImm v => .ok (c.push v)
  | .pushLoc l => do
      let (v, c) ← c.load layout .mov l
      return c.push v
  | .popReg r => do
      let (v, c) ← c.pop
      return c.setReg v r
  -- the address is computed after the stack pointer has moved
  | .popLoc l => do
      let (v, c) ← c.pop
      c.store layout .dword v l
  | .movRegLoc move r l => do
      let (v, c) ← c.load layout move l
      return c.setReg v r
  | .movLocReg size l r => c.store layout size (c.reg r) l
  | .addLocReg l r => do
      let (v, c) ← c.load layout .mov l
      c.store layout .dword (v + c.reg r) l
  | .addSp n => c.addSp n
  | .subSp n => .ok (c.subSp n)
  | .leaToc r => .ok (c.setReg layout.toc r)
  | .movqLoad l => do
      let (v, c) ← c.loadQuad layout l
      return { c with xmm0 := v }
  | .movqStore l => c.storeQuad layout c.xmm0 l
  | .fldQuad l => do
      let (v, c) ← c.loadQuad layout l
      return { c with fp0 := quiet v }
  | .fstpQuad l => c.storeQuad layout c.fp0 l
  | .cmpRegReg r r' => .ok { c with flags := (c.reg r, c.reg r') }
  | .cmpRegImm r v => .ok { c with flags := (c.reg r, v) }
  | .testReg r => .ok { c with flags := (c.reg r, 0) }
  | .cmpLengthReg base index => do
      let (length, w) ← c.world.header (c.reg base) (c.reg base + layout.arrayLengthOffset)
      return { c with
        flags := (length, c.reg index)
        world := w }
  | .pushLength base => do
      let (length, w) ← c.world.header (c.reg base) (c.reg base + layout.arrayLengthOffset)
      return { c with world := w }.push length
  | .loadTib r base => do
      let (tib, w) ← c.world.header (c.reg base) (c.reg base + layout.tibOffset)
      return { c with world := w }.setReg tib r
  | .pushTib offset => do
      let (tib, w) ← c.world.header layout.toc (layout.toc + offset)
      return { c with world := w }.push tib
  | .movMemberOffset r id =>
      .ok ({ c with world := (c.world.memberOffset id).2 }.setReg (c.world.memberOffset id).1 r)
  | .movRegCounter r counter => .ok (c.setReg (c.world.heap.edgeCounters counter) r)
  | .movCounterReg counter r => .ok { c with world := c.world.setCounter counter (c.reg r) }
  | .addRegImm r v => .ok ({ c with flags := (c.reg r + v, 0) }.setReg (c.reg r + v) r)
  | .cmpTakeYieldpoint => .ok { c with
      flags := ((c.world.takeYieldpoint rt).1, 0)
      world := (c.world.takeYieldpoint rt).2 }
  | .movTrapParam r => .ok { c with trapParam := c.reg r }
  | .intArrayBounds => .error (c.world.stop (.arrayBounds c.trapParam))
  | .callAbs target => c.call rt target
  | .epilogue value => .error (c.world.stop (.returned (if value then some c.t0 else none)))

/-- The condition holds after the last comparison. -/
@[simp] def holds : Cond → Bool
  | .eq => c.flags.1 = c.flags.2
  | .ne => c.flags.1 ≠ c.flags.2
  | .lt => c.flags.1.slt c.flags.2
  | .ge => !c.flags.1.slt c.flags.2
  | .le => c.flags.1.sle c.flags.2
  | .gt => !c.flags.1.sle c.flags.2
  | .lgt => c.flags.2.ult c.flags.1
  | .lle => !c.flags.2.ult c.flags.1
  | .s => (c.flags.1 - c.flags.2).msb
  | .ns => !(c.flags.1 - c.flags.2).msb

theorem holds_flipCode (cond : Cond) : c.holds cond.flipCode = !c.holds cond := by
  cases cond <;> simp [Cond.flipCode]

end Cpu

/-- The processor as a machine. -/
def ia32 {B : Type} (layout : Layout) (rt : Runtime B) :
    Code.Machine (Op B) Cond (Cpu B) (Stop B) where
  run := fun o c => c.run layout rt o
  holds := fun cond c => c.holds cond

end Laminar.Baseline
