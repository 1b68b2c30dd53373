import Laminar.Lib.Run

/-!
# Reference counts of pipes

A pipe counts the open descriptions of each of its two ends twice.  `readers` and `writers` are
what a task can see, and only a task that may write the inode takes a count down when it closes;
`real_readers` and `real_writers` decide when the pipe is freed.  A task that drops a reference
that is not the last one, and may not write the inode, adds to both visible counts.

`PipeInode` is an inode with its pipe and its open descriptions, and a call is one step.  An open
of a FIFO that finds no partner waits with the mutex released, so its end is a step of its own.
Whether the task of a call may write the inode is a parameter of the call.  A call that follows a
null pointer to the pipe has no next state.

`fifo_open` counts in the visible counters only, while `pipe_release` takes down the real ones of
every pipe.  On an inode where no `fifo_open` gets as far as to succeed, and where two borderline
cases are left out, the counts are right; `PipeInode.Safe` names the steps that keep them so.
-/

namespace Laminar.Vfs

open Laminar.Lib

/-! ## State -/

/-- The two ends of a pipe. -/
inductive PipeEnd
  | reader
  | writer
deriving DecidableEq

/-- The file operations of an open description; those of `rdwr_pipe_fops` and `rdwr_fifo_fops`
look at the mode of the file. -/
inductive PipeOps
  | read
  | write
  | rdwr (fmodeRead fmodeWrite : Bool)
deriving DecidableEq

/-- The decrements that the release operation passes to `pipe_release`: whether the description
is open for reading, and for writing. -/
def PipeOps.uses : PipeOps → PipeEnd → Bool
  | .read, .reader => true
  | .read, .writer => false
  | .write, .reader => false
  | .write, .writer => true
  | .rdwr fmodeRead _, .reader => fmodeRead
  | .rdwr _ fmodeWrite, .writer => fmodeWrite

/-- `struct file`: an open description and the number of references to it. -/
structure PipeFile where
  fOp : PipeOps
  fCount : Nat
deriving DecidableEq

/-- A `fifo_open` in `wait_for_partner`: the end it opens, and the counter of the other end as it
was when the wait began. -/
structure FifoWait where
  side : PipeEnd
  cur : BitVec 32
deriving DecidableEq

/-- `struct pipe_inode_info`, its counters and the opens in its wait queue. -/
structure PipeInodeInfo where
  readers : BitVec 32
  writers : BitVec 32
  realReaders : BitVec 32
  realWriters : BitVec 32
  rCounter : BitVec 32
  wCounter : BitVec 32
  wait : List FifoWait
deriving DecidableEq

/-- An inode, its pipe, and the open descriptions on it. -/
structure PipeInode where
  iPipe : Option PipeInodeInfo
  files : List PipeFile
deriving DecidableEq

namespace PipeInodeInfo

/-- `readers` or `writers`. -/
def visible (pipe : PipeInodeInfo) : PipeEnd → BitVec 32
  | .reader => pipe.readers
  | .writer => pipe.writers

/-- `real_readers` or `real_writers`. -/
def real (pipe : PipeInodeInfo) : PipeEnd → BitVec 32
  | .reader => pipe.realReaders
  | .writer => pipe.realWriters

/-- The counter that an open of this end waits on. -/
def partner (pipe : PipeInodeInfo) : PipeEnd → BitVec 32
  | .reader => pipe.wCounter
  | .writer => pipe.rCounter

/-- `alloc_pipe_info`. -/
def alloc : PipeInodeInfo := ⟨0, 0, 0, 0, 1, 1, []⟩

/-! ## Opens and releases of a pipe -/

/-- Count one more description of an end. -/
def openEnd (pipe : PipeInodeInfo) : PipeEnd → PipeInodeInfo
  | .reader => { pipe with readers := pipe.readers + 1, realReaders := pipe.realReaders + 1 }
  | .writer => { pipe with writers := pipe.writers + 1, realWriters := pipe.realWriters + 1 }

/-- `pipe_read_open`. -/
def pipeReadOpen (pipe : PipeInodeInfo) : PipeInodeInfo := pipe.openEnd .reader

/-- `pipe_write_open`. -/
def pipeWriteOpen (pipe : PipeInodeInfo) : PipeInodeInfo := pipe.openEnd .writer

/-- `pipe_rdwr_open`. -/
def pipeRdwrOpen (pipe : PipeInodeInfo) (fmodeRead fmodeWrite : Bool) : PipeInodeInfo :=
  let pipe := if fmodeRead then pipe.openEnd .reader else pipe
  if fmodeWrite then pipe.openEnd .writer else pipe

/-- An operand that is one or zero. -/
def flag (b : Bool) : BitVec 32 := if b then 1 else 0

/-- The counters after `pipe_release`; `granted` says that the task may write the inode. -/
def countRelease (pipe : PipeInodeInfo) (granted decr decw : Bool) : PipeInodeInfo :=
  let pipe :=
    if granted then
      { pipe with readers := pipe.readers - flag decr, writers := pipe.writers - flag decw }
    else pipe
  { pipe with
    realReaders := pipe.realReaders - flag decr, realWriters := pipe.realWriters - flag decw }

/-- `pipe_release`: the pipe it leaves, `none` if it calls `free_pipe_info`. -/
def pipeRelease (pipe : PipeInodeInfo) (granted decr decw : Bool) : Option PipeInodeInfo :=
  let pipe := pipe.countRelease granted decr decw
  if pipe.realReaders = 0 ∧ pipe.realWriters = 0 then none else some pipe

/-- The counters after an `fput` that drops a reference but not the last one. -/
def countFput (pipe : PipeInodeInfo) (granted : Bool) : PipeInodeInfo :=
  if granted then pipe
  else { pipe with writers := pipe.writers + 1, readers := pipe.readers + 1 }

/-! ## Opens of a FIFO -/

/-- How far `fifo_open` gets before it releases the mutex: it opens a description, waits for a
partner, or fails. -/
inductive FifoProgress
  | opened (fOp : PipeOps) (pipe : PipeInodeInfo)
  | waits (pipe : PipeInodeInfo)
  | failed (pipe : PipeInodeInfo)

/-- Count one more open of an end, as `fifo_open` does. -/
def countFifo (pipe : PipeInodeInfo) : PipeEnd → PipeInodeInfo
  | .reader => { pipe with rCounter := pipe.rCounter + 1, readers := pipe.readers + 1 }
  | .writer => { pipe with wCounter := pipe.wCounter + 1, writers := pipe.writers + 1 }

/-- Begin `wait_for_partner`. -/
def waitForPartner (pipe : PipeInodeInfo) (side : PipeEnd) : PipeInodeInfo :=
  { pipe with wait := pipe.wait ++ [⟨side, pipe.partner side⟩] }

/-- `fifo_open` from the switch on; `nonblock` is `O_NONBLOCK`. -/
def fifoOpen (pipe : PipeInodeInfo) (fmodeRead fmodeWrite nonblock : Bool) : FifoProgress :=
  match fmodeRead, fmodeWrite with
  | true, false =>
      let pipe := pipe.countFifo .reader
      if pipe.writers = 0 then
        if nonblock then .opened .read pipe else .waits (pipe.waitForPartner .reader)
      else .opened .read pipe
  | false, true =>
      if nonblock ∧ pipe.readers = 0 then .failed pipe
      else
        let pipe := pipe.countFifo .writer
        if pipe.readers = 0 then .waits (pipe.waitForPartner .writer) else .opened .write pipe
  | true, true => .opened (.rdwr true true) ((pipe.countFifo .reader).countFifo .writer)
  | false, false => .failed pipe

/-- The counters at `err_rd` and `err_wr`. -/
def closeEnd (pipe : PipeInodeInfo) : PipeEnd → PipeInodeInfo
  | .reader => { pipe with readers := pipe.readers - 1 }
  | .writer => { pipe with writers := pipe.writers - 1 }

/-- `fifo_open` after `wait_for_partner`; `signal` says that a signal is pending. -/
def fifoWoken (pipe : PipeInodeInfo) (side : PipeEnd) (signal : Bool) : FifoProgress :=
  if signal then .failed (pipe.closeEnd side)
  else match side with
    | .reader => .opened .read pipe
    | .writer => .opened .write pipe

end PipeInodeInfo

namespace PipeInode

open PipeInodeInfo

/-- `get_pipe_inode`, with the two descriptions that a pipe is made with. -/
def getPipeInode : PipeInode :=
  ⟨some { alloc with readers := 1, writers := 1, realReaders := 1, realWriters := 1 },
    [⟨.read, 1⟩, ⟨.write, 1⟩]⟩

/-- A FIFO that is not open. -/
def fifo : PipeInode := ⟨none, []⟩

/-- A new description and the pipe that counts it. -/
def addFile (s : PipeInode) (fOp : PipeOps) (pipe : PipeInodeInfo) : PipeInode :=
  ⟨some pipe, s.files ++ [⟨fOp, 1⟩]⟩

/-- The end of `fifo_open`; the mark says that `free_pipe_info` was called. -/
def fifoExit (s : PipeInode) : FifoProgress → Bool × PipeInode
  | .opened fOp pipe => (false, s.addFile fOp pipe)
  | .waits pipe => (false, { s with iPipe := some pipe })
  | .failed pipe =>
      if pipe.readers = 0 ∧ pipe.writers = 0 then (true, { s with iPipe := none })
      else (false, { s with iPipe := some pipe })

/-- `fput` on the description in place `i`. -/
def fput (s : PipeInode) (i : Nat) (granted : Bool) : Option (Bool × PipeInode) := do
  let file ← s.files[i]?
  if file.fCount - 1 = 0 then
    let pipe ← s.iPipe
    let left := pipe.pipeRelease granted (file.fOp.uses .reader) (file.fOp.uses .writer)
    some (left.isNone, ⟨left, s.files.eraseIdx i⟩)
  else
    let files := s.files.set i { file with fCount := file.fCount - 1 }
    if granted then some (false, { s with files := files })
    else
      let pipe ← s.iPipe
      some (false, ⟨some (pipe.countFput granted), files⟩)

/-- The calls on an inode.  `fifoOpen` has a parameter for the allocation of the pipe, and
`fifoWake` is the end of an open that waits.  `get` takes one more reference to a
description. -/
inductive Call
  | readOpen
  | writeOpen
  | rdwrOpen (fmodeRead fmodeWrite : Bool)
  | fifoOpen (fmodeRead fmodeWrite nonblock allocated : Bool)
  | fifoWake (i : Nat) (signal : Bool)
  | get (i : Nat)
  | fput (i : Nat) (granted : Bool)

/-- One call: whether it ran `free_pipe_info`, and the inode it leaves. -/
def step (s : PipeInode) : Call → Option (Bool × PipeInode)
  | .readOpen => do
      let pipe ← s.iPipe
      some (false, s.addFile .read pipe.pipeReadOpen)
  | .writeOpen => do
      let pipe ← s.iPipe
      some (false, s.addFile .write pipe.pipeWriteOpen)
  | .rdwrOpen fmodeRead fmodeWrite => do
      let pipe ← s.iPipe
      some (false, s.addFile (.rdwr fmodeRead fmodeWrite)
        (pipe.pipeRdwrOpen fmodeRead fmodeWrite))
  | .fifoOpen fmodeRead fmodeWrite nonblock allocated =>
      match s.iPipe with
      | some pipe => some (s.fifoExit (pipe.fifoOpen fmodeRead fmodeWrite nonblock))
      | none =>
          if allocated then some (s.fifoExit (alloc.fifoOpen fmodeRead fmodeWrite nonblock))
          else some (false, s)
  | .fifoWake i signal => do
      let pipe ← s.iPipe
      let wait ← pipe.wait[i]?
      if signal ∨ pipe.partner wait.side ≠ wait.cur then
        some (s.fifoExit
          ({ pipe with wait := pipe.wait.eraseIdx i }.fifoWoken wait.side signal))
      else none
  | .get i => do
      let file ← s.files[i]?
      some (false, { s with files := s.files.set i { file with fCount := file.fCount + 1 } })
  | .fput i granted => s.fput i granted

/-- The inode after a call. -/
def next (s : PipeInode) (c : Call) : Option PipeInode := (s.step c).map Prod.snd

/-! ## The counts that are asked for -/

/-- The counts of the inode are right: the real ones are the numbers of open descriptions, the
visible ones are not below them, and without a pipe no description is open. -/
structure CountsRight (s : PipeInode) : Prop where
  real_eq : ∀ pipe, s.iPipe = some pipe →
    ∀ e, (pipe.real e).toNat = s.files.countP (·.fOp.uses e)
  real_le : ∀ pipe, s.iPipe = some pipe → ∀ e, pipe.real e ≤ pipe.visible e
  closed : s.iPipe = none → s.files = []

/-- The call closes the last open description. -/
def ClosesLast (s s' : PipeInode) : Prop := s.files ≠ [] ∧ s'.files = []

/-- One more visible description of the end can be counted. -/
def HasRoom (s : PipeInode) (e : PipeEnd) : Prop :=
  ∀ pipe, s.iPipe = some pipe → pipe.visible e ≠ BitVec.allOnes 32

/-- An open of the FIFO has to wait, or fails while another open is counted. -/
def Stalls (pipe : PipeInodeInfo) (fmodeRead fmodeWrite nonblock : Bool) : Prop :=
  match fmodeRead, fmodeWrite with
  | true, false => pipe.writers = 0 ∧ nonblock = false
  | false, true => pipe.readers = 0 ∧ (nonblock = true → pipe.writers ≠ 0)
  | true, true => False
  | false, false => ¬ (pipe.readers = 0 ∧ pipe.writers = 0)

/-- The calls that keep the counts right.  A visible count that is added to does not wrap; a
description opened for reading and writing has at least one of the modes; an open of the FIFO
finds no memory or does not succeed, and another open is counted when it fails. -/
def Safe (s : PipeInode) : Call → Prop
  | .readOpen => s.HasRoom .reader
  | .writeOpen => s.HasRoom .writer
  | .rdwrOpen fmodeRead fmodeWrite =>
      (fmodeRead || fmodeWrite) = true ∧
        (fmodeRead = true → s.HasRoom .reader) ∧ (fmodeWrite = true → s.HasRoom .writer)
  | .fifoOpen fmodeRead fmodeWrite nonblock allocated =>
      (s.iPipe = none ∧ allocated = false) ∨
        (Stalls (s.iPipe.getD alloc) fmodeRead fmodeWrite nonblock ∧
          -- only an open that waits is counted
          (nonblock = false → ∀ e, (PipeOps.rdwr fmodeRead fmodeWrite).uses e = true →
            s.HasRoom e))
  | .fifoWake i signal =>
      signal = true ∧ ∀ pipe wait, s.iPipe = some pipe → pipe.wait[i]? = some wait →
        ¬ ((pipe.closeEnd wait.side).readers = 0 ∧ (pipe.closeEnd wait.side).writers = 0)
  | .get _ => True
  | .fput i granted =>
      granted = true ∨ (∀ file, s.files[i]? = some file → file.fCount - 1 = 0) ∨
        ∀ e, s.HasRoom e

/-! ## Counters -/

theorem toNat_flag (b : Bool) : (flag b).toNat = b.toNat := by cases b <;> rfl

theorem toNat_add_flag {v : BitVec 32} {b : Bool} (h : b = true → v ≠ BitVec.allOnes 32) :
    (v + flag b).toNat = v.toNat + b.toNat := by
  have hv := v.isLt
  cases b with
  | false => simp [flag]
  | true =>
      have hne : v.toNat ≠ (BitVec.allOnes 32).toNat := fun heq => h rfl (BitVec.eq_of_toNat_eq heq)
      rw [BitVec.toNat_add, toNat_flag, Bool.toNat_true]
      rw [BitVec.toNat_allOnes] at hne
      omega

theorem toNat_sub_flag {v : BitVec 32} {b : Bool} (h : b.toNat ≤ v.toNat) :
    (v - flag b).toNat = v.toNat - b.toNat := by
  rw [BitVec.toNat_sub_of_le (BitVec.le_def.2 (toNat_flag b ▸ h)), toNat_flag]

/-- The pipe after an open of this kind. -/
def opened (pipe : PipeInodeInfo) : PipeOps → PipeInodeInfo
  | .read => pipe.pipeReadOpen
  | .write => pipe.pipeWriteOpen
  | .rdwr fmodeRead fmodeWrite => pipe.pipeRdwrOpen fmodeRead fmodeWrite

variable {pipe : PipeInodeInfo} {e : PipeEnd}

theorem visible_opened (fOp : PipeOps) :
    (opened pipe fOp).visible e = pipe.visible e + flag (fOp.uses e) := by
  match fOp with
  | .read => cases e <;> simp [opened, pipeReadOpen, openEnd, visible, PipeOps.uses, flag]
  | .write => cases e <;> simp [opened, pipeWriteOpen, openEnd, visible, PipeOps.uses, flag]
  | .rdwr fmodeRead fmodeWrite =>
      cases e <;> cases fmodeRead <;> cases fmodeWrite <;>
        simp [opened, pipeRdwrOpen, openEnd, visible, PipeOps.uses, flag]

theorem real_opened (fOp : PipeOps) :
    (opened pipe fOp).real e = pipe.real e + flag (fOp.uses e) := by
  match fOp with
  | .read => cases e <;> simp [opened, pipeReadOpen, openEnd, real, PipeOps.uses, flag]
  | .write => cases e <;> simp [opened, pipeWriteOpen, openEnd, real, PipeOps.uses, flag]
  | .rdwr fmodeRead fmodeWrite =>
      cases e <;> cases fmodeRead <;> cases fmodeWrite <;>
        simp [opened, pipeRdwrOpen, openEnd, real, PipeOps.uses, flag]

theorem wait_opened (fOp : PipeOps) : (opened pipe fOp).wait = pipe.wait := by
  match fOp with
  | .read => rfl
  | .write => rfl
  | .rdwr fmodeRead fmodeWrite => cases fmodeRead <;> cases fmodeWrite <;> rfl

theorem visible_countRelease (granted : Bool) (fOp : PipeOps) :
    (pipe.countRelease granted (fOp.uses .reader) (fOp.uses .writer)).visible e =
      pipe.visible e - flag (granted && fOp.uses e) := by
  cases granted <;> cases e <;> simp [countRelease, visible, flag]

theorem real_countRelease (granted : Bool) (fOp : PipeOps) :
    (pipe.countRelease granted (fOp.uses .reader) (fOp.uses .writer)).real e =
      pipe.real e - flag (fOp.uses e) := by
  cases granted <;> cases e <;> rfl

theorem wait_countRelease (granted decr decw : Bool) :
    (pipe.countRelease granted decr decw).wait = pipe.wait := by
  cases granted <;> rfl

theorem visible_closeEnd (side : PipeEnd) :
    (pipe.closeEnd side).visible e = pipe.visible e - flag (side = e) := by
  cases side <;> cases e <;> simp [closeEnd, visible, flag]

theorem visible_dequeued (wait : List FifoWait) :
    PipeInodeInfo.visible { pipe with wait := wait } e = pipe.visible e := by
  cases e <;> rfl

theorem real_dequeued (wait : List FifoWait) :
    PipeInodeInfo.real { pipe with wait := wait } e = pipe.real e := by
  cases e <;> rfl

theorem real_closeEnd (side : PipeEnd) : (pipe.closeEnd side).real e = pipe.real e := by
  cases side <;> cases e <;> rfl

theorem wait_closeEnd (side : PipeEnd) : (pipe.closeEnd side).wait = pipe.wait := by
  cases side <;> rfl

/-! ## One pipe and its descriptions -/

/-- The counts of a pipe are right, and an open that waits is counted among the visible ones. -/
structure Counted (pipe : PipeInodeInfo) (files : List PipeFile) : Prop where
  real : ∀ e, (pipe.real e).toNat = files.countP (·.fOp.uses e)
  visible : ∀ e,
    (pipe.real e).toNat + pipe.wait.countP (·.side = e) ≤ (pipe.visible e).toNat

/-- A place of a list splits it. -/
private theorem exists_split {α : Type} {l : List α} {i : Nat} {a : α} (h : l[i]? = some a) :
    ∃ before after, l = before ++ a :: after ∧ l.eraseIdx i = before ++ after ∧
      ∀ b, l.set i b = before ++ b :: after := by
  obtain ⟨hi, rfl⟩ := List.getElem?_eq_some_iff.1 h
  refine ⟨l.take i, l.drop (i + 1), ?_, List.eraseIdx_eq_take_drop_succ l i, fun b => ?_⟩
  · rw [← List.drop_eq_getElem_cons hi, List.take_append_drop]
  · rw [List.set_eq_take_append_cons_drop, if_pos hi]

theorem Counted.opened {files : List PipeFile} (h : Counted pipe files) {fOp : PipeOps}
    {fCount : Nat} (hroom : ∀ e, fOp.uses e = true → pipe.visible e ≠ BitVec.allOnes 32) :
    Counted (PipeInode.opened pipe fOp) (files ++ [⟨fOp, fCount⟩]) := by
  have hreal : ∀ e, fOp.uses e = true → pipe.real e ≠ BitVec.allOnes 32 := by
    intro e huses heq
    have hle := h.visible e
    have hlt := (pipe.visible e).isLt
    refine hroom e huses (BitVec.eq_of_toNat_eq ?_)
    rw [heq, BitVec.toNat_allOnes] at hle
    rw [BitVec.toNat_allOnes]
    omega
  constructor
  · intro e
    rw [real_opened, toNat_add_flag (hreal e), h.real e, List.countP_append, List.countP_singleton]
    cases fOp.uses e <;> rfl
  · intro e
    have hle := h.visible e
    rw [real_opened, visible_opened, toNat_add_flag (hreal e), toNat_add_flag (hroom e),
      wait_opened]
    omega

/-- A release takes down what the description was counted for. -/
theorem Counted.released {before after : List PipeFile} {file : PipeFile}
    (h : Counted pipe (before ++ file :: after)) (granted : Bool) :
    Counted (pipe.countRelease granted (file.fOp.uses .reader) (file.fOp.uses .writer))
      (before ++ after) := by
  have hcount : ∀ e, (pipe.real e).toNat =
      (before ++ after).countP (·.fOp.uses e) + (file.fOp.uses e).toNat := by
    intro e
    rw [h.real e, List.countP_append, List.countP_append, List.countP_cons]
    cases file.fOp.uses e <;> simp <;> omega
  constructor
  · intro e
    have hc := hcount e
    rw [real_countRelease, toNat_sub_flag (by omega)]
    omega
  · intro e
    have hc := hcount e
    have hle := h.visible e
    have hflag : (granted && file.fOp.uses e).toNat ≤ (file.fOp.uses e).toNat := by
      cases granted <;> cases file.fOp.uses e <;> decide
    rw [real_countRelease, toNat_sub_flag (by omega), visible_countRelease,
      toNat_sub_flag (by omega), wait_countRelease]
    omega

/-- The pipe is freed when no description is left. -/
theorem Counted.real_zero_iff {files : List PipeFile} (h : Counted pipe files)
    (hused : ∀ file ∈ files, ∃ e, file.fOp.uses e = true) :
    (pipe.realReaders = 0 ∧ pipe.realWriters = 0) ↔ files = [] := by
  have hzero : ∀ e, pipe.real e = 0 ↔ ∀ file ∈ files, ¬ file.fOp.uses e = true := by
    intro e
    rw [← List.countP_eq_zero, ← h.real e]
    exact ⟨fun heq => by rw [heq]; rfl, fun heq => BitVec.eq_of_toNat_eq heq⟩
  constructor
  · rintro ⟨hreaders, hwriters⟩
    rw [List.eq_nil_iff_forall_not_mem]
    intro file hfile
    obtain ⟨e, he⟩ := hused file hfile
    match e with
    | .reader => exact (hzero .reader).1 hreaders file hfile he
    | .writer => exact (hzero .writer).1 hwriters file hfile he
  · rintro rfl
    exact ⟨(hzero .reader).2 nofun, (hzero .writer).2 nofun⟩

/-- The number of references to a description is not counted in the pipe. -/
theorem Counted.referenced {before after : List PipeFile} {file : PipeFile}
    (h : Counted pipe (before ++ file :: after)) (n : Nat) :
    Counted pipe (before ++ { file with fCount := n } :: after) := by
  refine ⟨fun e => ?_, h.visible⟩
  rw [h.real e, List.countP_append, List.countP_append, List.countP_cons, List.countP_cons]

/-- Only the visible counts and the wait queue move, and the former at least as much. -/
theorem Counted.visible_moved {pipe' : PipeInodeInfo} {files : List PipeFile}
    (h : Counted pipe files) (hreal : ∀ e, pipe'.real e = pipe.real e)
    (hmoved : ∀ e, (pipe.visible e).toNat + pipe'.wait.countP (·.side = e) ≤
      (pipe'.visible e).toNat + pipe.wait.countP (·.side = e)) : Counted pipe' files := by
  refine ⟨fun e => by rw [hreal e, h.real e], fun e => ?_⟩
  have hle := h.visible e
  have := hmoved e
  rw [hreal e]
  omega

theorem Counted.countFput {files : List PipeFile} (h : Counted pipe files) (granted : Bool)
    (hroom : ∀ e, pipe.visible e ≠ BitVec.allOnes 32) :
    Counted (pipe.countFput granted) files := by
  cases granted with
  | true => exact h
  | false =>
      refine h.visible_moved (fun e => by cases e <;> rfl) fun e => ?_
      have hvisible : (pipe.countFput false).visible e = pipe.visible e + flag true := by
        cases e <;> rfl
      rw [hvisible, toNat_add_flag fun _ => hroom e]
      exact Nat.add_le_add_right (Nat.le_add_right _ _) _

/-- An open that waits is counted and enters the wait queue. -/
theorem Counted.waits {files : List PipeFile} (h : Counted pipe files) {side : PipeEnd}
    (hroom : pipe.visible side ≠ BitVec.allOnes 32) :
    Counted ((pipe.countFifo side).waitForPartner side) files := by
  have hvisible : ∀ e, ((pipe.countFifo side).waitForPartner side).visible e =
      pipe.visible e + flag (side = e) := by
    intro e
    cases side <;> cases e <;> simp [waitForPartner, countFifo, PipeInodeInfo.visible, flag]
  have hwait : ((pipe.countFifo side).waitForPartner side).wait =
      pipe.wait ++ [⟨side, (pipe.countFifo side).partner side⟩] := by
    cases side <;> rfl
  refine h.visible_moved (fun e => by cases side <;> cases e <;> rfl) fun e => ?_
  rw [hwait, hvisible e, toNat_add_flag fun he => of_decide_eq_true he ▸ hroom,
    List.countP_append, List.countP_singleton]
  cases decide (side = e) <;> simp <;> omega

/-- An open that gives up waiting is no longer counted. -/
theorem Counted.interrupted {files : List PipeFile} (h : Counted pipe files) {i : Nat}
    {wait : FifoWait} (hi : pipe.wait[i]? = some wait) :
    Counted ({ pipe with wait := pipe.wait.eraseIdx i }.closeEnd wait.side) files := by
  obtain ⟨before, after, hsplit, herase, -⟩ := exists_split hi
  refine h.visible_moved (fun e => (real_closeEnd _).trans (real_dequeued _)) fun e => ?_
  have hle := h.visible e
  rw [hsplit, List.countP_append, List.countP_cons] at hle
  rw [visible_closeEnd, visible_dequeued (pipe.wait.eraseIdx i), wait_closeEnd, herase, hsplit,
    List.countP_append, List.countP_append, List.countP_cons]
  cases hside : decide (wait.side = e) with
  | false => simp [flag]
  | true =>
      rw [hside, if_pos rfl] at hle
      rw [toNat_sub_flag (by rw [Bool.toNat_true]; omega), Bool.toNat_true, if_pos rfl]
      omega

/-! ## The inode -/

/-- What holds along a run of safe calls: the counts of the pipe are right, it is there as long as
a description is open, and each description is open for reading or writing. -/
structure Inv (s : PipeInode) : Prop where
  counted : ∀ pipe, s.iPipe = some pipe → Counted pipe s.files
  alive : s.iPipe = none → s.files = []
  used : ∀ file ∈ s.files, ∃ e, file.fOp.uses e = true

theorem Inv.countsRight {s : PipeInode} (h : Inv s) : CountsRight s where
  real_eq := fun pipe hpipe => (h.counted pipe hpipe).real
  real_le := fun pipe hpipe e =>
    BitVec.le_def.2 (Nat.le_of_add_right_le ((h.counted pipe hpipe).visible e))
  closed := h.alive

theorem inv_getPipeInode : Inv getPipeInode where
  counted := by
    intro pipe hpipe
    cases hpipe
    constructor <;> intro e <;> cases e <;> decide
  alive := nofun
  used := by
    intro file hfile
    rcases List.mem_cons.1 hfile with rfl | hfile
    · exact ⟨.reader, rfl⟩
    · rw [List.mem_singleton.1 hfile]
      exact ⟨.writer, rfl⟩

theorem inv_fifo : Inv fifo := ⟨nofun, fun _ => rfl, nofun⟩

/-- What is asked of a safe call. -/
structure Kept (s : PipeInode) (freed : Bool) (s' : PipeInode) : Prop where
  inv : Inv s'
  freed_iff : freed = true ↔ ClosesLast s s'

/-- A call that frees nothing and closes nothing. -/
theorem Kept.of_not_freed {s s' : PipeInode} (hinv : Inv s')
    (hfiles : s.files ≠ [] → s'.files ≠ []) : Kept s false s' :=
  ⟨hinv, iff_of_false Bool.false_ne_true fun hlast => hfiles hlast.1 hlast.2⟩

section Calls

variable {s s' : PipeInode} {freed : Bool}

/-- Opens of a pipe. -/
theorem Inv.addFile (h : Inv s) (hpipe : s.iPipe = some pipe) (fOp : PipeOps)
    (hused : ∃ e, fOp.uses e = true) (hroom : ∀ e, fOp.uses e = true → s.HasRoom e) :
    Kept s false (s.addFile fOp (opened pipe fOp)) := by
  refine .of_not_freed ⟨?_, nofun, ?_⟩ fun _ hnil => List.append_ne_nil_of_right_ne_nil _
    (List.cons_ne_nil _ _) hnil
  · intro pipe' hpipe'
    cases hpipe'
    exact (h.counted pipe hpipe).opened fun e he => hroom e he pipe hpipe
  · intro file hfile
    rcases List.mem_append.1 hfile with hold | hnew
    · exact h.used file hold
    · rw [List.mem_singleton.1 hnew]
      exact hused

/-- An open of a FIFO that stalls. -/
theorem Counted.stalled {fmodeRead fmodeWrite nonblock : Bool} (h : Counted pipe s.files)
    (hroom : nonblock = false → ∀ e, (PipeOps.rdwr fmodeRead fmodeWrite).uses e = true →
      pipe.visible e ≠ BitVec.allOnes 32)
    (hstalls : Stalls pipe fmodeRead fmodeWrite nonblock) :
    ∃ pipe', s.fifoExit (pipe.fifoOpen fmodeRead fmodeWrite nonblock) =
      (false, { s with iPipe := some pipe' }) ∧ Counted pipe' s.files := by
  match fmodeRead, fmodeWrite, hstalls with
  | true, false, ⟨hwriters, hblock⟩ =>
      refine ⟨_, ?_, h.waits (hroom hblock .reader rfl)⟩
      have hpartner : (pipe.countFifo .reader).writers = 0 := hwriters
      simp only [PipeInodeInfo.fifoOpen, hpartner, hblock, ↓reduceIte, Bool.false_eq_true, fifoExit]
  | false, true, ⟨hreaders, hfail⟩ =>
      have hpartner : (pipe.countFifo .writer).readers = 0 := hreaders
      cases nonblock with
      | false =>
          refine ⟨_, ?_, h.waits (hroom rfl .writer rfl)⟩
          simp only [PipeInodeInfo.fifoOpen, hpartner, Bool.false_eq_true, false_and, ↓reduceIte,
            fifoExit]
      | true =>
          refine ⟨pipe, ?_, h⟩
          simp only [PipeInodeInfo.fifoOpen, hreaders, hfail rfl, and_self, and_false, ↓reduceIte,
            fifoExit]
  | false, false, hcounted => exact ⟨pipe, if_neg hcounted, h⟩

/-- The pipe changes, the descriptions do not. -/
theorem Inv.keptPipe (h : Inv s) (hc : Counted pipe s.files) :
    Kept s false { s with iPipe := some pipe } := by
  refine .of_not_freed ⟨?_, nofun, h.used⟩ id
  intro pipe' hpipe'
  cases hpipe'
  exact hc

theorem kept_fifoOpen {fmodeRead fmodeWrite nonblock allocated : Bool} (h : Inv s)
    (hsafe : s.Safe (.fifoOpen fmodeRead fmodeWrite nonblock allocated))
    (hstep : s.step (.fifoOpen fmodeRead fmodeWrite nonblock allocated) = some (freed, s')) :
    Kept s freed s' := by
  rcases hsafe with ⟨hnone, hfails⟩ | ⟨hstalls, hroom⟩
  · simp only [step, hnone, hfails, Bool.false_eq_true, ↓reduceIte] at hstep
    cases hstep
    exact .of_not_freed h id
  · cases hpipe : s.iPipe with
    | some pipe =>
        rw [hpipe] at hstalls
        obtain ⟨pipe', hexit, hc⟩ := (h.counted pipe hpipe).stalled
          (fun hblock e he => hroom hblock e he pipe hpipe) hstalls
        simp only [step, hpipe, hexit] at hstep
        cases hstep
        exact h.keptPipe hc
    | none =>
        -- a new pipe has all its counters at zero
        rw [hpipe] at hstalls
        have halloc : Counted alloc s.files := by
          rw [h.alive hpipe]
          constructor <;> intro e <;> cases e <;> decide
        obtain ⟨pipe', hexit, hc⟩ := halloc.stalled (fun _ e _ => by cases e <;> decide) hstalls
        simp only [step, hpipe, hexit] at hstep
        split at hstep
        · cases hstep
          exact h.keptPipe hc
        · cases hstep
          exact .of_not_freed h id

theorem kept_fifoWake {i : Nat} {signal : Bool} (h : Inv s)
    (hsafe : s.Safe (.fifoWake i signal))
    (hstep : s.step (.fifoWake i signal) = some (freed, s')) : Kept s freed s' := by
  obtain ⟨rfl, hcounted⟩ := hsafe
  obtain ⟨pipe, hpipe, hstep⟩ := Option.bind_eq_some_iff.1 hstep
  obtain ⟨wait, hwait, hstep⟩ := Option.bind_eq_some_iff.1 hstep
  have hleft : ¬ (({ pipe with wait := pipe.wait.eraseIdx i }.closeEnd wait.side).readers = 0 ∧
      ({ pipe with wait := pipe.wait.eraseIdx i }.closeEnd wait.side).writers = 0) := by
    have hne := hcounted pipe wait hpipe hwait
    cases hside : wait.side <;> rw [hside] at hne <;> exact hne
  simp only [true_or, ↓reduceIte, fifoWoken, fifoExit, if_neg hleft] at hstep
  cases hstep
  exact h.keptPipe ((h.counted pipe hpipe).interrupted hwait)

/-- The number of references to a description changes. -/
theorem Inv.referenced {i : Nat} {file : PipeFile} (h : Inv s) (hfile : s.files[i]? = some file)
    (n : Nat) : Kept s false { s with files := s.files.set i { file with fCount := n } } := by
  obtain ⟨before, after, hsplit, -, hset⟩ := exists_split hfile
  refine .of_not_freed ⟨?_, ?_, ?_⟩ fun _ hnil => ?_
  · intro pipe hpipe
    have hc := h.counted pipe hpipe
    rw [hsplit] at hc
    rw [hset]
    exact hc.referenced n
  · intro hnone
    rw [h.alive hnone, List.set_nil]
  · intro file' hfile'
    have hused : ∀ f ∈ before ++ file :: after, ∃ e, f.fOp.uses e = true := hsplit ▸ h.used
    rw [hset, List.mem_append, List.mem_cons] at hfile'
    rcases hfile' with hbefore | rfl | hafter
    · exact hused file' (List.mem_append_left _ hbefore)
    · exact hused file (List.mem_append_right _ (List.mem_cons_self ..))
    · exact hused file' (List.mem_append_right _ (List.mem_cons_of_mem _ hafter))
  · rw [hset] at hnil
    exact List.append_ne_nil_of_right_ne_nil _ (List.cons_ne_nil _ _) hnil

theorem kept_get {i : Nat} (h : Inv s) (hstep : s.step (.get i) = some (freed, s')) :
    Kept s freed s' := by
  obtain ⟨file, hfile, hstep⟩ := Option.bind_eq_some_iff.1 hstep
  cases hstep
  exact h.referenced hfile _

/-- The last reference to a description is dropped: the pipe is freed iff it was the last
description. -/
theorem Inv.released {i : Nat} {file : PipeFile} {granted : Bool} (h : Inv s)
    (hfile : s.files[i]? = some file) (hpipe : s.iPipe = some pipe) {left : Option PipeInodeInfo}
    (hleft : left = pipe.pipeRelease granted (file.fOp.uses .reader) (file.fOp.uses .writer)) :
    Kept s left.isNone ⟨left, s.files.eraseIdx i⟩ := by
  obtain ⟨before, after, hsplit, herase, -⟩ := exists_split hfile
  have hopen : s.files ≠ [] := by
    rw [hsplit]
    exact List.append_ne_nil_of_right_ne_nil _ (List.cons_ne_nil _ _)
  have hused : ∀ f ∈ before ++ after, ∃ e, f.fOp.uses e = true := by
    intro f hf
    refine h.used f (hsplit ▸ ?_)
    rcases List.mem_append.1 hf with hbefore | hafter
    · exact List.mem_append_left _ hbefore
    · exact List.mem_append_right _ (List.mem_cons_of_mem _ hafter)
  have hc : Counted _ (before ++ after) :=
    (hsplit ▸ h.counted pipe hpipe : Counted pipe (before ++ file :: after)).released granted
  rw [herase]
  by_cases hlast : before ++ after = []
  · rw [pipeRelease, if_pos ((hc.real_zero_iff hused).2 hlast)] at hleft
    subst hleft
    exact ⟨⟨nofun, fun _ => hlast, hused⟩, iff_of_true rfl ⟨hopen, hlast⟩⟩
  · rw [pipeRelease, if_neg fun hzero => hlast ((hc.real_zero_iff hused).1 hzero)] at hleft
    subst hleft
    refine .of_not_freed ⟨fun pipe' hpipe' => ?_, nofun, hused⟩ fun _ => hlast
    cases hpipe'
    exact hc

theorem kept_fput {i : Nat} {granted : Bool} (h : Inv s) (hsafe : s.Safe (.fput i granted))
    (hstep : s.step (.fput i granted) = some (freed, s')) : Kept s freed s' := by
  obtain ⟨file, hfile, hstep⟩ := Option.bind_eq_some_iff.1 hstep
  split at hstep
  · obtain ⟨pipe, hpipe, hstep⟩ := Option.bind_eq_some_iff.1 hstep
    cases hstep
    exact h.released hfile hpipe rfl
  · rename_i hmore
    cases granted with
    | true =>
        cases hstep
        exact h.referenced hfile _
    | false =>
        obtain ⟨pipe, hpipe, hstep⟩ := Option.bind_eq_some_iff.1 hstep
        cases hstep
        have hroom : ∀ e, s.HasRoom e := by
          rcases hsafe with hgranted | hfinal | hroom
          · cases hgranted
          · exact absurd (hfinal file hfile) hmore
          · exact hroom
        have hc := (h.counted pipe hpipe).countFput false fun e => hroom e pipe hpipe
        have hpiped : Inv { s with iPipe := some (pipe.countFput false) } := (h.keptPipe hc).inv
        have hkept := hpiped.referenced hfile (file.fCount - 1)
        exact ⟨hkept.inv, hkept.freed_iff⟩

/-- **A safe call** keeps the counts right, and frees the pipe iff it closes the last
description. -/
theorem kept_step {c : Call} (h : Inv s) (hsafe : s.Safe c)
    (hstep : s.step c = some (freed, s')) : Kept s freed s' := by
  cases c with
  | readOpen =>
      obtain ⟨pipe, hpipe, hstep⟩ := Option.bind_eq_some_iff.1 hstep
      cases hstep
      exact h.addFile hpipe .read ⟨.reader, rfl⟩ fun e he => by
        cases e with
        | reader => exact hsafe
        | writer => cases he
  | writeOpen =>
      obtain ⟨pipe, hpipe, hstep⟩ := Option.bind_eq_some_iff.1 hstep
      cases hstep
      exact h.addFile hpipe .write ⟨.writer, rfl⟩ fun e he => by
        cases e with
        | reader => cases he
        | writer => exact hsafe
  | rdwrOpen fmodeRead fmodeWrite =>
      obtain ⟨hmode, hreader, hwriter⟩ := hsafe
      obtain ⟨pipe, hpipe, hstep⟩ := Option.bind_eq_some_iff.1 hstep
      cases hstep
      refine h.addFile hpipe (.rdwr fmodeRead fmodeWrite) ?_ fun e he => ?_
      · rcases Bool.or_eq_true_iff.1 hmode with hread | hwrite
        · exact ⟨.reader, hread⟩
        · exact ⟨.writer, hwrite⟩
      · cases e with
        | reader => exact hreader he
        | writer => exact hwriter he
  | fifoOpen fmodeRead fmodeWrite nonblock allocated => exact kept_fifoOpen h hsafe hstep
  | fifoWake i signal => exact kept_fifoWake h hsafe hstep
  | get i => exact kept_get h hstep
  | fput i granted => exact kept_fput h hsafe hstep

end Calls

/-- Along every run of safe calls the invariant holds. -/
theorem inv_of_run {start : PipeInode} (hstart : start = getPipeInode ∨ start = fifo)
    {history : List Call} {s : PipeInode} (hrun : Run next Safe start history s) : Inv s := by
  refine hrun.invariant ?_ fun s c s' hinv hsafe hnext => ?_
  · rcases hstart with rfl | rfl
    · exact inv_getPipeInode
    · exact inv_fifo
  · obtain ⟨⟨freed, t⟩, hstep, rfl⟩ := Option.map_eq_some_iff.1 hnext
    exact (kept_step hinv hsafe hstep).inv

/-- **The reference counts of a pipe.**  Along every run of safe calls, from a new pipe or from a
FIFO that is not open, the real counts are the numbers of open descriptions, the visible ones are
not below them, and the next safe call runs `free_pipe_info` iff it closes the last
description. -/
theorem counts_right_of_safe {start : PipeInode} (hstart : start = getPipeInode ∨ start = fifo)
    {history : List Call} {s : PipeInode} (hrun : Run next Safe start history s) :
    CountsRight s ∧ ∀ c freed s', s.Safe c → s.step c = some (freed, s') →
      (freed = true ↔ ClosesLast s s') := by
  have hinv := inv_of_run hstart hrun
  exact ⟨hinv.countsRight, fun c freed s' hsafe hstep => (kept_step hinv hsafe hstep).freed_iff⟩

/-- A task that may not write drops a reference to the write end and closes the read end: the
visible counts stay up. -/
theorem counts_right_of_denied :
    let s : PipeInode :=
      ⟨some { alloc with readers := 2, writers := 2, realWriters := 1 }, [⟨.write, 1⟩]⟩
    Run next Safe getPipeInode ([] ++ [.get 1] ++ [.fput 1 false] ++ [.fput 0 false]) s ∧
      CountsRight s := by
  have hrun : Run next Safe getPipeInode ([] ++ [.get 1] ++ [.fput 1 false] ++ [.fput 0 false])
      ⟨some { alloc with readers := 2, writers := 2, realWriters := 1 }, [⟨.write, 1⟩]⟩ := by
    refine .snoc (.snoc (.snoc .nil trivial rfl) (.inr (.inr fun e pipe hpipe => ?_)) rfl)
      (.inr (.inl fun file hfile => ?_)) rfl
    · cases hpipe
      cases e <;> decide
    · cases hfile
      rfl
  exact ⟨hrun, (counts_right_of_safe (.inl rfl) hrun).1⟩

/-- A FIFO is opened for reading and closed again.  The open is not counted in `real_readers`,
the close takes it down from zero, and the pipe of the closed FIFO is never freed. -/
theorem fifo_open_underflows :
    ∃ s s' pipe, fifo.step (.fifoOpen true false true true) = some (false, s) ∧
      ¬ CountsRight s ∧ s.step (.fput 0 true) = some (false, s') ∧ ClosesLast s s' ∧
      s'.iPipe = some pipe ∧ pipe.realReaders = BitVec.allOnes 32 := by
  refine ⟨_, _, _, rfl, fun h => ?_, rfl, ⟨List.cons_ne_nil _ _, rfl⟩, rfl, rfl⟩
  exact absurd (h.real_eq _ rfl .reader) (by decide)

end PipeInode

end Laminar.Vfs
