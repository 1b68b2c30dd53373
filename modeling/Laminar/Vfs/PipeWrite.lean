import Laminar.Lib.Loop
import Laminar.Vfs.Files
import Laminar.Vfs.PipeCounts

/-!
# Writing to a pipe

`pipe_write` first tries to append to the last buffered page, then fills new pages until the data
is written or the pipe is full.  A full pipe must not show to a labeled writer, so there the hook
`pipe_full` is asked whether the write should pretend to be complete.

The hook compares the lists of the two labels with zero.  They are arrays inside the security
structures, so it is their addresses that are compared, and the answer is yes for every label.

The loop is the one of `Lib.Loop`, a state with rounds; between the first check and the return
the mutex of the inode is held, and the model stops where `pipe_wait` would release it.  Of an
`iovec` only the lengths count, and of a page that it is there.  The outside of the call (pins,
faults of copies from user memory, allocations, signals) is a parameter.
-/

namespace Laminar.Vfs

open Laminar.Lib Laminar.Kernel

/-! ## State -/

/-- `PAGE_SIZE`. -/
def pageSize : Nat := 4096

/-- `PIPE_BUFFERS`. -/
def pipeBuffers : Nat := 16

/-- `EPIPE`. -/
def ePipe : Int := 32

/-- `ERESTARTSYS`. -/
def eRestartsys : Int := 512

/-- `struct pipe_buffer`, with the mark `can_merge` of its operations. -/
structure PipeBuffer where
  offset : Nat
  len : Nat
  canMerge : Bool

/-- `struct pipe_inode_info` with its buffers; `tmpPage` says that there is a spare page. -/
structure BufferedPipe extends PipeInodeInfo where
  nrbufs : Nat
  curbuf : Nat
  tmpPage : Bool
  bufs : Fin pipeBuffers → PipeBuffer

/-- The buffer `i` places after `curbuf`; the mask `PIPE_BUFFERS - 1` is a remainder. -/
def BufferedPipe.place (pipe : BufferedPipe) (i : Nat) : Fin pipeBuffers :=
  ⟨(pipe.curbuf + i) % pipeBuffers, Nat.mod_lt _ (by decide)⟩

def BufferedPipe.setBuf (pipe : BufferedPipe) (i : Fin pipeBuffers) (buf : PipeBuffer) :
    BufferedPipe :=
  { pipe with bufs := fun j => if j = i then buf else pipe.bufs j }

/-- What happens outside the call: the value of `pin`, which copies from user memory fault
(counted from the start of the call), whether a page can be allocated for the buffer that becomes
number `k`, and whether a signal is pending. -/
structure WriteEnv where
  pin : Int
  fault : Nat → Bool
  allocPage : Nat → Bool
  signalPending : Bool

/-- How `pipe_write` ends, as far as the model goes. -/
inductive WriteEnd
  | returned (ret : Int) (pipe : BufferedPipe)
  | waits (pipe : BufferedPipe)

/-- What must not happen: a read past the last segment, or one more round than there can be. -/
inductive WriteFault
  | pastIovec
  | tooManyRounds

/-- The variables of `pipe_write`; `copies` is the number of copies from user memory so far. -/
structure Writing where
  pipe : BufferedPipe
  iov : List Nat
  copies : Nat
  totalLen : Nat
  ret : Int

/-- A `size_t` as `ssize_t`. -/
def toSsize (n : Nat) : Int := (BitVec.ofNat 64 n).toInt

/-- `SSIZE_MAX`. -/
def ssizeMax : Nat := 9223372036854775807

/-! ## The hook -/

/-- The place of `secList` in a security structure. -/
def secListOffset : BitVec 64 := 0

/-- The place of `intList` in a security structure, `LABEL_LIST_BYTES` further. -/
def intListOffset : BitVec 64 := 256

/-- `difc_pipe_full`, on the addresses of the security structures of the inode and the task. -/
def difcPipeFull (isec tsec : BitVec 64) : Int :=
  if isec + secListOffset = 0 ∧ isec + intListOffset = 0 ∧
      tsec + secListOffset = 0 ∧ tsec + intListOffset = 0 then 0
  else 1

/-! ## Copies -/

/-- `iov_length`, as a number; the call has it as a 64-bit word. -/
def iovLength : List Nat → Nat
  | [] => 0
  | seg :: segs => seg + iovLength segs

/-- `pipe_iov_copy_from_user`: whether it fails, the segments it leaves and the number of copies.
Segments that are used up are dropped. -/
def pipeIovCopyFromUser (fault : Nat → Bool) :
    List Nat → Nat → Nat → Except WriteFault (Bool × List Nat × Nat)
  | [], copies, len => if len = 0 then .ok (false, [], copies) else .error .pastIovec
  | seg :: segs, copies, len =>
      if len = 0 then .ok (false, seg :: segs, copies)
      else if seg = 0 then pipeIovCopyFromUser fault segs copies len
      else if fault copies then .ok (true, seg :: segs, copies + 1)
      else if len ≤ seg then .ok (false, (seg - len) :: segs, copies + 1)
      else pipeIovCopyFromUser fault segs (copies + 1) (len - seg)

/-- A copy that fails is tried once more, from where the first attempt stopped in the `iovec`. -/
def copyTwice (fault : Nat → Bool) (iov : List Nat) (copies len : Nat) :
    Except WriteFault (Bool × List Nat × Nat) := do
  let (failed, iov, copies) ← pipeIovCopyFromUser fault iov copies len
  if failed then pipeIovCopyFromUser fault iov copies len else return (false, iov, copies)

/-! ## The call -/

/-- `ret ? : error`. -/
def retOr (ret error : Int) : Int := if ret = 0 then error else ret

/-- The variables after `chars` bytes were appended to the last buffer. -/
def Writing.merged (w : Writing) (chars : Nat) (iov : List Nat) (copies : Nat) : Writing :=
  let lastbuf := w.pipe.place (w.pipe.nrbufs - 1)
  let buf := w.pipe.bufs lastbuf
  { pipe := w.pipe.setBuf lastbuf { buf with len := buf.len + chars }
    iov := iov
    copies := copies
    totalLen := w.totalLen - chars
    ret := chars }

/-- The variables after `chars` bytes were put into a new buffer. -/
def Writing.filled (w : Writing) (chars : Nat) (iov : List Nat) (copies : Nat) : Writing where
  pipe := { w.pipe.setBuf (w.pipe.place w.pipe.nrbufs) ⟨0, chars, true⟩ with
    nrbufs := w.pipe.nrbufs + 1, tmpPage := false }
  iov := iov
  copies := copies
  totalLen := w.totalLen - chars
  ret := w.ret + chars

section Write

variable (isec tsec : BitVec 64) (env : WriteEnv) (nonblock : Bool) (totalLenSaved : Nat)

/-- The first part: append to the last buffer. -/
def tryMerge (w : Writing) : Except WriteFault (Round WriteEnd Writing) :=
  let chars := w.totalLen % pageSize
  let buf := w.pipe.bufs (w.pipe.place (w.pipe.nrbufs - 1))
  if w.pipe.nrbufs ≠ 0 ∧ chars ≠ 0 then
    if buf.canMerge ∧ buf.offset + buf.len + chars ≤ pageSize then
      if env.pin ≠ 0 then .ok (.leave (.returned w.ret w.pipe))
      else do
        let (failed, iov, copies) ← copyTwice env.fault w.iov w.copies chars
        if failed then return .leave (.returned (-eFault) w.pipe)
        else if w.totalLen - chars = 0 then
          return .leave (.returned (w.merged chars iov copies).ret (w.merged chars iov copies).pipe)
        else return .next (w.merged chars iov copies)
    else .ok (.next w)
  else .ok (.next w)

/-- The end of a round that finds the pipe full. -/
def pipeFull (w : Writing) : WriteEnd :=
  if difcPipeFull isec tsec ≠ 0 then .returned (toSsize totalLenSaved) w.pipe
  else if nonblock then .returned (retOr w.ret (-eAgain)) w.pipe
  else if env.signalPending then .returned (retOr w.ret (-eRestartsys)) w.pipe
  else .waits w.pipe

/-- A round of the loop. -/
def writeRound (w : Writing) : Except WriteFault (Round WriteEnd Writing) :=
  let chars := min pageSize w.totalLen
  if w.pipe.readers = 0 then .ok (.leave (.returned (retOr w.ret (-ePipe)) w.pipe))
  else if w.pipe.nrbufs < pipeBuffers then
    if w.pipe.tmpPage = false ∧ env.allocPage w.pipe.nrbufs = false then
      .ok (.leave (.returned (retOr w.ret (-eNomem)) w.pipe))
    else do
      let (failed, iov, copies) ← copyTwice env.fault w.iov w.copies chars
      if failed then
        return .leave (.returned (retOr w.ret (-eFault)) { w.pipe with tmpPage := true })
      else if w.totalLen - chars = 0 then
        return .leave (.returned (w.filled chars iov copies).ret (w.filled chars iov copies).pipe)
      else if w.pipe.nrbufs + 1 < pipeBuffers then return .next (w.filled chars iov copies)
      else
        return .leave (pipeFull isec tsec env nonblock totalLenSaved (w.filled chars iov copies))
  else .ok (.leave (pipeFull isec tsec env nonblock totalLenSaved w))

end Write

/-- `pipe_write`.  Every round but the last fills a buffer. -/
def pipeWrite (isec tsec : BitVec 64) (env : WriteEnv) (nonblock : Bool) (iov : List Nat)
    (pipe : BufferedPipe) : Except WriteFault WriteEnd :=
  let totalLen := (BitVec.ofNat 64 (iovLength iov)).toNat
  if totalLen = 0 then .ok (.returned 0 pipe)
  else if pipe.readers = 0 then .ok (.returned (-ePipe) pipe)
  else do
    match ← tryMerge env ⟨pipe, iov, 0, totalLen, 0⟩ with
    | .leave ending => return ending
    | .next w =>
        loop (writeRound isec tsec env nonblock totalLen) .tooManyRounds (pipeBuffers + 1) w

/-! ## The answer of the hook -/

/-- The two lists of one structure do not both lie at address zero. -/
theorem difcPipeFull_eq_one (isec tsec : BitVec 64) : difcPipeFull isec tsec = 1 := by
  refine if_neg ?_
  rintro ⟨hsec, hint, -⟩
  have hsame : isec + secListOffset = isec := BitVec.add_zero isec
  rw [hsame] at hsec
  rw [hsec] at hint
  exact absurd hint (by decide)

theorem pipeFull_eq (isec tsec : BitVec 64) (env : WriteEnv) (nonblock : Bool)
    (totalLenSaved : Nat) (w : Writing) :
    pipeFull isec tsec env nonblock totalLenSaved w =
      .returned (toSsize totalLenSaved) w.pipe := by
  rw [pipeFull, difcPipeFull_eq_one, if_pos (by decide)]

/-! ## Lengths -/

theorem toSsize_of_le {n : Nat} (h : n ≤ ssizeMax) : toSsize n = n := by
  have hn : (BitVec.ofNat 64 n).toNat = n := by
    rw [BitVec.toNat_ofNat]
    exact Nat.mod_eq_of_lt (Nat.lt_of_le_of_lt h (by decide))
  rw [toSsize, BitVec.toInt_eq_toNat_of_lt, hn]
  rw [hn]
  exact Nat.lt_of_le_of_lt (Nat.mul_le_mul_left 2 h) (by decide)

/-- The length that the call computes stands for the same `ssize_t`. -/
theorem toSsize_totalLen (n : Nat) : toSsize (BitVec.ofNat 64 n).toNat = toSsize n := by
  rw [toSsize, toSsize, BitVec.ofNat_toNat, BitVec.setWidth_eq]

variable {fault : Nat → Bool}

/-- Without faults a copy of no more than is left succeeds and uses up its length. -/
theorem pipeIovCopyFromUser_ok (hfault : ∀ k, fault k = false) {iov : List Nat} (copies len : Nat)
    (hlen : len ≤ iovLength iov) :
    ∃ iov' copies', pipeIovCopyFromUser fault iov copies len = .ok (false, iov', copies') ∧
      iovLength iov' + len = iovLength iov := by
  induction iov generalizing copies len with
  | nil =>
      have hzero : len = 0 := Nat.le_zero.1 hlen
      exact ⟨[], copies, by rw [pipeIovCopyFromUser, if_pos hzero], by rw [hzero]; rfl⟩
  | cons seg segs ih =>
      rw [iovLength] at hlen
      rw [pipeIovCopyFromUser, iovLength]
      split
      · rename_i hzero
        exact ⟨seg :: segs, copies, rfl, by rw [hzero, iovLength, Nat.add_zero]⟩
      split
      · rename_i hempty
        obtain ⟨iov', copies', hcopy, hsum⟩ := ih copies len (by omega)
        exact ⟨iov', copies', hcopy, by omega⟩
      rw [hfault, if_neg Bool.false_ne_true]
      split
      · exact ⟨(seg - len) :: segs, copies + 1, rfl, by rw [iovLength]; omega⟩
      · obtain ⟨iov', copies', hcopy, hsum⟩ := ih (copies + 1) (len - seg) (by omega)
        exact ⟨iov', copies', hcopy, by omega⟩

theorem copyTwice_ok (hfault : ∀ k, fault k = false) {iov : List Nat} (copies : Nat) {len : Nat}
    (hlen : len ≤ iovLength iov) :
    ∃ iov' copies', copyTwice fault iov copies len = .ok (false, iov', copies') ∧
      iovLength iov' + len = iovLength iov := by
  obtain ⟨iov', copies', hcopy, hsum⟩ := pipeIovCopyFromUser_ok hfault copies len hlen
  exact ⟨iov', copies', by rw [copyTwice, hcopy]; rfl, hsum⟩

/-! ## The loop -/

/-- Nothing goes wrong outside the call. -/
structure WriteEnv.Calm (env : WriteEnv) : Prop where
  pin : env.pin = 0
  fault : ∀ k, env.fault k = false
  allocPage : ∀ k, env.allocPage k = true
  signalPending : env.signalPending = false

/-- What a round starts from: there is a reader, what is written and what is left make up the
length of the call, the `iovec` still holds what is left, and no more than a page for each buffer
and one page merged is written. -/
structure WriteInv (total : Nat) (w : Writing) : Prop where
  readers : w.pipe.readers ≠ 0
  split : w.ret + w.totalLen = total
  iov : w.totalLen ≤ iovLength w.iov
  written : w.ret ≤ pageSize * (w.pipe.nrbufs + 1)

/-- The call returns its length. -/
def ReturnsAll (total : Nat) (ending : WriteEnd) : Prop :=
  ∃ pipe, ending = .returned (toSsize total) pipe

/-- What was written fits the pipe, so it is no large number. -/
theorem returnsAll_of_written {total : Nat} {ret : Int} {pipe : BufferedPipe}
    (hret : ret = total) (hwritten : ret ≤ pageSize * (pipeBuffers + 1)) :
    ReturnsAll total (.returned ret pipe) := by
  refine ⟨pipe, ?_⟩
  have hsmall : total ≤ ssizeMax := by
    rw [hret] at hwritten
    exact Nat.le_trans (Int.ofNat_le.1 hwritten) (by decide)
  rw [toSsize_of_le hsmall, hret]

section Rounds

variable {isec tsec : BitVec 64} {env : WriteEnv} {nonblock : Bool} {total : Nat}

theorem WriteInv.merged {pipe : BufferedPipe} {iov iov' : List Nat} {copies copies' chars : Nat}
    (h : WriteInv total ⟨pipe, iov, copies, total, 0⟩) (hchars : chars ≤ total)
    (hpage : chars ≤ pageSize) (hsum : iovLength iov' + chars = iovLength iov) :
    WriteInv total (Writing.merged ⟨pipe, iov, copies, total, 0⟩ chars iov' copies') where
  readers := h.readers
  split := by
    show (chars : Int) + (total - chars : Nat) = total
    omega
  iov := by
    have hiov : total ≤ iovLength iov := h.iov
    show total - chars ≤ iovLength iov'
    omega
  written := by
    show (chars : Int) ≤ pageSize * (pipe.nrbufs + 1)
    unfold pageSize at *
    omega

theorem WriteInv.filled {w : Writing} {iov' : List Nat} {copies' chars : Nat}
    (h : WriteInv total w) (hchars : chars ≤ w.totalLen) (hpage : chars ≤ pageSize)
    (hsum : iovLength iov' + chars = iovLength w.iov) :
    WriteInv total (w.filled chars iov' copies') where
  readers := h.readers
  split := by
    have hsplit := h.split
    show w.ret + chars + (w.totalLen - chars : Nat) = total
    omega
  iov := by
    have hiov := h.iov
    show w.totalLen - chars ≤ iovLength iov'
    omega
  written := by
    have hwritten := h.written
    show w.ret + chars ≤ pageSize * ((w.pipe.nrbufs + 1 : Nat) + 1)
    unfold pageSize at *
    omega

theorem WriteInv.returned {w : Writing} (h : WriteInv total w) (hlen : w.totalLen = 0)
    (hbufs : w.pipe.nrbufs ≤ pipeBuffers) : ReturnsAll total (.returned w.ret w.pipe) := by
  have hsplit := h.split
  have hwritten := h.written
  refine returnsAll_of_written (by omega) ?_
  unfold pageSize at *
  omega

/-- The first part keeps the invariant or finishes the call. -/
theorem roundOk_tryMerge (henv : env.Calm) {pipe : BufferedPipe} {iov : List Nat} {copies : Nat}
    (h : WriteInv total ⟨pipe, iov, copies, total, 0⟩) :
    RoundOk (WriteInv total) (ReturnsAll total) (fun _ => 0) 1
      (tryMerge env ⟨pipe, iov, copies, total, 0⟩) := by
  have hchars : total % pageSize ≤ total := Nat.mod_le _ _
  have hpage : total % pageSize ≤ pageSize := Nat.le_of_lt (Nat.mod_lt _ (by decide))
  obtain ⟨iov', copies', hcopy, hsum⟩ :=
    copyTwice_ok henv.fault copies (Nat.le_trans hchars h.iov)
  simp only [tryMerge, henv.pin, ne_eq, not_true_eq_false, ↓reduceIte, hcopy]
  split
  · split
    · show RoundOk _ _ _ _ (if total - total % pageSize = 0 then _ else _)
      split
      · rename_i hdone
        refine returnsAll_of_written ?_ ?_
        · show ((total % pageSize : Nat) : Int) = total
          omega
        · show ((total % pageSize : Nat) : Int) ≤ pageSize * (pipeBuffers + 1)
          unfold pageSize pipeBuffers at *
          omega
      · exact ⟨h.merged hchars hpage hsum, Nat.one_pos⟩
    · exact ⟨h, Nat.one_pos⟩
  · exact ⟨h, Nat.one_pos⟩

/-- A round fills one more buffer, or finishes the call: nothing is left, or the pipe is full. -/
theorem roundOk_writeRound (henv : env.Calm) {w : Writing} (h : WriteInv total w) :
    RoundOk (WriteInv total) (ReturnsAll total) (fun w => pipeBuffers - w.pipe.nrbufs)
      (pipeBuffers - w.pipe.nrbufs) (writeRound isec tsec env nonblock total w) := by
  have hchars : min pageSize w.totalLen ≤ w.totalLen := Nat.min_le_right _ _
  obtain ⟨iov', copies', hcopy, hsum⟩ :=
    copyTwice_ok henv.fault w.copies (Nat.le_trans hchars h.iov)
  have hfilled : WriteInv total (w.filled (min pageSize w.totalLen) iov' copies') :=
    h.filled hchars (Nat.min_le_left _ _) hsum
  simp only [writeRound, h.readers, henv.allocPage, Bool.true_eq_false, and_false, ↓reduceIte,
    hcopy]
  split
  · rename_i hroom
    show RoundOk _ _ _ _ (if w.totalLen - min pageSize w.totalLen = 0 then _
      else if w.pipe.nrbufs + 1 < pipeBuffers then _ else _)
    split
    · rename_i hdone
      exact hfilled.returned hdone hroom
    split
    · refine ⟨hfilled, ?_⟩
      show pipeBuffers - (w.pipe.nrbufs + 1) < pipeBuffers - w.pipe.nrbufs
      omega
    · exact ⟨_, pipeFull_eq ..⟩
  · exact ⟨w.pipe, pipeFull_eq ..⟩

end Rounds

/-- In a calm environment a write to a pipe that has a reader returns the length of its `iovec`,
whatever is buffered. -/
theorem pipeWrite_returns (isec tsec : BitVec 64) {env : WriteEnv} (henv : env.Calm)
    (nonblock : Bool) (iov : List Nat) {pipe : BufferedPipe} (hreaders : pipe.readers ≠ 0) :
    ∃ pipe', pipeWrite isec tsec env nonblock iov pipe =
      .ok (.returned (toSsize (iovLength iov)) pipe') := by
  rw [← toSsize_totalLen]
  have hiov : (BitVec.ofNat 64 (iovLength iov)).toNat ≤ iovLength iov := by
    rw [BitVec.toNat_ofNat]
    exact Nat.mod_le _ _
  simp only [pipeWrite, hreaders, ↓reduceIte]
  generalize (BitVec.ofNat 64 (iovLength iov)).toNat = total at hiov ⊢
  split
  · rename_i hzero
    exact ⟨pipe, by rw [hzero]; rfl⟩
  have hstart : WriteInv total ⟨pipe, iov, 0, total, 0⟩ :=
    ⟨hreaders, Int.zero_add _, hiov, Int.natCast_nonneg _⟩
  have hmerge := roundOk_tryMerge henv hstart
  cases htry : tryMerge env ⟨pipe, iov, 0, total, 0⟩ with
  | error fault =>
      rw [htry] at hmerge
      exact hmerge.elim
  | ok ending =>
      rw [htry] at hmerge
      cases ending with
      | leave ending =>
          obtain ⟨pipe', rfl⟩ := hmerge
          exact ⟨pipe', bind_eq_ok.2 ⟨_, rfl, rfl⟩⟩
      | next w =>
          obtain ⟨ending, hloop, pipe', rfl⟩ := loop_ok
            (fun w hw => roundOk_writeRound henv hw) hmerge.1 (Nat.lt_succ_of_le (Nat.sub_le ..))
          exact ⟨pipe', bind_eq_ok.2 ⟨.next w, rfl, hloop⟩⟩

/-- **A writer cannot learn how full a pipe is.**  In any two states of a pipe that has a reader,
whatever number of pages they buffer, at whatever places, with whatever lengths and mergeability,
a write of the same `iovec` comes back without `pipe_wait` and returns the length of the `iovec`.
That is so for every writer and every pipe; their labels are not looked at. -/
theorem pipeWrite_hides_fill (isec tsec : BitVec 64) (env : WriteEnv) (henv : env.Calm)
    (nonblock : Bool) (iov : List Nat) (n : Nat) (hn : iovLength iov = n) (hpos : 0 < n)
    (pipe₁ pipe₂ : BufferedPipe) (hreaders₁ : pipe₁.readers ≠ 0) (hreaders₂ : pipe₂.readers ≠ 0) :
    (∃ pipe', pipeWrite isec tsec env nonblock iov pipe₁ = .ok (.returned (toSsize n) pipe')) ∧
      (∃ pipe', pipeWrite isec tsec env nonblock iov pipe₂ = .ok (.returned (toSsize n) pipe')) ∧
      (n ≤ ssizeMax → toSsize n = n) := by
  subst hn
  exact ⟨pipeWrite_returns isec tsec henv nonblock iov hreaders₁,
    pipeWrite_returns isec tsec henv nonblock iov hreaders₂, toSsize_of_le⟩

/-- An empty pipe and a full one, and three bytes in two segments. -/
theorem pipeWrite_hides_full :
    let env : WriteEnv := ⟨0, fun _ => false, fun _ => true, false⟩
    let empty : BufferedPipe :=
      { PipeInodeInfo.alloc with
        readers := 1, nrbufs := 0, curbuf := 0, tmpPage := false, bufs := fun _ => ⟨0, 0, true⟩ }
    let full : BufferedPipe :=
      { empty with nrbufs := pipeBuffers, curbuf := 5, bufs := fun _ => ⟨0, pageSize, false⟩ }
    env.Calm ∧ empty.readers ≠ 0 ∧ full.readers ≠ 0 ∧
      (∃ pipe', pipeWrite 4096 8192 env true [1, 2] empty = .ok (.returned (toSsize 3) pipe')) ∧
      ∃ pipe', pipeWrite 4096 8192 env true [1, 2] full = .ok (.returned (toSsize 3) pipe') := by
  intro env empty full
  have henv : env.Calm := ⟨rfl, fun _ => rfl, fun _ => rfl, rfl⟩
  have hempty : empty.readers ≠ 0 := by decide
  have hfull : full.readers ≠ 0 := by decide
  have hides := pipeWrite_hides_fill 4096 8192 env henv true [1, 2] 3 rfl (by decide)
    empty full hempty hfull
  exact ⟨henv, hempty, hfull, hides.1, hides.2.1⟩

end Laminar.Vfs
