import Laminar.Lib.Run
import Laminar.Vfs.PipeLoss

/-!
# Reading from a pipe

`pipe_read` takes the buffers from the front, copies each of them to the reader's segments and
gives the page back when the buffer is empty.  It sleeps only when there is nothing to read and
a writer may still come.  As in `pipe_write`, a copy that fails while the pages are thought to be
there is tried once more, from the start of the buffer but with the segments used up so far.

On the side of the pipe this does no harm: a call takes out exactly the bytes it reports, whatever
faults (`pipeRead_takes`).  The reader gets them as they are if there is one segment, as in
`read`, or no fault (`pipeRead_delivers`).  A second attempt over several segments shifts the data
and can run past the last segment.

With the writes of `Vfs.PipeSteady` the pipe is a queue of bytes: what readers have got, followed
by what is buffered, is what writers have appended (`delivered_append_stream_of_run`).
-/

namespace Laminar.Vfs.Data

open Laminar.Lib Laminar.Kernel

/-! ## The call -/

/-- What happens outside the call: the values of `pin`, whether `iov_fault_in_pages_write` brings
in all pages, which copies fault (each counted from the start of the call), whether a signal is
pending, and how many writers sleep in `pipe_write`. -/
structure ReadEnv where
  pin : Nat → Int
  faultIn : Nat → Bool
  fault : Nat → Bool
  signalPending : Bool
  waitingWriters : Nat

/-- The variables of `pipe_read`.  Of the `iovec` the lengths that are left count; `got` is what
the segments hold that were used up. -/
structure Reading where
  pipe : Pipe
  iov : List Nat
  got : List Byte
  copies : Nat
  totalLen : Nat
  ret : Int

/-- How `pipe_read` ends: it returns, or it waits. -/
inductive ReadEnd
  | returned (ret : Int) (pipe : Pipe) (got : List Byte)
  | waits (pipe : Pipe) (got : List Byte)

/-- The pipe after the call. -/
def ReadEnd.pipe : ReadEnd → Pipe
  | .returned _ pipe _ => pipe
  | .waits pipe _ => pipe

/-- What a copy leaves behind; `put` is what it put into the segments it used up. -/
structure CopiedOut where
  failed : Bool
  iov : List Nat
  copies : Nat
  put : List Byte

/-- The bytes come after others. -/
def CopiedOut.after (out : CopiedOut) (put : List Byte) : CopiedOut :=
  { out with put := put ++ out.put }

/-- `pipe_iov_copy_to_user`. -/
def pipeIovCopyToUser (fault : Nat → Bool) :
    List Nat → Nat → List Byte → Except WriteFault CopiedOut
  | [], copies, data => if data = [] then .ok ⟨false, [], copies, []⟩ else .error .pastIovec
  | seg :: segs, copies, data =>
      if data = [] then .ok ⟨false, seg :: segs, copies, []⟩
      else if seg = 0 then pipeIovCopyToUser fault segs copies data
      else if fault copies then .ok ⟨true, seg :: segs, copies + 1, []⟩
      else if data.length ≤ seg then .ok ⟨false, (seg - data.length) :: segs, copies + 1, data⟩
      else (pipeIovCopyToUser fault segs (copies + 1) (data.drop seg)).map
        (CopiedOut.after · (data.take seg))

/-- A copy to pages that were brought in and that fails is tried once more, from the start of the
data but in the segments that are left. -/
def copyOut (env : ReadEnv) (iov : List Nat) (copies : Nat) (data : List Byte) :
    Except WriteFault CopiedOut := do
  let out ← pipeIovCopyToUser env.fault iov copies data
  if out.failed && env.faultIn copies then
    return (← pipeIovCopyToUser env.fault out.iov out.copies data).after out.put
  else return out

/-- The first buffer. -/
def Pipe.first (pipe : Pipe) : PageBuffer := pipe.bufs (pipe.place 0)

/-- The pipe after `chars` bytes were taken from the first buffer, which is released when it is
empty. -/
def Pipe.consume (pipe : Pipe) (chars : Nat) : Pipe :=
  let buf := { pipe.first with offset := pipe.first.offset + chars, len := pipe.first.len - chars }
  if buf.len = 0 then (pipe.setBuf (pipe.place 0) buf).release
  else pipe.setBuf (pipe.place 0) buf

/-- The variables after `chars` bytes of the first buffer were copied. -/
def Reading.took (r : Reading) (chars : Nat) (out : CopiedOut) : Reading where
  pipe := r.pipe.consume chars
  iov := out.iov
  got := r.got ++ out.put
  copies := out.copies
  totalLen := r.totalLen - chars
  ret := r.ret + chars

section Read

variable (env : ReadEnv) (nonblock : Bool)

/-- The end of a round that finds the pipe empty. -/
def pipeEmpty (r : Reading) : ReadEnd :=
  if r.pipe.writers = 0 then .returned r.ret r.pipe r.got
  else if env.waitingWriters = 0 ∧ r.ret ≠ 0 then .returned r.ret r.pipe r.got
  else if env.waitingWriters = 0 ∧ nonblock then .returned (-eAgain) r.pipe r.got
  else if env.signalPending then .returned (retOr r.ret (-eRestartsys)) r.pipe r.got
  else .waits r.pipe r.got

/-- A round of the loop.  A buffer that cannot be pinned ends the call with what was read so far:
the error is lost. -/
def readRound (r : Reading) : Except WriteFault (Round ReadEnd Reading) :=
  if r.pipe.nrbufs ≠ 0 then
    let chars := min r.pipe.first.len r.totalLen
    if env.pin r.copies ≠ 0 then .ok (.leave (.returned r.ret r.pipe r.got))
    else do
      let out ← copyOut env r.iov r.copies (r.pipe.first.bytes.take chars)
      if out.failed then
        return .leave (.returned (retOr r.ret (-eFault)) r.pipe (r.got ++ out.put))
      else if r.totalLen - chars = 0 then
        return .leave (.returned (r.took chars out).ret (r.took chars out).pipe
          (r.took chars out).got)
      else if (r.took chars out).pipe.nrbufs ≠ 0 then return .next (r.took chars out)
      else return .leave (pipeEmpty env nonblock (r.took chars out))
  else .ok (.leave (pipeEmpty env nonblock r))

end Read

/-- `pipe_read`, up to the point where it would sleep. -/
def pipeReadCall (env : ReadEnv) (nonblock : Bool) (iov : List Nat) (pipe : Pipe) :
    Except WriteFault ReadEnd :=
  let totalLen := (BitVec.ofNat 64 (iovLength iov)).toNat
  if totalLen = 0 then .ok (.returned 0 pipe [])
  else loop (readRound env nonblock) .tooManyRounds (pipe.nrbufs + 1)
    ⟨pipe, iov, [], 0, totalLen, 0⟩

/-- `pipe_ioctl` with `FIONREAD`. -/
def fionread (pipe : Pipe) : Nat :=
  (List.range pipe.nrbufs).foldl (fun count i => count + (pipe.bufs (pipe.place i)).len) 0

/-- The bits of `pipe_poll`: `POLLIN | POLLRDNORM`, `POLLOUT | POLLWRNORM`, `POLLERR` and
`POLLHUP`. -/
def pollIn : BitVec 32 := 0x41#32
def pollOut : BitVec 32 := 0x104#32
def pollErr : BitVec 32 := 0x8#32
def pollHup : BitVec 32 := 0x10#32

/-- The bits, if there is a reason for them. -/
def pollBits (reason : Bool) (bits : BitVec 32) : BitVec 32 := if reason then bits else 0#32

/-- `pipe_poll`; `fVersion` is the `f_version` of the open file. -/
def pipePoll (pipe : Pipe) (modeRead modeWrite : Bool) (fVersion : BitVec 32) : BitVec 32 :=
  pollBits (modeRead && 0 < pipe.nrbufs) pollIn |||
    pollBits (modeRead && pipe.writers = 0 && fVersion ≠ pipe.wCounter) pollHup |||
    pollBits (modeWrite && pipe.nrbufs < pipeBuffers) pollOut |||
    pollBits (modeWrite && pipe.readers = 0) pollErr

/-! ## The front of the stream -/

section Front

variable {pipe : Pipe} {chars : Nat}

theorem pipeBuffers_pos : 0 < pipeBuffers := by decide

/-- The buffers behind the first one. -/
def Pipe.behind (pipe : Pipe) : List PageBuffer :=
  ringItems pipeBuffers_pos pipe.bufs ((pipe.curbuf + 1) % pipeBuffers) (pipe.nrbufs - 1)

theorem Pipe.ringItems_eq (hsome : pipe.nrbufs ≠ 0) :
    ringItems pipeBuffers_pos pipe.bufs pipe.curbuf pipe.nrbufs = pipe.first :: pipe.behind := by
  obtain ⟨n, hn⟩ := Nat.exists_eq_succ_of_ne_zero hsome
  rw [Pipe.behind, hn]
  exact ringItems_cons pipe.bufs pipe.curbuf n

theorem Pipe.stream_eq_first (hsome : pipe.nrbufs ≠ 0) :
    pipe.stream = pipe.first.bytes ++ pipe.behind.flatMap PageBuffer.bytes := by
  rw [Pipe.stream, Pipe.ringItems_eq hsome, List.flatMap_cons]

theorem PageBuffer.length_bytes (buf : PageBuffer) : buf.bytes.length = buf.len :=
  length_pageBytes ..

/-- What is left of a buffer. -/
theorem PageBuffer.bytes_advance (buf : PageBuffer) (hchars : chars ≤ buf.len) :
    PageBuffer.bytes { buf with offset := buf.offset + chars, len := buf.len - chars } =
      buf.bytes.drop chars := by
  have hsplit : buf.bytes = pageBytes buf.page buf.offset chars ++
      pageBytes buf.page (buf.offset + chars) (buf.len - chars) := by
    rw [← pageBytes_add, Nat.add_sub_cancel' hchars]
    rfl
  rw [hsplit, List.drop_left' (length_pageBytes ..)]
  rfl

/-- The buffers that are in use after `chars` bytes were taken. -/
theorem Pipe.ringItems_consume (hsome : pipe.nrbufs ≠ 0) :
    ringItems pipeBuffers_pos (pipe.consume chars).bufs (pipe.consume chars).curbuf
        (pipe.consume chars).nrbufs =
      (if pipe.first.len - chars = 0 then []
        else [{ pipe.first with
          offset := pipe.first.offset + chars, len := pipe.first.len - chars }]) ++
        pipe.behind := by
  have hle := pipe.nrbufs_le
  have hcount : pipe.nrbufs - 1 + 1 ≤ pipeBuffers := by omega
  unfold Pipe.consume
  dsimp only
  split
  · exact ringItems_setSlot_first pipe.bufs pipe.curbuf hcount _
  · show ringItems _ (setSlot pipe.bufs (pipe.place 0) _) pipe.curbuf pipe.nrbufs = _
    obtain ⟨n, hn⟩ := Nat.exists_eq_succ_of_ne_zero hsome
    rw [hn] at hcount
    rw [Pipe.behind, hn, ringItems_cons]
    refine congr (congrArg List.cons ?_) (ringItems_setSlot_first pipe.bufs pipe.curbuf hcount _)
    exact if_pos rfl

theorem Pipe.stream_consume (hsome : pipe.nrbufs ≠ 0) (hchars : chars ≤ pipe.first.len) :
    (pipe.consume chars).stream = pipe.stream.drop chars := by
  rw [Pipe.stream_eq_first hsome, List.drop_append_of_le_length
    (by rw [PageBuffer.length_bytes]; exact hchars), Pipe.stream, Pipe.ringItems_consume hsome,
    List.flatMap_append]
  refine congrArg (· ++ _) ?_
  split
  · rename_i hempty
    rw [List.flatMap_nil, List.drop_of_length_le]
    rw [PageBuffer.length_bytes]
    omega
  · rw [List.flatMap_singleton, PageBuffer.bytes_advance _ hchars]

theorem Pipe.nrbufs_consume (pipe : Pipe) (chars : Nat) :
    (pipe.consume chars).nrbufs =
      if pipe.first.len - chars = 0 then pipe.nrbufs - 1 else pipe.nrbufs := by
  unfold Pipe.consume
  dsimp only
  split <;> rfl

end Front

/-! ## Copies -/

section CopyOut

variable {fault : Nat → Bool} {iov : List Nat} {copies : Nat} {data : List Byte}
  {out : CopiedOut}

/-- A copy puts an initial part of the data into the segments it uses up, all of it if it
succeeds. -/
theorem pipeIovCopyToUser_spec (h : pipeIovCopyToUser fault iov copies data = .ok out) :
    iovLength out.iov + out.put.length = iovLength iov ∧ out.iov.length ≤ iov.length ∧
      (out.failed = false → out.put = data) := by
  induction iov generalizing copies data out with
  | nil =>
      rw [pipeIovCopyToUser] at h
      split at h
      · rename_i hnil
        obtain rfl := Except.ok.inj h
        exact ⟨rfl, Nat.le_refl _, fun _ => hnil.symm⟩
      · cases h
  | cons seg segs ih =>
      rw [pipeIovCopyToUser] at h
      split at h
      · rename_i hnil
        obtain rfl := Except.ok.inj h
        exact ⟨rfl, Nat.le_refl _, fun _ => hnil.symm⟩
      split at h
      · rename_i hzero
        subst hzero
        obtain ⟨hlen, hsegs, hall⟩ := ih h
        refine ⟨?_, Nat.le_succ_of_le hsegs, hall⟩
        rw [hlen, iovLength, Nat.zero_add]
      split at h
      · obtain rfl := Except.ok.inj h
        exact ⟨rfl, Nat.le_refl _, fun hok => absurd hok Bool.false_ne_true.symm⟩
      split at h
      · rename_i hfits
        obtain rfl := Except.ok.inj h
        refine ⟨?_, Nat.le_refl _, fun _ => rfl⟩
        simp only [iovLength]
        omega
      · rename_i hlong
        obtain ⟨rest, hrest, rfl⟩ := map_eq_ok.1 h
        obtain ⟨hlen, hsegs, hall⟩ := ih hrest
        refine ⟨?_, Nat.le_succ_of_le hsegs, fun hok => ?_⟩
        · simp only [CopiedOut.after, List.length_append, List.length_take, iovLength]
          omega
        · show data.take seg ++ rest.put = data
          rw [hall hok, List.take_append_drop]

/-- Segments that are long enough are enough. -/
theorem pipeIovCopyToUser_returns (fault : Nat → Bool) (copies : Nat)
    (hlen : data.length ≤ iovLength iov) :
    ∃ out, pipeIovCopyToUser fault iov copies data = .ok out ∧
      ((∀ k, fault k = false) → out.failed = false) := by
  induction iov generalizing copies data with
  | nil =>
      have hnil : data = [] := List.length_eq_zero_iff.1 (Nat.le_zero.1 hlen)
      rw [pipeIovCopyToUser, if_pos hnil]
      exact ⟨_, rfl, fun _ => rfl⟩
  | cons seg segs ih =>
      rw [pipeIovCopyToUser]
      rw [iovLength] at hlen
      split
      · exact ⟨_, rfl, fun _ => rfl⟩
      split
      · exact ih copies (by omega)
      split
      · rename_i hfault
        refine ⟨_, rfl, fun hcalm => ?_⟩
        rw [hcalm copies] at hfault
        cases hfault
      split
      · exact ⟨_, rfl, fun _ => rfl⟩
      · obtain ⟨out, hout, hcalm⟩ := ih (copies + 1)
          (show (data.drop seg).length ≤ iovLength segs by rw [List.length_drop]; omega)
        rw [hout]
        exact ⟨_, rfl, hcalm⟩

/-- In one segment a copy that fails has used up nothing. -/
theorem pipeIovCopyToUser_single (hsingle : iov.length ≤ 1)
    (h : pipeIovCopyToUser fault iov copies data = .ok out) (hfailed : out.failed = true) :
    out.put = [] ∧ out.iov = iov := by
  cases iov with
  | nil =>
      rw [pipeIovCopyToUser] at h
      split at h
      · obtain rfl := Except.ok.inj h
        cases hfailed
      · cases h
  | cons seg segs =>
      obtain rfl : segs = [] := by
        rw [List.length_cons] at hsingle
        exact List.length_eq_zero_iff.1 (by omega)
      rw [pipeIovCopyToUser] at h
      split at h
      · obtain rfl := Except.ok.inj h
        cases hfailed
      rename_i hsome
      split at h
      · rw [pipeIovCopyToUser, if_neg hsome] at h
        cases h
      split at h
      · obtain rfl := Except.ok.inj h
        exact ⟨rfl, rfl⟩
      split at h
      · obtain rfl := Except.ok.inj h
        cases hfailed
      · rename_i hlong
        obtain ⟨rest, hrest, rfl⟩ := map_eq_ok.1 h
        rw [pipeIovCopyToUser] at hrest
        split at hrest
        · obtain rfl := Except.ok.inj hrest
          cases hfailed
        · cases hrest

/-- No copy faults, or there is one segment only. -/
def SteadyRead (env : ReadEnv) (iov : List Nat) : Prop :=
  (∀ k, env.fault k = false) ∨ iov.length ≤ 1

/-- What a steady copy with its second attempt does: it puts the data into the segments, or
fails without having used up any. -/
theorem SteadyRead.copyOut {env : ReadEnv} (h : SteadyRead env iov) (copies : Nat)
    (hlen : data.length ≤ iovLength iov) :
    ∃ out, copyOut env iov copies data = .ok out ∧ out.iov.length ≤ iov.length ∧
      (out.failed = false → out.put = data ∧ iovLength out.iov + data.length = iovLength iov) ∧
      (out.failed = true → out.put = []) ∧
      ((∀ k, env.fault k = false) → out.failed = false) := by
  obtain ⟨first, hfirst, hcalm⟩ := pipeIovCopyToUser_returns env.fault copies hlen
  obtain ⟨hcount, hsegs, hall⟩ := pipeIovCopyToUser_spec hfirst
  cases hfailed : first.failed with
  | false =>
      refine ⟨first, bind_eq_ok.2 ⟨first, hfirst, ?_⟩, hsegs, fun _ => ?_, fun hok => ?_, hcalm⟩
      · rw [hfailed]
        rfl
      · rw [hall hfailed] at hcount
        exact ⟨hall hfailed, hcount⟩
      · rw [hfailed] at hok
        cases hok
  | true =>
      have hsingle : iov.length ≤ 1 := by
        rcases h with hnone | hsingle
        · rw [hcalm hnone] at hfailed
          cases hfailed
        · exact hsingle
      obtain ⟨hput, hiov⟩ := pipeIovCopyToUser_single hsingle hfirst hfailed
      cases hin : env.faultIn copies with
      | false =>
          refine ⟨first, bind_eq_ok.2 ⟨first, hfirst, ?_⟩, hsegs, fun hok => ?_, fun _ => hput,
            hcalm⟩
          · rw [hfailed, hin]
            rfl
          · rw [hfailed] at hok
            cases hok
      | true =>
          -- the second attempt starts where the first one did
          obtain ⟨second, hsecond, -⟩ := pipeIovCopyToUser_returns env.fault first.copies hlen
          obtain ⟨hcount₂, hsegs₂, hall₂⟩ := pipeIovCopyToUser_spec hsecond
          have hafter : second.after first.put = second := by
            rw [CopiedOut.after, hput, List.nil_append]
          refine ⟨second, bind_eq_ok.2 ⟨first, hfirst, ?_⟩, hsegs₂, fun hok => ?_, fun hbad => ?_,
            fun hnone => ?_⟩
          · rw [hfailed, hin, Bool.and_self, if_pos rfl, hiov]
            refine bind_eq_ok.2 ⟨second, hsecond, ?_⟩
            rw [hafter]
            rfl
          · rw [hall₂ hok] at hcount₂
            exact ⟨hall₂ hok, hcount₂⟩
          · exact (pipeIovCopyToUser_single hsingle hsecond hbad).1
          · rw [hcalm hnone] at hfailed
            cases hfailed

end CopyOut

/-! ## What a call takes out of the pipe -/

/-- The variables of a call that has taken the first `n` bytes. -/
structure Took (base : List Byte) (total : Nat) (r : Reading) (n : Nat) : Prop where
  stream : r.pipe.stream = base.drop n
  ret : r.ret = n
  left : n + r.totalLen = total
  le : n ≤ base.length

/-- A return value for `n` bytes: their number, or an error if there are none. -/
def Reports (ret : Int) (n : Nat) : Prop := ret = n ∨ n = 0 ∧ ret < 0

/-- The pipe has lost exactly the bytes that the call reports.  A call that waits has emptied the
pipe. -/
def ReadEnd.Takes (base : List Byte) (total : Nat) : ReadEnd → Prop
  | .returned ret pipe _ => ∃ n, n ≤ total ∧ n ≤ base.length ∧ pipe.stream = base.drop n ∧
      Reports ret n
  | .waits pipe _ => pipe.stream = [] ∧ base.length ≤ total

section Takes

variable {env : ReadEnv} {nonblock : Bool} {base : List Byte} {total n : Nat} {r : Reading}

theorem reports_retOr {ret error : Int} (hret : ret = n) (herror : error < 0) :
    Reports (retOr ret error) n := by
  unfold retOr
  split
  · rename_i hzero
    exact .inr ⟨by omega, herror⟩
  · exact .inl hret

theorem Pipe.stream_eq_nil {pipe : Pipe} (h : pipe.nrbufs = 0) : pipe.stream = [] := by
  rw [Pipe.stream, h]
  rfl

theorem Took.took (h : Took base total r n) (hsome : r.pipe.nrbufs ≠ 0) (out : CopiedOut) :
    Took base total (r.took (min r.pipe.first.len r.totalLen) out)
      (n + min r.pipe.first.len r.totalLen) := by
  have hleft := h.left
  have hlen : r.pipe.first.len ≤ base.length - n := by
    rw [← List.length_drop, ← h.stream, Pipe.stream_eq_first hsome, List.length_append,
      PageBuffer.length_bytes]
    exact Nat.le_add_right ..
  have hle := h.le
  refine ⟨?_, ?_, ?_, by omega⟩
  · show (r.pipe.consume _).stream = _
    rw [Pipe.stream_consume hsome (Nat.min_le_left ..), h.stream, List.drop_drop]
  · show r.ret + (min r.pipe.first.len r.totalLen : Nat) = _
    rw [h.ret, Int.natCast_add]
  · show n + _ + (r.totalLen - _) = total
    omega

/-- An empty pipe: everything has been taken. -/
theorem Took.all (h : Took base total r n) (hempty : r.pipe.nrbufs = 0) : n = base.length := by
  have hstream := h.stream
  rw [Pipe.stream_eq_nil hempty] at hstream
  have hle := h.le
  have hlen := List.drop_eq_nil_iff.1 hstream.symm
  omega

theorem Took.le_total (h : Took base total r n) : n ≤ total := by
  have hleft := h.left
  omega

theorem Took.pipeEmpty (h : Took base total r n) (hempty : r.pipe.nrbufs = 0) :
    (pipeEmpty env nonblock r).Takes base total := by
  have hgot : ∀ {ret : Int}, Reports ret n → (ReadEnd.returned ret r.pipe r.got).Takes base total :=
    fun hret => ⟨n, h.le_total, h.le, h.stream, hret⟩
  unfold Data.pipeEmpty
  split
  · exact hgot (.inl h.ret)
  split
  · exact hgot (.inl h.ret)
  split
  · rename_i hret hagain
    refine hgot (.inr ⟨?_, by decide⟩)
    have hzero : ¬ r.ret ≠ 0 := fun hne => hret ⟨hagain.1, hne⟩
    have hr := h.ret
    omega
  split
  · exact hgot (reports_retOr h.ret (by decide))
  · refine ⟨Pipe.stream_eq_nil hempty, ?_⟩
    rw [← h.all hempty]
    exact h.le_total

/-- A round keeps the account, whatever faults. -/
theorem roundKeeps_readRound (h : Took base total r n) :
    RoundKeeps (fun r => ∃ n, Took base total r n) (ReadEnd.Takes base total)
      (readRound env nonblock r) := by
  have hleave : ∀ {ret : Int} (got : List Byte), Reports ret n →
      (ReadEnd.returned ret r.pipe got).Takes base total :=
    fun _ hret => ⟨n, h.le_total, h.le, h.stream, hret⟩
  unfold readRound
  split
  · rename_i hsome
    dsimp only
    split
    · exact hleave r.got (.inl h.ret)
    cases hout : copyOut env r.iov r.copies
        (r.pipe.first.bytes.take (min r.pipe.first.len r.totalLen)) with
    | error fault => exact trivial
    | ok out =>
        have htook := h.took hsome out
        show RoundKeeps _ _ (if out.failed then _ else _)
        split
        · exact hleave (r.got ++ out.put) (reports_retOr h.ret (by decide))
        split
        · exact ⟨_, htook.le_total, htook.le, htook.stream, .inl htook.ret⟩
        split
        · exact ⟨_, htook⟩
        · rename_i hempty
          exact htook.pipeEmpty (Decidable.not_not.1 hempty)
  · rename_i hempty
    exact h.pipeEmpty (Decidable.not_not.1 hempty)

end Takes

theorem toNat_iovLength {iov : List Nat} (h : iovLength iov ≤ ssizeMax) :
    (BitVec.ofNat 64 (iovLength iov)).toNat = iovLength iov := by
  rw [BitVec.toNat_ofNat]
  exact Nat.mod_eq_of_lt (Nat.lt_of_le_of_lt h (by decide))

/-- **A read takes out of the pipe exactly the bytes it reports**, whichever copies, pins and
attempts fail on the way. -/
theorem pipeRead_takes {env : ReadEnv} {nonblock : Bool} {iov : List Nat} {pipe : Pipe}
    (hlen : iovLength iov ≤ ssizeMax) {ending : ReadEnd}
    (h : pipeReadCall env nonblock iov pipe = .ok ending) :
    ending.Takes pipe.stream (iovLength iov) := by
  unfold pipeReadCall at h
  rw [toNat_iovLength hlen] at h
  dsimp only at h
  split at h
  · obtain rfl := Except.ok.inj h
    exact ⟨0, Nat.zero_le _, Nat.zero_le _, rfl, .inl rfl⟩
  · have hstart : Took pipe.stream (iovLength iov) ⟨pipe, iov, [], 0, iovLength iov, 0⟩ 0 :=
      ⟨rfl, rfl, Nat.zero_add _, Nat.zero_le _⟩
    have hround : ∀ r, (∃ n, Took pipe.stream (iovLength iov) r n) → RoundKeeps
        (fun r => ∃ n, Took pipe.stream (iovLength iov) r n)
        (ReadEnd.Takes pipe.stream (iovLength iov)) (readRound env nonblock r) :=
      fun r ⟨n, hr⟩ => roundKeeps_readRound hr
    exact loop_keeps hround ⟨0, hstart⟩ h

/-- Nothing fails, and nobody else is there. -/
def calmRead : ReadEnv := ⟨fun _ => 0, fun _ => true, fun _ => false, false, 0⟩

/-- A pipe with three bytes in it. -/
def threeBytes : Pipe :=
  { emptyPipe with
    nrbufs := 1, bufs := fun _ => ⟨⟨0, 3, true⟩, fun i => BitVec.ofNat 8 (i + 1)⟩,
    nrbufs_le := by decide }

/-- Three bytes for two segments of two and four: the copy to the second one faults once.  The
reader finds the first two bytes twice; the pipe has lost three, as reported. -/
theorem pipeRead_takes_shifted :
    ∃ pipe, pipeReadCall { calmRead with fault := fun k => k == 1 } false [2, 4] threeBytes =
        .ok (.returned 3 pipe [1#8, 2#8, 1#8, 2#8, 3#8]) ∧ pipe.stream = [] ∧
      (ReadEnd.returned 3 pipe [1#8, 2#8, 1#8, 2#8, 3#8]).Takes threeBytes.stream 6 := by
  obtain ⟨pipe, hcall, hstream⟩ : ∃ pipe,
      pipeReadCall { calmRead with fault := fun k => k == 1 } false [2, 4] threeBytes =
        .ok (.returned 3 pipe [1#8, 2#8, 1#8, 2#8, 3#8]) ∧ pipe.stream = [] := ⟨_, rfl, rfl⟩
  exact ⟨pipe, hcall, hstream, pipeRead_takes (by decide) hcall⟩

/-! ## What a call delivers -/

/-- The variables of a steady call that has delivered the first `n` bytes. -/
structure Gave (env : ReadEnv) (base : List Byte) (total : Nat) (r : Reading) (n : Nat) : Prop
    extends Took base total r n where
  got : r.got = base.take n
  segments : iovLength r.iov = r.totalLen
  steady : SteadyRead env r.iov

/-- Nothing fails. -/
def Calm (env : ReadEnv) : Prop := (∀ k, env.fault k = false) ∧ ∀ k, env.pin k = 0

/-- The reader has got the bytes that the pipe has lost, in order, and the call reports how many;
if nothing fails these are as many as there are and were asked for.  A call that waits has
emptied the pipe. -/
def ReadEnd.Delivers (env : ReadEnv) (base : List Byte) (total : Nat) : ReadEnd → Prop
  | .returned ret pipe got => got ++ pipe.stream = base ∧ got.length ≤ total ∧
      Reports ret got.length ∧ (Calm env → got.length = min total base.length)
  | .waits pipe got => got = base ∧ pipe.stream = [] ∧ (env.waitingWriters = 0 → base = [])

section Delivers

variable {env : ReadEnv} {nonblock : Bool} {base : List Byte} {total n : Nat} {r : Reading}

theorem Gave.length_got (h : Gave env base total r n) : r.got.length = n := by
  rw [h.got, List.length_take, Nat.min_eq_left h.le]

/-- A return with what was delivered so far. -/
theorem Gave.returned (h : Gave env base total r n) {ret : Int} (hret : Reports ret n)
    (hcalm : Calm env → n = min total base.length) :
    (ReadEnd.returned ret r.pipe r.got).Delivers env base total := by
  refine ⟨?_, ?_, ?_, ?_⟩
  · rw [h.got, h.stream, List.take_append_drop]
  all_goals rw [h.length_got]
  · exact h.le_total
  · exact hret
  · exact hcalm

theorem Gave.pipeEmpty (h : Gave env base total r n) (hempty : r.pipe.nrbufs = 0) :
    (pipeEmpty env nonblock r).Delivers env base total := by
  have hall := h.all hempty
  have htotal := h.le_total
  have hcount : Calm env → n = min total base.length := fun _ => by omega
  have hr := h.ret
  unfold Data.pipeEmpty
  split
  · exact h.returned (.inl hr) hcount
  split
  · exact h.returned (.inl hr) hcount
  rename_i hret
  split
  · rename_i hagain
    have hzero : ¬ r.ret ≠ 0 := fun hne => hret ⟨hagain.1, hne⟩
    exact h.returned (.inr ⟨by omega, by decide⟩) hcount
  split
  · exact h.returned (reports_retOr hr (by decide)) hcount
  · refine ⟨?_, Pipe.stream_eq_nil hempty, fun hnone => ?_⟩
    · rw [h.got, hall, List.take_length]
    · have hzero : ¬ r.ret ≠ 0 := fun hne => hret ⟨hnone, hne⟩
      exact List.length_eq_zero_iff.1 (by omega)

/-- One more buffer, or a part of it. -/
theorem Gave.took (h : Gave env base total r n) (hsome : r.pipe.nrbufs ≠ 0) {out : CopiedOut}
    (hput : out.put = r.pipe.first.bytes.take (min r.pipe.first.len r.totalLen))
    (hiov : iovLength out.iov + min r.pipe.first.len r.totalLen = iovLength r.iov)
    (hsegs : out.iov.length ≤ r.iov.length) :
    Gave env base total (r.took (min r.pipe.first.len r.totalLen) out)
      (n + min r.pipe.first.len r.totalLen) := by
  refine ⟨h.toTook.took hsome out, ?_, ?_, h.steady.imp_right fun hle => Nat.le_trans hsegs hle⟩
  · show r.got ++ out.put = _
    have hfirst : r.pipe.first.bytes.take (min r.pipe.first.len r.totalLen) =
        (base.drop n).take (min r.pipe.first.len r.totalLen) := by
      rw [← h.stream, Pipe.stream_eq_first hsome, List.take_append_of_le_length]
      rw [PageBuffer.length_bytes]
      exact Nat.min_le_left ..
    rw [h.got, hput, hfirst, List.take_add]
  · have hsegments := h.segments
    show iovLength out.iov = r.totalLen - _
    omega

/-- A round of a steady call. -/
theorem roundOk_readRound (h : Gave env base total r n) :
    RoundOk (fun r => ∃ n, Gave env base total r n) (ReadEnd.Delivers env base total)
      (fun r => r.pipe.nrbufs) r.pipe.nrbufs (readRound env nonblock r) := by
  unfold readRound
  split
  · rename_i hsome
    dsimp only
    split
    · rename_i hpin
      exact h.returned (.inl h.ret) fun hcalm => absurd (hcalm.2 _) hpin
    have hdata : (r.pipe.first.bytes.take (min r.pipe.first.len r.totalLen)).length =
        min r.pipe.first.len r.totalLen := by
      rw [List.length_take, PageBuffer.length_bytes]
      omega
    obtain ⟨out, hout, hsegs, hok, hbad, hcalm⟩ := h.steady.copyOut r.copies
      (show (r.pipe.first.bytes.take (min r.pipe.first.len r.totalLen)).length ≤ iovLength r.iov by
        rw [hdata, h.segments]
        exact Nat.min_le_right ..)
    rw [hout]
    show RoundOk _ _ _ _ (if out.failed then _ else _)
    cases hfailed : out.failed with
    | true =>
        rw [if_pos rfl, hbad hfailed, List.append_nil]
        refine h.returned (reports_retOr h.ret (by decide)) fun hnone => ?_
        rw [hcalm hnone.1] at hfailed
        cases hfailed
    | false =>
        obtain ⟨hput, hiov⟩ := hok hfailed
        rw [hdata] at hiov
        have htook := h.took hsome hput hiov hsegs
        rw [if_neg Bool.false_ne_true]
        split
        · rename_i hdone
          refine htook.returned (.inl htook.ret) fun _ => ?_
          have hleft := htook.left
          have hle := htook.le
          rw [show (r.took (min r.pipe.first.len r.totalLen) out).totalLen =
            r.totalLen - min r.pipe.first.len r.totalLen from rfl, hdone] at hleft
          omega
        rename_i hmore
        split
        · -- the buffer was used up, since more is asked for
          refine ⟨⟨_, htook⟩, ?_⟩
          show (r.pipe.consume _).nrbufs < r.pipe.nrbufs
          rw [Pipe.nrbufs_consume, if_pos (by omega)]
          omega
        · rename_i hempty
          exact htook.pipeEmpty (Decidable.not_not.1 hempty)
  · rename_i hempty
    exact h.pipeEmpty (Decidable.not_not.1 hempty)

end Delivers

/-- **A read that is steady delivers the front of the stream**: into one segment whatever faults,
or into any segments without faults, the call returns or waits, the reader has got exactly the
bytes that left the pipe, and what it reports is their number. -/
theorem pipeRead_delivers {env : ReadEnv} {iov : List Nat} (nonblock : Bool) (pipe : Pipe)
    (hlen : iovLength iov ≤ ssizeMax) (hsteady : SteadyRead env iov) :
    ∃ ending, pipeReadCall env nonblock iov pipe = .ok ending ∧
      (0 < iovLength iov → ending.Delivers env pipe.stream (iovLength iov)) ∧
      (iovLength iov = 0 → ending = .returned 0 pipe []) := by
  unfold pipeReadCall
  rw [toNat_iovLength hlen]
  dsimp only
  split
  · rename_i hzero
    exact ⟨_, rfl, fun hpos => absurd hzero (Nat.ne_of_gt hpos), fun _ => rfl⟩
  · rename_i hpos
    have hstart : Gave env pipe.stream (iovLength iov) ⟨pipe, iov, [], 0, iovLength iov, 0⟩ 0 :=
      ⟨⟨rfl, rfl, Nat.zero_add _, Nat.zero_le _⟩, rfl, rfl, hsteady⟩
    have hround : ∀ r, (∃ n, Gave env pipe.stream (iovLength iov) r n) → RoundOk
        (fun r => ∃ n, Gave env pipe.stream (iovLength iov) r n)
        (ReadEnd.Delivers env pipe.stream (iovLength iov)) (fun r => r.pipe.nrbufs) r.pipe.nrbufs
        (readRound env nonblock r) :=
      fun r ⟨n, hr⟩ => roundOk_readRound hr
    obtain ⟨ending, hloop, hends⟩ :=
      loop_ok hround ⟨0, hstart⟩ (Nat.lt_succ_self pipe.nrbufs)
    exact ⟨ending, hloop, fun _ => hends, fun hzero => absurd hzero hpos⟩

/-! ## Readers and writers -/

/-- A pipe with the writers that sleep on it, what writers have appended to it and what readers
have got from it. -/
structure Fifo where
  pipe : Pipe
  waitingWriters : Nat
  written : List Byte
  delivered : List Byte

inductive PipeOp
  | write (isec tsec : BitVec 64) (env : DataEnv) (nonblock : Bool) (iov : List (List Byte))
  | read (env : ReadEnv) (nonblock : Bool) (iov : List Nat)
  /-- ends of the pipe are opened and closed -/
  | counts (info : PipeInodeInfo)

namespace Fifo

/-- A pipe as it is found. -/
def start (pipe : Pipe) : Fifo := ⟨pipe, 0, pipe.stream, []⟩

/-- A call, under the mutex of the inode; a call that waits starts again when it is woken.  A write
counts for the first bytes of its data, as many as the stream has grown by. -/
def step (s : Fifo) : PipeOp → Option Fifo
  | .write isec tsec env nonblock iov =>
      match pipeWrite isec tsec env nonblock [] iov s.pipe with
      | .ok (.returned _ pipe _) =>
          let n := pipe.stream.length - s.pipe.stream.length
          some { s with pipe := pipe, written := s.written ++ iov.flatten.take n }
      | .ok (.waits pipe _) => some { s with pipe := pipe, waitingWriters := s.waitingWriters + 1 }
      | .error _ => none
  | .read env nonblock iov =>
      match pipeReadCall { env with waitingWriters := s.waitingWriters } nonblock iov s.pipe with
      | .ok (.returned _ pipe got) => some { s with pipe := pipe, delivered := s.delivered ++ got }
      | .ok (.waits pipe got) => some { s with pipe := pipe, delivered := s.delivered ++ got }
      | .error _ => none
  | .counts info => some { s with pipe := { s.pipe with toPipeInodeInfo := info } }

/-- The calls of which no copy faults, and those in which no copy goes beyond one segment: reads
into a single segment, and writes each piece of which lies in one.  Lengths are within
`SSIZE_MAX`. -/
def SteadyOp (s : Fifo) : PipeOp → Prop
  | .write _ _ env _ iov => iov.flatten.length ≤ ssizeMax ∧
      Steady env (mergeLen s.pipe iov.flatten.length) (startWriting s.pipe iov [])
  | .read env _ iov => iovLength iov ≤ ssizeMax ∧ SteadyRead env iov
  | .counts _ => True

/-- The pipe is a queue, and no writer sleeps. -/
structure Queue (s : Fifo) : Prop where
  bytes : s.delivered ++ s.pipe.stream = s.written
  awake : s.waitingWriters = 0

theorem Queue.write {s s' : Fifo} (h : s.Queue) {isec tsec : BitVec 64} {env : DataEnv}
    {nonblock : Bool} {iov : List (List Byte)}
    (hguard : s.SteadyOp (.write isec tsec env nonblock iov))
    (hstep : s.step (.write isec tsec env nonblock iov) = some s') : s'.Queue := by
  obtain ⟨hlen, hsteady⟩ := hguard
  have hends : ∃ ending, pipeWrite isec tsec env nonblock [] iov s.pipe = .ok ending ∧
      ∃ room, Ends s.pipe.stream iov.flatten room ending := by
    by_cases hpos : 0 < iov.flatten.length
    · by_cases hreaders : s.pipe.readers = 0
      · refine ⟨.returned (-ePipe) s.pipe [], ?_, 0, 0, Nat.zero_le _, Nat.le_refl _, rfl,
          (List.append_nil _).symm, .inl (by decide)⟩
        unfold pipeWrite
        rw [iovLength_map, BitVec.toNat_ofNat,
          Nat.mod_eq_of_lt (Nat.lt_of_le_of_lt hlen (by decide))]
        dsimp only
        rw [if_neg (Nat.ne_of_gt hpos), if_pos hreaders]
      · obtain ⟨ending, hcall, hends⟩ := pipeWrite_ends hreaders hpos hlen hsteady
        exact ⟨ending, hcall, _, hends⟩
    · have hzero : iov.flatten.length = 0 := by omega
      refine ⟨.returned 0 s.pipe [], ?_, 0, 0, Nat.zero_le _, Nat.le_refl _, rfl,
        (List.append_nil _).symm, .inl (Int.le_refl 0)⟩
      unfold pipeWrite
      rw [iovLength_map, hzero]
      rfl
  obtain ⟨ending, hcall, room, hends⟩ := hends
  simp only [step, hcall] at hstep
  cases ending with
  | waits pipe drained => exact hends.elim
  | returned ret pipe drained =>
      obtain ⟨n, hn, -, -, hstream, -⟩ := hends
      obtain rfl := Option.some.inj hstep
      have hgrown : pipe.stream.length - s.pipe.stream.length = n := by
        rw [hstream, List.length_append, List.length_take]
        omega
      refine ⟨?_, h.awake⟩
      show s.delivered ++ pipe.stream = s.written ++ _
      rw [hgrown, hstream, ← List.append_assoc, h.bytes]

theorem Queue.read {s s' : Fifo} (h : s.Queue) {env : ReadEnv} {nonblock : Bool} {iov : List Nat}
    (hguard : s.SteadyOp (.read env nonblock iov))
    (hstep : s.step (.read env nonblock iov) = some s') : s'.Queue := by
  obtain ⟨hlen, hsteady⟩ := hguard
  obtain ⟨ending, hcall, hends, hnull⟩ := pipeRead_delivers nonblock s.pipe hlen
    (show SteadyRead { env with waitingWriters := s.waitingWriters } iov from hsteady)
  simp only [step, hcall] at hstep
  by_cases hpos : 0 < iovLength iov
  · have hends := hends hpos
    cases ending with
    | returned ret pipe got =>
        obtain rfl := Option.some.inj hstep
        refine ⟨?_, h.awake⟩
        show (s.delivered ++ got) ++ pipe.stream = s.written
        rw [List.append_assoc, hends.1, h.bytes]
    | waits pipe got =>
        obtain rfl := Option.some.inj hstep
        refine ⟨?_, h.awake⟩
        show (s.delivered ++ got) ++ pipe.stream = s.written
        rw [hends.1, hends.2.1, List.append_nil, h.bytes]
  · obtain rfl := hnull (by omega)
    obtain rfl := Option.some.inj hstep
    refine ⟨?_, h.awake⟩
    show (s.delivered ++ []) ++ s.pipe.stream = s.written
    rw [List.append_nil, h.bytes]

/-- **The pipe is a queue of bytes.**  In every run of reads and writes by any number of tasks, in
each of which no copy faults or no copy goes beyond one segment, what readers have got, followed
by what is buffered, is what writers have appended: nothing is lost in the pipe, doubled or
reordered. -/
theorem delivered_append_stream_of_run {pipe : Pipe} {ops : List PipeOp} {s : Fifo}
    (hrun : Run step SteadyOp (start pipe) ops s) : s.delivered ++ s.pipe.stream = s.written := by
  have hinit : (start pipe).Queue := ⟨rfl, rfl⟩
  refine (hrun.invariant hinit fun s op s' h hguard hstep => ?_).bytes
  cases op with
  | write isec tsec env nonblock iov => exact h.write hguard hstep
  | read env nonblock iov => exact h.read hguard hstep
  | counts info =>
      obtain rfl := Option.some.inj hstep
      exact ⟨h.bytes, h.awake⟩

/-- Two bytes are written, one is read, one more is written and two are read. -/
theorem delivered_append_stream_of_run_two : ∃ ops s, Run step SteadyOp (start emptyPipe) ops s ∧
    s.written = [1#8, 2#8, 3#8] ∧ s.delivered = [1#8, 2#8, 3#8] ∧
    s.delivered ++ s.pipe.stream = s.written := by
  have hsteady : ∀ (m : Nat) (w : Writing), Steady calmEnv m w := fun _ _ => .inl fun _ => rfl
  have hsteadyRead : ∀ iov, SteadyRead calmRead iov := fun _ => .inl fun _ => rfl
  have hrun : Run step SteadyOp (start emptyPipe)
      ([] ++ [.write 4096 8192 calmEnv false [[1#8, 2#8]]] ++ [.read calmRead false [1]] ++
        [.write 4096 8192 calmEnv false [[3#8]]] ++ [.read calmRead false [1, 4]]) _ :=
    .snoc (.snoc (.snoc (.snoc .nil ⟨by decide, hsteady _ _⟩ rfl)
      ⟨by decide, hsteadyRead _⟩ rfl) ⟨by decide, hsteady _ _⟩ rfl) ⟨by decide, hsteadyRead _⟩ rfl
  exact ⟨_, _, hrun, rfl, rfl, delivered_append_stream_of_run hrun⟩

end Fifo

/-! ## What `pipe_poll` and `FIONREAD` say -/

/-- No buffer that is in use is empty. -/
def Filled (pipe : Pipe) : Prop :=
  ∀ buf ∈ ringItems pipeBuffers_pos pipe.bufs pipe.curbuf pipe.nrbufs, buf.len ≠ 0

section Filled

variable {pipe : Pipe}

theorem mem_ringItems_setSlot {slots : Fin pipeBuffers → PageBuffer} {i : Fin pipeBuffers}
    {a buf : PageBuffer} {cur count : Nat}
    (h : buf ∈ ringItems pipeBuffers_pos (setSlot slots i a) cur count) :
    buf = a ∨ buf ∈ ringItems pipeBuffers_pos slots cur count := by
  obtain ⟨j, hj, rfl⟩ := List.mem_map.1 h
  by_cases hi : ringSlot pipeBuffers_pos cur j = i
  · exact .inl (if_pos hi)
  · right
    rw [setSlot, if_neg hi]
    exact List.mem_map_of_mem hj

theorem Filled.setBuf (h : Filled pipe) {i : Fin pipeBuffers} {buf : PageBuffer}
    (hbuf : buf.len ≠ 0) : Filled (pipe.setBuf i buf) := by
  intro b hb
  rcases mem_ringItems_setSlot hb with rfl | hb
  · exact hbuf
  · exact h b hb

theorem Filled.insert (h : Filled pipe) (hroom : pipe.nrbufs < pipeBuffers) {buf : PageBuffer}
    (hbuf : buf.len ≠ 0) : Filled (pipe.insert hroom buf) := by
  intro b hb
  rw [show ringItems pipeBuffers_pos (pipe.insert hroom buf).bufs (pipe.insert hroom buf).curbuf
    (pipe.insert hroom buf).nrbufs = _ from ringItems_push pipe.bufs pipe.curbuf hroom buf,
    List.mem_append, List.mem_singleton] at hb
  rcases hb with hb | rfl
  · exact h b hb
  · exact hbuf

theorem Filled.consume (h : Filled pipe) (hsome : pipe.nrbufs ≠ 0) (chars : Nat) :
    Filled (pipe.consume chars) := by
  intro b hb
  rw [Pipe.ringItems_consume hsome, List.mem_append] at hb
  rcases hb with hb | hb
  · split at hb
    · cases hb
    · rename_i hleft
      rw [List.mem_singleton.1 hb]
      exact hleft
  · refine h b ?_
    rw [Pipe.ringItems_eq hsome]
    exact List.mem_cons_of_mem _ hb

theorem Filled.last (h : Filled pipe) (hsome : pipe.nrbufs ≠ 0) :
    (pipe.bufs (pipe.place (pipe.nrbufs - 1))).len ≠ 0 := by
  refine h _ (List.mem_map.2 ⟨pipe.nrbufs - 1, List.mem_range.2 (by omega), rfl⟩)

/-- How a write ends: it returns, and leaves no empty buffer. -/
def WriteEnd.Fills : WriteEnd → Prop
  | .returned _ pipe _ => Filled pipe
  | .waits _ _ => False

variable {isec tsec : BitVec 64} {env : DataEnv} {nonblock : Bool} {total : Nat} {w : Writing}

theorem roundKeeps_tryMerge_filled (h : Filled w.pipe) (hpos : w.totalLen ≠ 0) :
    RoundKeeps (fun w => Filled w.pipe ∧ w.totalLen ≠ 0) WriteEnd.Fills (tryMerge env w) := by
  unfold tryMerge
  dsimp only
  split
  · rename_i hsome
    have hlast := h.last hsome.1
    split
    · split
      · exact h
      cases copyTwice env w.iov w.copies
          ((w.pipe.bufs (w.pipe.place (w.pipe.nrbufs - 1))).offset +
            (w.pipe.bufs (w.pipe.place (w.pipe.nrbufs - 1))).len) (w.totalLen % pageSize)
          (w.pipe.bufs (w.pipe.place (w.pipe.nrbufs - 1))).page with
      | error fault => exact trivial
      | ok out =>
          have hmerged : Filled (w.merged (w.totalLen % pageSize) out).pipe :=
            h.setBuf (show _ + _ ≠ 0 by omega)
          show RoundKeeps _ _ (if out.failed then _ else _)
          split
          · exact h.setBuf hlast
          split
          · exact hmerged
          · rename_i hmore
            exact ⟨hmerged, hmore⟩
    · exact ⟨h, hpos⟩
  · exact ⟨h, hpos⟩

theorem roundKeeps_writeRound_filled (h : Filled w.pipe) (hpos : w.totalLen ≠ 0) :
    RoundKeeps (fun w => Filled w.pipe ∧ w.totalLen ≠ 0) WriteEnd.Fills
      (writeRound isec tsec env nonblock total w) := by
  unfold writeRound
  dsimp only
  split
  · exact h
  split
  · rename_i hroom
    split
    · exact h
    · rename_i page _
      cases copyTwice env w.iov w.copies 0 (min pageSize w.totalLen) page with
      | error fault => exact trivial
      | ok out =>
          have hfilled : Filled (w.filled hroom (min pageSize w.totalLen) out).pipe := by
            refine h.insert hroom (show min pageSize w.totalLen ≠ 0 from ?_)
            have hpage : pageSize ≠ 0 := by decide
            omega
          show RoundKeeps _ _ (if out.failed then _ else _)
          split
          · exact h
          split
          · exact hfilled
          rename_i hmore
          split
          · exact ⟨hfilled, hmore⟩
          · rw [pipeFull_leaves]
            exact hfilled
  · rw [pipeFull_leaves]
    exact h

/-- A write returns, whatever happens, and leaves no empty buffer. -/
theorem pipeWrite_fills {reads : List (List Nat)} {iov : List (List Byte)} {ending : WriteEnd}
    (h : Filled pipe) (hcall : pipeWrite isec tsec env nonblock reads iov pipe = .ok ending) :
    ending.Fills := by
  unfold pipeWrite at hcall
  generalize (BitVec.ofNat 64 (iovLength (iov.map List.length))).toNat = totalLen at hcall
  dsimp only at hcall
  split at hcall
  · obtain rfl := Except.ok.inj hcall
    exact h
  rename_i hpos
  split at hcall
  · obtain rfl := Except.ok.inj hcall
    exact h
  have hmerge : RoundKeeps (fun w => Filled w.pipe ∧ w.totalLen ≠ 0) WriteEnd.Fills
      (tryMerge env ⟨pipe, iov, 0, totalLen, 0, reads, []⟩) := roundKeeps_tryMerge_filled h hpos
  obtain ⟨round, hround, hcall⟩ := bind_eq_ok.1 hcall
  rw [hround] at hmerge
  cases round with
  | leave ending' =>
      obtain rfl := Except.ok.inj hcall
      exact hmerge
  | next w =>
      have hkeep : ∀ w : Writing, Filled w.pipe ∧ w.totalLen ≠ 0 → RoundKeeps
          (fun w => Filled w.pipe ∧ w.totalLen ≠ 0) WriteEnd.Fills
          (writeRound isec tsec env nonblock totalLen w) :=
        fun w hw => roundKeeps_writeRound_filled hw.1 hw.2
      exact loop_keeps hkeep hmerge hcall

theorem pipe_pipeEmpty {env : ReadEnv} {r : Reading} :
    (pipeEmpty env nonblock r).pipe = r.pipe := by
  unfold pipeEmpty
  split
  · rfl
  split
  · rfl
  split
  · rfl
  split <;> rfl

theorem roundKeeps_readRound_filled {env : ReadEnv} {r : Reading} (h : Filled r.pipe) :
    RoundKeeps (fun r => Filled r.pipe) (fun ending => Filled ending.pipe)
      (readRound env nonblock r) := by
  unfold readRound
  split
  · rename_i hsome
    dsimp only
    split
    · exact h
    cases copyOut env r.iov r.copies
        (r.pipe.first.bytes.take (min r.pipe.first.len r.totalLen)) with
    | error fault => exact trivial
    | ok out =>
        have htook : Filled (r.took (min r.pipe.first.len r.totalLen) out).pipe :=
          h.consume hsome _
        show RoundKeeps _ _ (if out.failed then _ else _)
        split
        · exact h
        split
        · exact htook
        split
        · exact htook
        · show Filled (pipeEmpty ..).pipe
          rw [pipe_pipeEmpty]
          exact htook
  · show Filled (pipeEmpty ..).pipe
    rw [pipe_pipeEmpty]
    exact h

theorem pipeReadCall_filled {env : ReadEnv} {iov : List Nat} {ending : ReadEnd} (h : Filled pipe)
    (hcall : pipeReadCall env nonblock iov pipe = .ok ending) : Filled ending.pipe := by
  unfold pipeReadCall at hcall
  dsimp only at hcall
  split at hcall
  · obtain rfl := Except.ok.inj hcall
    exact h
  · have hkeep : ∀ r : Reading, Filled r.pipe → RoundKeeps (fun r => Filled r.pipe)
        (fun ending => Filled ending.pipe) (readRound env nonblock r) :=
      fun r hr => roundKeeps_readRound_filled hr
    exact loop_keeps hkeep h hcall

end Filled

theorem length_flatMap_bytes (bufs : List PageBuffer) :
    (bufs.flatMap PageBuffer.bytes).length = (bufs.map fun buf => buf.len).foldl (· + ·) 0 := by
  have hacc : ∀ (bufs : List PageBuffer) (acc : Nat),
      acc + (bufs.flatMap PageBuffer.bytes).length =
        (bufs.map fun buf => buf.len).foldl (· + ·) acc := by
    intro bufs
    induction bufs with
    | nil => exact fun _ => rfl
    | cons buf bufs ih =>
        intro acc
        rw [List.flatMap_cons, List.length_append, PageBuffer.length_bytes, List.map_cons,
          List.foldl_cons, ← ih, Nat.add_assoc]
  rw [← hacc bufs 0, Nat.zero_add]

/-- `FIONREAD` counts the buffered bytes. -/
theorem fionread_eq (pipe : Pipe) : fionread pipe = pipe.stream.length := by
  rw [Pipe.stream, length_flatMap_bytes, ringItems, List.map_map, List.foldl_map]
  rfl

theorem Filled.stream_ne_nil {pipe : Pipe} (h : Filled pipe) (hsome : pipe.nrbufs ≠ 0) :
    pipe.stream ≠ [] := by
  have hfirst : pipe.first.len ≠ 0 := by
    refine h _ ?_
    rw [Pipe.ringItems_eq hsome]
    exact List.mem_cons_self
  intro hnil
  rw [Pipe.stream_eq_first hsome, List.append_eq_nil_iff] at hnil
  rw [← PageBuffer.length_bytes, hnil.1] at hfirst
  exact hfirst rfl

/-- `POLLIN` says that there is a buffer. -/
theorem pipePoll_pollIn (pipe : Pipe) (modeWrite : Bool) (fVersion : BitVec 32) :
    pipePoll pipe true modeWrite fVersion &&& pollIn = pollIn ↔ pipe.nrbufs ≠ 0 := by
  have hbits : ∀ a b c d : Bool, (pollBits a pollIn ||| pollBits b pollHup |||
      pollBits c pollOut ||| pollBits d pollErr) &&& pollIn = pollIn ↔ a = true := by
    decide
  rw [pipePoll, hbits, Bool.true_and, decide_eq_true_eq, Nat.pos_iff_ne_zero]

namespace Fifo

/-- No empty buffer is in use and no writer sleeps. -/
structure Ready (s : Fifo) : Prop where
  filled : Filled s.pipe
  awake : s.waitingWriters = 0

theorem Ready.step {s s' : Fifo} (h : s.Ready) {op : PipeOp} (hstep : s.step op = some s') :
    s'.Ready := by
  cases op with
  | write isec tsec env nonblock iov =>
      simp only [Fifo.step] at hstep
      split at hstep
      · rename_i hcall
        obtain rfl := Option.some.inj hstep
        exact ⟨pipeWrite_fills h.filled hcall, h.awake⟩
      · rename_i hcall
        exact (pipeWrite_fills h.filled hcall).elim
      · cases hstep
  | read env nonblock iov =>
      simp only [Fifo.step] at hstep
      split at hstep
      · rename_i hcall
        obtain rfl := Option.some.inj hstep
        exact ⟨pipeReadCall_filled h.filled hcall, h.awake⟩
      · rename_i hcall
        obtain rfl := Option.some.inj hstep
        exact ⟨pipeReadCall_filled h.filled hcall, h.awake⟩
      · cases hstep
  | counts info =>
      obtain rfl := Option.some.inj hstep
      exact ⟨h.filled, h.awake⟩

end Fifo

/-- A read of an empty pipe that must not sleep. -/
theorem pipeReadCall_nonblock {env : ReadEnv} {iov : List Nat} {pipe : Pipe}
    (hwaiting : env.waitingWriters = 0) (hlen : iovLength iov ≤ ssizeMax)
    (hpos : 0 < iovLength iov) (hempty : pipe.nrbufs = 0) :
    pipeReadCall env true iov pipe =
      .ok (.returned (if pipe.writers = 0 then 0 else -eAgain) pipe []) := by
  unfold pipeReadCall
  rw [toNat_iovLength hlen]
  dsimp only
  rw [if_neg (Nat.ne_of_gt hpos), hempty]
  refine bind_eq_ok.2 ⟨.leave (pipeEmpty env true ⟨pipe, iov, [], 0, iovLength iov, 0⟩), ?_, ?_⟩
  · rw [readRound, if_neg (Decidable.not_not.2 hempty)]
  · refine congrArg Except.ok ?_
    unfold pipeEmpty
    dsimp only
    split
    · rfl
    · rw [if_neg (fun h => h.2 rfl), if_pos ⟨hwaiting, rfl⟩]

/-- **`pipe_poll`, `FIONREAD` and `pipe_read` agree in every state that any run of reads and
writes can reach**, whatever faults on the way.  A read that nothing disturbs and that must not
sleep returns as many bytes as `FIONREAD` counts and were asked for; `POLLIN` says that these are
not none, and without it the call reports the end of the data or `-EAGAIN`. -/
theorem poll_fionread_read_agree {pipe : Pipe} (hpipe : Filled pipe) {ops : List PipeOp} {s : Fifo}
    (hrun : Run Fifo.step (fun _ _ => True) (Fifo.start pipe) ops s) {env : ReadEnv}
    {iov : List Nat} (hcalm : Calm env) (hlen : iovLength iov ≤ ssizeMax)
    (hpos : 0 < iovLength iov) (modeWrite : Bool) (fVersion : BitVec 32) :
    ∃ ret pipe' got,
      pipeReadCall { env with waitingWriters := s.waitingWriters } true iov s.pipe =
        .ok (.returned ret pipe' got) ∧
      got ++ pipe'.stream = s.pipe.stream ∧
      got.length = min (iovLength iov) (fionread s.pipe) ∧
      (pipePoll s.pipe true modeWrite fVersion &&& pollIn = pollIn → ret = got.length ∧ 0 < ret) ∧
      (pipePoll s.pipe true modeWrite fVersion &&& pollIn ≠ pollIn →
        ret = if s.pipe.writers = 0 then 0 else -eAgain) := by
  have hinit : (Fifo.start pipe).Ready := ⟨hpipe, rfl⟩
  have hready : s.Ready := hrun.invariant hinit fun _ _ _ h _ hstep => h.step hstep
  have hcalm' : Calm { env with waitingWriters := s.waitingWriters } := hcalm
  rw [fionread_eq, Ne, pipePoll_pollIn]
  by_cases hsome : s.pipe.nrbufs = 0
  · refine ⟨_, _, _, pipeReadCall_nonblock hready.awake hlen hpos hsome, rfl, ?_,
      fun hne => absurd hsome hne, fun _ => rfl⟩
    rw [Pipe.stream_eq_nil hsome]
    exact (Nat.min_zero _).symm
  · have hstream := List.length_pos_iff.2 (hready.filled.stream_ne_nil hsome)
    obtain ⟨ending, hcall, hends, -⟩ :=
      pipeRead_delivers true s.pipe hlen (.inl hcalm'.1 : SteadyRead _ iov)
    have hends := hends hpos
    cases ending with
    | waits pipe' got =>
        rw [hends.2.2 hready.awake] at hstream
        cases hstream
    | returned ret pipe' got =>
        obtain ⟨hbytes, -, hret, hcount⟩ := hends
        have hcount := hcount hcalm'
        refine ⟨ret, pipe', got, hcall, hbytes, hcount, fun _ => ?_, fun hno => absurd hsome hno⟩
        rcases hret with hret | ⟨hzero, -⟩
        · exact ⟨hret, by omega⟩
        · omega

/-- Two bytes are written and eight are asked for. -/
theorem poll_fionread_read_agree_two :
    ∃ ops s, Run Fifo.step (fun _ _ => True) (Fifo.start emptyPipe) ops s ∧
      fionread s.pipe = 2 ∧ pipePoll s.pipe true false 0#32 &&& pollIn = pollIn ∧
      ∃ ret pipe' got,
        pipeReadCall { calmRead with waitingWriters := s.waitingWriters } true [8] s.pipe =
          .ok (.returned ret pipe' got) ∧
        got ++ pipe'.stream = s.pipe.stream ∧ got.length = min 8 (fionread s.pipe) ∧
        (pipePoll s.pipe true false 0#32 &&& pollIn = pollIn → ret = got.length ∧ 0 < ret) ∧
        (pipePoll s.pipe true false 0#32 &&& pollIn ≠ pollIn →
          ret = if s.pipe.writers = 0 then 0 else -eAgain) := by
  have hfilled : Filled emptyPipe := fun _ hb => absurd hb List.not_mem_nil
  have hrun : Run Fifo.step (fun _ _ => True) (Fifo.start emptyPipe)
      ([] ++ [.write 4096 8192 calmEnv false [[1#8, 2#8]]]) _ := .snoc .nil trivial rfl
  exact ⟨_, _, hrun, rfl, rfl, poll_fionread_read_agree hfilled hrun
    ⟨fun _ => rfl, fun _ => rfl⟩ (by decide) (by decide) false 0#32⟩

end Laminar.Vfs.Data
