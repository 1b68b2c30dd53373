import Laminar.Lib.Bytes
import Laminar.Lib.Ring
import Laminar.Vfs.PipeWrite

/-!
# The data in a pipe

`pipe_write` once more, now with the bytes: the pages of the buffers, the memory behind the
`iovec`, and what other tasks read while the writer waits.  Forgetting the bytes gives back the
call of `Vfs.PipeWrite`, which counts lengths only (`pipeWrite_lengths`).

A copy from user memory that faults leaves something in the page, and the segments it was done
with are used up.  The second attempt writes to the same place in the page, but goes on in the
`iovec` where the first one stopped.
-/

namespace Laminar.Vfs.Data

open Laminar.Lib Laminar.Kernel

/-! ## State -/

/-- The contents of a page. -/
abbrev Page := Nat → Byte

/-- The page after `bytes` were written to it from `dst` on. -/
def writeBytes (page : Page) (dst : Nat) (bytes : List Byte) : Page :=
  fun i => if dst ≤ i then (bytes[i - dst]?).getD (page i) else page i

/-- The `len` bytes of a page from `pos` on. -/
def pageBytes (page : Page) (pos len : Nat) : List Byte :=
  (List.range len).map fun i => page (pos + i)

/-- `struct pipe_buffer` with its page. -/
structure PageBuffer extends PipeBuffer where
  page : Page

/-- The bytes that a buffer holds. -/
def PageBuffer.bytes (buf : PageBuffer) : List Byte := pageBytes buf.page buf.offset buf.len

/-- `struct pipe_inode_info` with its buffers and the spare page. -/
structure Pipe extends PipeInodeInfo where
  nrbufs : Nat
  curbuf : Nat
  tmpPage : Option Page
  bufs : Fin pipeBuffers → PageBuffer
  nrbufs_le : nrbufs ≤ pipeBuffers

/-- The buffer `i` places after `curbuf`. -/
def Pipe.place (pipe : Pipe) (i : Nat) : Fin pipeBuffers := ringSlot (by decide) pipe.curbuf i

def Pipe.setBuf (pipe : Pipe) (i : Fin pipeBuffers) (buf : PageBuffer) : Pipe :=
  { pipe with bufs := setSlot pipe.bufs i buf }

/-- The byte stream held in the buffers. -/
def Pipe.stream (pipe : Pipe) : List Byte :=
  (ringItems (by decide) pipe.bufs pipe.curbuf pipe.nrbufs).flatMap PageBuffer.bytes

/-- What happens outside the call.  To what `Vfs.PipeWrite` asks for comes how many bytes a copy
that faults has moved, and what is in a new page. -/
structure DataEnv extends WriteEnv where
  moved : Nat → Nat
  newPage : Page

/-- The variables of `pipe_write`.  `reads` is what other tasks are going to read each time the
writer waits, `drained` what they have read. -/
structure Writing where
  pipe : Pipe
  iov : List (List Byte)
  copies : Nat
  totalLen : Nat
  ret : Int
  reads : List (List Nat)
  drained : List Byte

/-- How `pipe_write` ends: it returns, or it waits and nobody reads any more. -/
inductive WriteEnd
  | returned (ret : Int) (pipe : Pipe) (drained : List Byte)
  | waits (pipe : Pipe) (drained : List Byte)

/-! ## Copies -/

/-- What a copy leaves behind. -/
structure Copied where
  failed : Bool
  iov : List (List Byte)
  copies : Nat
  page : Page

/-- `pipe_iov_copy_from_user`. -/
def pipeIovCopyFromUser (env : DataEnv) :
    List (List Byte) → Nat → Nat → Nat → Page → Except WriteFault Copied
  | [], copies, _, len, page =>
      if len = 0 then .ok ⟨false, [], copies, page⟩ else .error .pastIovec
  | seg :: segs, copies, dst, len, page =>
      if len = 0 then .ok ⟨false, seg :: segs, copies, page⟩
      else if seg.length = 0 then pipeIovCopyFromUser env segs copies dst len page
      else if env.fault copies then
        .ok ⟨true, seg :: segs, copies + 1,
          writeBytes page dst ((seg.take len).take (env.moved copies))⟩
      else if len ≤ seg.length then
        .ok ⟨false, seg.drop len :: segs, copies + 1, writeBytes page dst (seg.take len)⟩
      else
        pipeIovCopyFromUser env segs (copies + 1) (dst + seg.length) (len - seg.length)
          (writeBytes page dst seg)

/-- A copy that fails is tried once more, to the same place. -/
def copyTwice (env : DataEnv) (iov : List (List Byte)) (copies dst len : Nat) (page : Page) :
    Except WriteFault Copied := do
  let out ← pipeIovCopyFromUser env iov copies dst len page
  if out.failed then pipeIovCopyFromUser env out.iov out.copies dst len out.page else return out

/-! ## Readers -/

/-- `anon_pipe_buf_release` of the first buffer: its page becomes the spare one if there is
none. -/
def Pipe.release (pipe : Pipe) : Pipe where
  toPipeInodeInfo := pipe.toPipeInodeInfo
  nrbufs := pipe.nrbufs - 1
  curbuf := (pipe.curbuf + 1) % pipeBuffers
  tmpPage := pipe.tmpPage.or (some (pipe.bufs (pipe.place 0)).page)
  bufs := pipe.bufs
  nrbufs_le := Nat.le_trans (Nat.sub_le ..) pipe.nrbufs_le

/-- What `pipe_read` takes out of at most so many buffers, and the pipe after it. -/
def pipeRead : Nat → Nat → Pipe → List Byte × Pipe
  | 0, _, pipe => ([], pipe)
  | bufs + 1, totalLen, pipe =>
      let buf := pipe.bufs (pipe.place 0)
      if totalLen = 0 then ([], pipe)
      else if totalLen < buf.len then
        (buf.bytes.take totalLen, pipe.setBuf (pipe.place 0)
          { buf with offset := buf.offset + totalLen, len := buf.len - totalLen })
      else
        let (bytes, pipe) := pipeRead bufs (totalLen - buf.len) pipe.release
        (buf.bytes ++ bytes, pipe)

/-- The reads of one wait, one after the other. -/
def pipeReads : List Nat → Pipe → List Byte × Pipe
  | [], pipe => ([], pipe)
  | totalLen :: sizes, pipe =>
      let (bytes, pipe) := pipeRead pipe.nrbufs totalLen pipe
      let (more, pipe) := pipeReads sizes pipe
      (bytes ++ more, pipe)

/-! ## The call -/

/-- The variables after `chars` bytes were appended to the last buffer. -/
def Writing.merged (w : Writing) (chars : Nat) (out : Copied) : Writing :=
  let lastbuf := w.pipe.place (w.pipe.nrbufs - 1)
  let buf := w.pipe.bufs lastbuf
  { w with
    pipe := w.pipe.setBuf lastbuf { buf with len := buf.len + chars, page := out.page }
    iov := out.iov
    copies := out.copies
    totalLen := w.totalLen - chars
    ret := chars }

/-- The pipe after a new buffer was inserted into the array. -/
def Pipe.insert (pipe : Pipe) (h : pipe.nrbufs < pipeBuffers) (buf : PageBuffer) : Pipe where
  toPipeInodeInfo := pipe.toPipeInodeInfo
  nrbufs := pipe.nrbufs + 1
  curbuf := pipe.curbuf
  tmpPage := none
  bufs := setSlot pipe.bufs (pipe.place pipe.nrbufs) buf
  nrbufs_le := h

/-- The variables after `chars` bytes were put into a new buffer. -/
def Writing.filled (w : Writing) (h : w.pipe.nrbufs < pipeBuffers) (chars : Nat) (out : Copied) :
    Writing :=
  { w with
    pipe := w.pipe.insert h ⟨⟨0, chars, true⟩, out.page⟩
    iov := out.iov
    copies := out.copies
    totalLen := w.totalLen - chars
    ret := w.ret + chars }

/-- The variables after a wait. -/
def Writing.waited (w : Writing) (sizes : List Nat) (reads : List (List Nat)) : Writing :=
  { w with
    pipe := (pipeReads sizes w.pipe).2
    reads := reads
    drained := w.drained ++ (pipeReads sizes w.pipe).1 }

section Write

variable (isec tsec : BitVec 64) (env : DataEnv) (nonblock : Bool) (totalLenSaved : Nat)

/-- The first part: append to the last buffer. -/
def tryMerge (w : Writing) : Except WriteFault (Round WriteEnd Writing) :=
  let chars := w.totalLen % pageSize
  let lastbuf := w.pipe.place (w.pipe.nrbufs - 1)
  let buf := w.pipe.bufs lastbuf
  if w.pipe.nrbufs ≠ 0 ∧ chars ≠ 0 then
    if buf.canMerge ∧ buf.offset + buf.len + chars ≤ pageSize then
      if env.pin ≠ 0 then .ok (.leave (.returned w.ret w.pipe w.drained))
      else do
        let out ← copyTwice env w.iov w.copies (buf.offset + buf.len) chars buf.page
        if out.failed then
          return .leave (.returned (-eFault)
            (w.pipe.setBuf lastbuf { buf with page := out.page }) w.drained)
        else if w.totalLen - chars = 0 then
          return .leave (.returned (w.merged chars out).ret (w.merged chars out).pipe w.drained)
        else return .next (w.merged chars out)
    else .ok (.next w)
  else .ok (.next w)

/-- The end of a round that finds the pipe full. -/
def pipeFull (w : Writing) : Round WriteEnd Writing :=
  if difcPipeFull isec tsec ≠ 0 then .leave (.returned (toSsize totalLenSaved) w.pipe w.drained)
  else if nonblock then .leave (.returned (retOr w.ret (-eAgain)) w.pipe w.drained)
  else if env.signalPending then .leave (.returned (retOr w.ret (-eRestartsys)) w.pipe w.drained)
  else match w.reads with
    | [] => .leave (.waits w.pipe w.drained)
    | sizes :: reads => .next (w.waited sizes reads)

/-- The page for the next buffer: the spare one, or a new one. -/
def pageFor (pipe : Pipe) : Option Page :=
  pipe.tmpPage.or (if env.allocPage pipe.nrbufs then some env.newPage else none)

/-- A round of the loop. -/
def writeRound (w : Writing) : Except WriteFault (Round WriteEnd Writing) :=
  let chars := min pageSize w.totalLen
  if w.pipe.readers = 0 then .ok (.leave (.returned (retOr w.ret (-ePipe)) w.pipe w.drained))
  else if h : w.pipe.nrbufs < pipeBuffers then
    match pageFor env w.pipe with
    | none => .ok (.leave (.returned (retOr w.ret (-eNomem)) w.pipe w.drained))
    | some page => do
        let out ← copyTwice env w.iov w.copies 0 chars page
        if out.failed then
          return .leave (.returned (retOr w.ret (-eFault))
            { w.pipe with tmpPage := some out.page } w.drained)
        else if w.totalLen - chars = 0 then
          return .leave (.returned (w.filled h chars out).ret (w.filled h chars out).pipe w.drained)
        else if w.pipe.nrbufs + 1 < pipeBuffers then return .next (w.filled h chars out)
        else return pipeFull isec tsec env nonblock totalLenSaved (w.filled h chars out)
  else .ok (pipeFull isec tsec env nonblock totalLenSaved w)

end Write

/-- `pipe_write`.  Every round but the last before a wait fills a buffer. -/
def pipeWrite (isec tsec : BitVec 64) (env : DataEnv) (nonblock : Bool) (reads : List (List Nat))
    (iov : List (List Byte)) (pipe : Pipe) : Except WriteFault WriteEnd :=
  let totalLen := (BitVec.ofNat 64 (iovLength (iov.map List.length))).toNat
  if totalLen = 0 then .ok (.returned 0 pipe [])
  else if pipe.readers = 0 then .ok (.returned (-ePipe) pipe [])
  else do
    match ← tryMerge env ⟨pipe, iov, 0, totalLen, 0, reads, []⟩ with
    | .leave ending => return ending
    | .next w =>
        loop (writeRound isec tsec env nonblock totalLen) .tooManyRounds
          ((pipeBuffers + 1) * (reads.length + 1)) w

/-! ## Pages -/

theorem length_pageBytes (page : Page) (pos len : Nat) : (pageBytes page pos len).length = len := by
  rw [pageBytes, List.length_map, List.length_range]

theorem pageBytes_add (page : Page) (pos m n : Nat) :
    pageBytes page pos (m + n) = pageBytes page pos m ++ pageBytes page (pos + m) n := by
  unfold pageBytes
  rw [List.range_add, List.map_append, List.map_map]
  refine congrArg _ (List.map_congr_left fun i _ => ?_)
  rw [Function.comp_apply, Nat.add_assoc]

/-- Bytes that stay as they are. -/
theorem pageBytes_congr {page page' : Page} {pos len : Nat}
    (h : ∀ i < pos + len, page' i = page i) : pageBytes page' pos len = pageBytes page pos len :=
  List.map_congr_left fun _ hi => h _ (Nat.add_lt_add_left (List.mem_range.1 hi) pos)

theorem writeBytes_of_lt (page : Page) {dst i : Nat} (bytes : List Byte) (h : i < dst) :
    writeBytes page dst bytes i = page i :=
  if_neg (Nat.not_le.2 h)

/-- What was written is there. -/
theorem pageBytes_writeBytes (page : Page) (dst : Nat) (bytes : List Byte) :
    pageBytes (writeBytes page dst bytes) dst bytes.length = bytes := by
  refine List.ext_getElem? fun i => ?_
  rw [pageBytes, List.getElem?_map]
  by_cases hi : i < bytes.length
  · rw [List.getElem?_range hi, Option.map_some, writeBytes, if_pos (Nat.le_add_right dst i),
      Nat.add_sub_cancel_left, List.getElem?_eq_getElem hi, Option.getD_some]
  · have hend : bytes.length ≤ i := Nat.not_lt.1 hi
    rw [List.getElem?_eq_none (by rwa [List.length_range]), List.getElem?_eq_none hend,
      Option.map_none]

/-! ## The stream -/

/-- A buffer that is inserted comes last. -/
theorem Pipe.stream_insert (pipe : Pipe) (h : pipe.nrbufs < pipeBuffers) (buf : PageBuffer) :
    (pipe.insert h buf).stream = pipe.stream ++ buf.bytes := by
  unfold Pipe.stream Pipe.insert Pipe.place
  dsimp only
  rw [ringItems_push pipe.bufs pipe.curbuf h buf, List.flatMap_append, List.flatMap_singleton]

/-- A write to the last buffer, seen in the stream. -/
theorem Pipe.stream_setBuf_last (pipe : Pipe) (hsome : pipe.nrbufs ≠ 0) {buf : PageBuffer}
    {more : List Byte}
    (hbuf : buf.bytes = (pipe.bufs (pipe.place (pipe.nrbufs - 1))).bytes ++ more) :
    (pipe.setBuf (pipe.place (pipe.nrbufs - 1)) buf).stream = pipe.stream ++ more := by
  obtain ⟨n, hn⟩ : ∃ n, pipe.nrbufs = n + 1 := Nat.exists_eq_succ_of_ne_zero hsome
  have hle : n < pipeBuffers := by
    have hbound := pipe.nrbufs_le
    omega
  have hlast : pipe.nrbufs - 1 = n := by omega
  rw [hlast] at hbuf ⊢
  unfold Pipe.stream Pipe.setBuf
  dsimp only
  rw [hn, Pipe.place, ringItems_push pipe.bufs pipe.curbuf hle buf, ringItems_succ,
    List.flatMap_append, List.flatMap_append, List.flatMap_singleton, List.flatMap_singleton, hbuf,
    List.append_assoc]
  rfl

/-! ## Forgetting the bytes -/

def Pipe.lengths (pipe : Pipe) : BufferedPipe where
  toPipeInodeInfo := pipe.toPipeInodeInfo
  nrbufs := pipe.nrbufs
  curbuf := pipe.curbuf
  tmpPage := pipe.tmpPage.isSome
  bufs i := (pipe.bufs i).toPipeBuffer

def Writing.lengths (w : Writing) : Vfs.Writing where
  pipe := w.pipe.lengths
  iov := w.iov.map List.length
  copies := w.copies
  totalLen := w.totalLen
  ret := w.ret

def WriteEnd.lengths : WriteEnd → Vfs.WriteEnd
  | .returned ret pipe _ => .returned ret pipe.lengths
  | .waits pipe _ => .waits pipe.lengths

def Copied.lengths (out : Copied) : Bool × List Nat × Nat :=
  (out.failed, out.iov.map List.length, out.copies)

theorem pipeIovCopyFromUser_lengths (env : DataEnv) (iov : List (List Byte))
    (copies dst len : Nat) (page : Page) :
    (pipeIovCopyFromUser env iov copies dst len page).map Copied.lengths =
      Vfs.pipeIovCopyFromUser env.fault (iov.map List.length) copies len := by
  induction iov generalizing copies dst len page with
  | nil =>
      rw [pipeIovCopyFromUser, List.map_nil, Vfs.pipeIovCopyFromUser]
      split <;> rfl
  | cons seg segs ih =>
      rw [pipeIovCopyFromUser, List.map_cons, Vfs.pipeIovCopyFromUser]
      split
      · rfl
      split
      · exact ih ..
      split
      · rfl
      split
      · rw [Except.map, Copied.lengths, List.map_cons, List.length_drop]
      · exact ih ..

theorem copyTwice_lengths (env : DataEnv) (iov : List (List Byte)) (copies dst len : Nat)
    (page : Page) :
    (copyTwice env iov copies dst len page).map Copied.lengths =
      Vfs.copyTwice env.fault (iov.map List.length) copies len := by
  rw [copyTwice, Vfs.copyTwice, ← pipeIovCopyFromUser_lengths env iov copies dst len page]
  cases pipeIovCopyFromUser env iov copies dst len page with
  | error fault => rfl
  | ok out =>
      obtain ⟨_ | _, iov', copies', page'⟩ := out
      · rfl
      · exact pipeIovCopyFromUser_lengths env iov' copies' dst len page'

/-- The rounds of the two calls, branch by branch. -/
private theorem map_ite_lengths {c c' : Prop} {_ : Decidable c} {_ : Decidable c'} (hc : c ↔ c')
    {x y : Except WriteFault (Round WriteEnd Writing)}
    {x' y' : Except WriteFault (Round Vfs.WriteEnd Vfs.Writing)}
    (hx : x.map (Round.map WriteEnd.lengths Writing.lengths) = x')
    (hy : y.map (Round.map WriteEnd.lengths Writing.lengths) = y') :
    (if c then x else y).map (Round.map WriteEnd.lengths Writing.lengths) =
      if c' then x' else y' := by
  by_cases h : c
  · rw [if_pos h, if_pos (hc.1 h), hx]
  · rw [if_neg h, if_neg (mt hc.2 h), hy]

private theorem leave_lengths {v : WriteEnd} {v' : Vfs.WriteEnd} (h : v.lengths = v') :
    (Except.ok (.leave v) : Except WriteFault (Round WriteEnd Writing)).map
      (Round.map WriteEnd.lengths Writing.lengths) = .ok (.leave v') := by
  rw [← h]
  rfl

private theorem next_lengths {w : Writing} {w' : Vfs.Writing} (h : w.lengths = w') :
    (Except.ok (.next w) : Except WriteFault (Round WriteEnd Writing)).map
      (Round.map WriteEnd.lengths Writing.lengths) = .ok (.next w') := by
  rw [← h]
  rfl

/-- A round that goes on after a copy forgets what the copy and the rest forget. -/
private theorem map_bind_lengths {copy : Except WriteFault Copied}
    {copy' : Except WriteFault (Bool × List Nat × Nat)} (hcopy : copy.map Copied.lengths = copy')
    {rest : Copied → Except WriteFault (Round WriteEnd Writing)}
    {rest' : Bool × List Nat × Nat → Except WriteFault (Round Vfs.WriteEnd Vfs.Writing)}
    (hrest : ∀ out, (rest out).map (Round.map WriteEnd.lengths Writing.lengths) =
      rest' out.lengths) :
    (copy >>= rest).map (Round.map WriteEnd.lengths Writing.lengths) = copy' >>= rest' := by
  subst hcopy
  cases copy with
  | error fault => rfl
  | ok out => exact hrest out

theorem lengths_setSlot (bufs : Fin pipeBuffers → PageBuffer) (i : Fin pipeBuffers)
    (buf : PageBuffer) :
    (fun j => (setSlot bufs i buf j).toPipeBuffer) =
      fun j => if j = i then buf.toPipeBuffer else (bufs j).toPipeBuffer := by
  funext j
  rw [setSlot]
  split <;> rfl

theorem Pipe.lengths_setBuf (pipe : Pipe) (i : Fin pipeBuffers) (buf : PageBuffer) :
    (pipe.setBuf i buf).lengths = pipe.lengths.setBuf i buf.toPipeBuffer :=
  congrArg (BufferedPipe.mk pipe.toPipeInodeInfo pipe.nrbufs pipe.curbuf pipe.tmpPage.isSome)
    (lengths_setSlot pipe.bufs i buf)

theorem BufferedPipe.setBuf_self (pipe : BufferedPipe) (i : Fin pipeBuffers) :
    pipe.setBuf i (pipe.bufs i) = pipe := by
  have hsame : (fun j => if j = i then pipe.bufs i else pipe.bufs j) = pipe.bufs := by
    funext j
    split <;> simp_all
  rw [BufferedPipe.setBuf, hsame]

theorem Pipe.lengths_insert (pipe : Pipe) (h : pipe.nrbufs < pipeBuffers) (buf : PageBuffer) :
    (pipe.insert h buf).lengths =
      { pipe.lengths.setBuf (pipe.lengths.place pipe.nrbufs) buf.toPipeBuffer with
        nrbufs := pipe.nrbufs + 1, tmpPage := false } :=
  congrArg (BufferedPipe.mk pipe.toPipeInodeInfo (pipe.nrbufs + 1) pipe.curbuf false)
    (lengths_setSlot pipe.bufs (pipe.place pipe.nrbufs) buf)

theorem Writing.lengths_merged (w : Writing) (chars : Nat) (out : Copied) :
    (w.merged chars out).lengths =
      w.lengths.merged chars (out.iov.map List.length) out.copies := by
  rw [Writing.merged, Writing.lengths, Pipe.lengths_setBuf]
  rfl

theorem Writing.lengths_filled (w : Writing) (h : w.pipe.nrbufs < pipeBuffers) (chars : Nat)
    (out : Copied) :
    (w.filled h chars out).lengths =
      w.lengths.filled chars (out.iov.map List.length) out.copies := by
  rw [Writing.filled, Writing.lengths, Pipe.lengths_insert]
  rfl

section Lengths

variable (isec tsec : BitVec 64) (env : DataEnv) (nonblock : Bool) (totalLenSaved : Nat)

theorem tryMerge_lengths (w : Writing) :
    (tryMerge env w).map (Round.map WriteEnd.lengths Writing.lengths) =
      Vfs.tryMerge env.toWriteEnv w.lengths := by
  unfold tryMerge Vfs.tryMerge
  refine map_ite_lengths Iff.rfl (map_ite_lengths Iff.rfl (map_ite_lengths Iff.rfl rfl ?_) rfl) rfl
  refine map_bind_lengths (copyTwice_lengths ..) fun out => ?_
  refine map_ite_lengths Iff.rfl ?_ (map_ite_lengths Iff.rfl ?_ ?_)
  · -- a failed copy changes the page behind the bytes of the buffer, and no length
    refine leave_lengths (congrArg (Vfs.WriteEnd.returned (-eFault)) ?_)
    rw [Pipe.lengths_setBuf]
    exact BufferedPipe.setBuf_self ..
  · exact leave_lengths (congrArg (fun v : Vfs.Writing => Vfs.WriteEnd.returned v.ret v.pipe)
      (w.lengths_merged _ out))
  · exact next_lengths (w.lengths_merged _ out)

theorem pipeFull_leaves (w : Writing) :
    pipeFull isec tsec env nonblock totalLenSaved w =
      .leave (.returned (toSsize totalLenSaved) w.pipe w.drained) := by
  rw [pipeFull, difcPipeFull_eq_one, if_pos (by decide)]

theorem pipeFull_lengths (w : Writing) :
    (pipeFull isec tsec env nonblock totalLenSaved w).map WriteEnd.lengths Writing.lengths =
      .leave (Vfs.pipeFull isec tsec env.toWriteEnv nonblock totalLenSaved w.lengths) := by
  rw [pipeFull_leaves, pipeFull_eq]
  rfl

theorem pageFor_eq_none_iff (w : Writing) :
    pageFor env w.pipe = none ↔
      w.lengths.pipe.tmpPage = false ∧ env.allocPage w.lengths.pipe.nrbufs = false := by
  show w.pipe.tmpPage.or _ = none ↔
    w.pipe.tmpPage.isSome = false ∧ env.allocPage w.pipe.nrbufs = false
  rw [Option.or_eq_none_iff, Option.isSome_eq_false_iff, Option.isNone_iff_eq_none]
  cases env.allocPage w.pipe.nrbufs <;> simp

theorem writeRound_lengths (w : Writing) :
    (writeRound isec tsec env nonblock totalLenSaved w).map
        (Round.map WriteEnd.lengths Writing.lengths) =
      Vfs.writeRound isec tsec env.toWriteEnv nonblock totalLenSaved w.lengths := by
  unfold writeRound Vfs.writeRound
  refine map_ite_lengths Iff.rfl rfl ?_
  by_cases hroom : w.pipe.nrbufs < pipeBuffers
  · rw [dif_pos hroom, if_pos (show w.lengths.pipe.nrbufs < pipeBuffers from hroom)]
    cases hpage : pageFor env w.pipe with
    | none =>
        rw [if_pos ((pageFor_eq_none_iff env w).1 hpage)]
        rfl
    | some page =>
        rw [if_neg (mt (pageFor_eq_none_iff env w).2 (by simp [hpage]))]
        refine map_bind_lengths (copyTwice_lengths ..) fun out => ?_
        refine map_ite_lengths Iff.rfl rfl (map_ite_lengths Iff.rfl ?_ (map_ite_lengths Iff.rfl
          ?_ ?_))
        · exact leave_lengths (congrArg (fun v : Vfs.Writing =>
            Vfs.WriteEnd.returned v.ret v.pipe) (w.lengths_filled hroom _ out))
        · exact next_lengths (w.lengths_filled hroom _ out)
        · refine (congrArg Except.ok (pipeFull_lengths ..)).trans ?_
          rw [w.lengths_filled hroom _ out]
          rfl
  · rw [dif_neg hroom, if_neg (show ¬ w.lengths.pipe.nrbufs < pipeBuffers from hroom)]
    exact congrArg Except.ok (pipeFull_lengths ..)

/-- **The bytes do not matter for the lengths.**  Where the call that counts lengths ends, this
call ends, with the same result and the same lengths. -/
theorem pipeWrite_lengths (reads : List (List Nat)) (iov : List (List Byte)) (pipe : Pipe)
    {ending : Vfs.WriteEnd}
    (h : Vfs.pipeWrite isec tsec env.toWriteEnv nonblock (iov.map List.length) pipe.lengths =
      .ok ending) :
    ∃ ending', pipeWrite isec tsec env nonblock reads iov pipe = .ok ending' ∧
      ending'.lengths = ending := by
  unfold Vfs.pipeWrite at h
  unfold pipeWrite
  generalize (BitVec.ofNat 64 (iovLength (iov.map List.length))).toNat = totalLen at h ⊢
  dsimp only at h ⊢
  by_cases hzero : totalLen = 0
  · rw [if_pos hzero] at h ⊢
    exact ⟨_, rfl, Except.ok.inj h⟩
  rw [if_neg hzero] at h ⊢
  by_cases hreaders : pipe.readers = 0
  · rw [if_pos (show pipe.lengths.readers = 0 from hreaders)] at h
    rw [if_pos hreaders]
    exact ⟨_, rfl, Except.ok.inj h⟩
  rw [if_neg (show ¬ pipe.lengths.readers = 0 from hreaders)] at h
  rw [if_neg hreaders]
  obtain ⟨round, hround, h⟩ := bind_eq_ok.1 h
  obtain ⟨round', hround', rfl⟩ : ∃ round', tryMerge env ⟨pipe, iov, 0, totalLen, 0, reads, []⟩ =
      .ok round' ∧ round'.map WriteEnd.lengths Writing.lengths = round :=
    map_eq_ok.1 ((tryMerge_lengths env _).trans hround)
  cases round' with
  | leave ending' => exact ⟨ending', bind_eq_ok.2 ⟨_, hround', rfl⟩, Except.ok.inj h⟩
  | next w =>
      have hfuel : pipeBuffers + 1 ≤ (pipeBuffers + 1) * (reads.length + 1) :=
        Nat.le_mul_of_pos_right _ (Nat.succ_pos _)
      obtain ⟨ending', hloop, hending⟩ :=
        loop_of_forget (writeRound_lengths isec tsec env nonblock totalLen) hfuel h
      exact ⟨ending', bind_eq_ok.2 ⟨_, hround', hloop⟩, hending⟩

end Lengths

end Laminar.Vfs.Data
