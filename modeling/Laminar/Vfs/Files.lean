import Laminar.Lib.Locks
import Laminar.Kernel.System

/-!
# File operations and the label semaphore

`difc_file_permission` takes the read side of an inode's `label_change_sem` and
keeps it when access is granted; `difc_file_rw_release` gives it back.  The
functions of the file system that call the two hooks are modelled as programs over
the semaphores: each returns its result and the lock operations it performed, in
order.

The outcome of everything else they call (copies, area checks, the file's own
operations, allocations) is an argument of the call, collected in one structure
for each function, so that every branch is possible.  An open file has an inode.
-/

namespace Laminar.Vfs

open Laminar.Lib Laminar.Kernel

/-! ## Files -/

def eBadf : Int := 9
def eFault : Int := 14
def eNotdir : Int := 20
def eSpipe : Int := 29
def eOverflow : Int := 75

/-- Which members of `struct file_operations` are set. -/
structure FileOps where
  read : Bool
  write : Bool
  aioRead : Bool
  aioWrite : Bool
  sendfile : Bool
  sendpage : Bool
  readdir : Bool
  aioFsync : Bool

/-- An open file: its inode, `FMODE_READ`, `FMODE_WRITE`, `FMODE_PREAD` and its
operations. -/
structure File where
  inode : Ino
  modeRead : Bool
  modeWrite : Bool
  modePread : Bool
  fOp : Option FileOps

/-- `READ` and `WRITE`. -/
inductive Dir
  | read
  | write

/-- The permission a direction asks for. -/
def Dir.mask : Dir → BitVec 32
  | .read => mayRead
  | .write => mayWrite

/-- The mode bit a direction needs. -/
def File.mode (file : File) : Dir → Bool
  | .read => file.modeRead
  | .write => file.modeWrite

/-- `f_op->read` or `f_op->write`. -/
def FileOps.plain (op : FileOps) : Dir → Bool
  | .read => op.read
  | .write => op.write

/-- `f_op->aio_read` or `f_op->aio_write`. -/
def FileOps.aio (op : FileOps) : Dir → Bool
  | .read => op.aioRead
  | .write => op.aioWrite

/-- The result of a call and its lock operations. -/
abbrev Locking := Except Fault (Int × List (LockOp Ino))

/-- `file->f_dentry->d_inode->i_security`. -/
def iSecurity (k : Kernel) (file : File) : Option ObjectSecurityStruct :=
  (k.inode file.inode).bind Inode.iSecurity

/-- `difc_file_permission`. -/
def difcFilePermission (k : Kernel) (current : Task) (file : File) (mask : BitVec 32) :
    Locking :=
  match iSecurity k file with
  | none => .ok (0, [])
  | some oss => do
      let rv ← difcInodePermission current (some oss) mask
      return (rv, if rv ≠ 0 then [.take file.inode, .drop file.inode] else [.take file.inode])

/-- `difc_file_rw_release`. -/
def difcFileRwRelease (k : Kernel) (file : File) : List (LockOp Ino) :=
  if (iSecurity k file).isSome then [.drop file.inode] else []

/-! ## Reading and writing -/

/-- Check, work under the lock, release: the part `vfs_read`, `vfs_write` and the
two vector functions have in common. -/
def underLock (k : Kernel) (current : Task) (file : File) (mask : BitVec 32) (ret : Int) :
    Locking := do
  let (rv, ops) ← difcFilePermission k current file mask
  if rv ≠ 0 then
    return (rv, ops)
  else
    return (ret, ops ++ difcFileRwRelease k file)

/-- What `vfs_read` and `vfs_write` get from `access_ok`, `rw_verify_area`, the
file's operation and the synchronous wrapper of its aio operation. -/
structure RwOutcome where
  accessOk : Bool
  verifyArea : Int
  plain : Int
  sync : Int

/-- `vfs_read` and `vfs_write`, by direction. -/
def vfsRw (dir : Dir) (k : Kernel) (current : Task) (file : File) (x : RwOutcome) :
    Locking :=
  if !file.mode dir then .ok (-eBadf, [])
  else match file.fOp with
    | none => .ok (-eInval, [])
    | some op =>
        if !op.plain dir && !op.aio dir then .ok (-eInval, [])
        else if !x.accessOk then .ok (-eFault, [])
        else if x.verifyArea < 0 then .ok (x.verifyArea, [])
        else underLock k current file dir.mask (if op.plain dir then x.plain else x.sync)

/-- `vfs_read`. -/
def vfsRead := vfsRw .read

/-- `vfs_write`. -/
def vfsWrite := vfsRw .write

/-- The same for `do_readv_writev`, with the result of `rw_copy_check_uvector`. -/
structure VectorOutcome where
  uvector : Int
  verifyArea : Int
  sync : Int
  loop : Int

/-- `do_readv_writev`. -/
def doReadvWritev (dir : Dir) (k : Kernel) (current : Task) (file : File)
    (x : VectorOutcome) : Locking :=
  match file.fOp with
  | none => .ok (-eInval, [])
  | some op =>
      if x.uvector ≤ 0 then .ok (x.uvector, [])
      else if x.verifyArea < 0 then .ok (x.verifyArea, [])
      else underLock k current file dir.mask (if op.aio dir then x.sync else x.loop)

/-- `UIO_MAXIOV`, `UIO_FASTIOV`. -/
def uioMaxiov : Nat := 1024
def uioFastiov : Nat := 8

/-- What `compat_do_readv_writev` reads: the segments' lengths (`none` for a fault
in `__get_user`) and the outcomes. -/
structure CompatOutcome where
  segs : List (Option Int)
  kmalloc : Bool
  accessOk : Bool
  verifyArea : Int
  sync : Int
  loop : Int

/-- The loop over the segments: the total length in a 32-bit `compat_ssize_t`. -/
def compatTotLen : List (Option Int) → Int → Except Int Int
  | [], tot => .ok tot
  | none :: _, _ => .error (-eFault)
  | some len :: rest, tot =>
      if len < 0 then .error (-eInval)
      else
        let tot' := (BitVec.ofInt 32 (tot + len)).toInt
        if tot' < tot then .error (-eInval) else compatTotLen rest tot'

/-- `compat_do_readv_writev`. -/
def compatDoReadvWritev (dir : Dir) (k : Kernel) (current : Task) (file : File)
    (x : CompatOutcome) : Locking :=
  if x.segs.length = 0 then .ok (0, [])
  else if x.segs.length > uioMaxiov then .ok (-eInval, [])
  else match file.fOp with
    | none => .ok (-eInval, [])
    | some op =>
        if x.segs.length > uioFastiov && !x.kmalloc then .ok (-eNomem, [])
        else if !x.accessOk then .ok (-eFault, [])
        else match compatTotLen x.segs 0 with
          | .error e => .ok (e, [])
          | .ok totLen =>
              if totLen = 0 then .ok (0, [])
              else if x.verifyArea < 0 then .ok (x.verifyArea, [])
              else underLock k current file dir.mask (if op.aio dir then x.sync else x.loop)

/-! ## Sendfile -/

/-- The arguments and outcomes of `do_sendfile`.  `count` is what the second
`rw_verify_area` leaves of it. -/
structure SendfileOutcome where
  inFile : Option File
  outFile : Option File
  pposNull : Bool
  verifyIn : Int
  verifyOut : Int
  pos : Int
  max : Int
  sMaxbytes : Int
  sendfile : Int
  posAfter : Int

/-- `max`, or the smaller `s_maxbytes` when it is 0. -/
def SendfileOutcome.limit (x : SendfileOutcome) : Int :=
  if x.max = 0 then x.sMaxbytes else x.max

/-- The offset is past the limit, with nothing left to send. -/
def SendfileOutcome.pastLimit (x : SendfileOutcome) : Bool :=
  x.pos + x.verifyOut > x.limit && x.pos ≥ x.limit

/-- The part of `do_sendfile` that runs with the input's lock held. -/
def sendfileOut (k : Kernel) (current : Task) (x : SendfileOutcome) : Locking :=
  match x.outFile with
  | none => .ok (-eBadf, [])
  | some outFile =>
      if !outFile.modeWrite then .ok (-eBadf, [])
      else if !outFile.fOp.any FileOps.sendpage then .ok (-eInval, [])
      else if x.verifyOut < 0 then .ok (x.verifyOut, [])
      else do
        let (rv, ops) ← difcFilePermission k current outFile mayWrite
        if rv ≠ 0 then
          return (rv, ops)
        else if x.pos < 0 then
          return (-eInval, ops ++ difcFileRwRelease k outFile)
        else if x.pastLimit then
          -- goto fput_out, past the release
          return (-eOverflow, ops)
        else
          return (if x.posAfter > x.limit then -eOverflow else x.sendfile,
            ops ++ difcFileRwRelease k outFile)

/-- `do_sendfile`. -/
def doSendfile (k : Kernel) (current : Task) (x : SendfileOutcome) : Locking :=
  match x.inFile with
  | none => .ok (-eBadf, [])
  | some inFile =>
      if !inFile.modeRead then .ok (-eBadf, [])
      else if !inFile.fOp.any FileOps.sendfile then .ok (-eInval, [])
      else if !x.pposNull && !inFile.modePread then .ok (-eSpipe, [])
      else if x.verifyIn < 0 then .ok (x.verifyIn, [])
      else do
        let (rv, ops) ← difcFilePermission k current inFile mayRead
        if rv ≠ 0 then
          return (rv, ops)
        else
          let (ret, ops') ← sendfileOut k current x
          return (ret, ops ++ ops' ++ difcFileRwRelease k inFile)

/-! ## Directories -/

/-- `vfs_readdir`; `deadDir` is `IS_DEADDIR`.  The lock is not released. -/
def vfsReaddir (k : Kernel) (current : Task) (file : File) (deadDir : Bool)
    (readdirRes : Int) : Locking :=
  if !file.fOp.any FileOps.readdir then .ok (-eNotdir, [])
  else do
    let (res, ops) ← difcFilePermission k current file mayRead
    if res ≠ 0 then
      return (res, ops)
    else
      return (if deadDir then -eNoent else readdirRes, ops)

/-! ## Asynchronous operations -/

/-- The opcodes of an iocb. -/
inductive Opcode
  | single (dir : Dir)
  | vectored (dir : Dir)
  | fsync
  | fdsync
  | other

/-- The outcomes of `io_submit_one`; `vectored` is that of
`aio_setup_vectored_rw`, `eventfd` an error of `eventfd_fget`. -/
structure AioOutcome where
  reserved : Bool
  overflow : Bool
  file : Option File
  getReq : Bool
  eventfd : Option Int
  putUser : Int
  accessOk : Bool
  vectored : Int

/-- `ki_retry` is set when the file has the operation; otherwise `-EINVAL`. -/
def setRetry (file : File) (has : FileOps → Bool) (ops : List (LockOp Ino)) : Locking :=
  match file.fOp with
  | none => .error .nullDeref
  | some op => .ok (if has op then 0 else -eInval, ops)

/-- `aio_setup_iocb`. -/
def aioSetupIocb (k : Kernel) (current : Task) (file : File) (x : AioOutcome) :
    Opcode → Locking
  | .single dir =>
      if !file.mode dir then .ok (-eBadf, [])
      else if !x.accessOk then .ok (-eFault, [])
      else do
        let (rv, ops) ← difcFilePermission k current file dir.mask
        if rv ≠ 0 then
          return (rv, ops)
        else
          -- aio_setup_single_vector cannot fail
          setRetry file (FileOps.aio · dir) ops
  | .vectored dir =>
      if !file.mode dir then .ok (-eBadf, [])
      else do
        let (rv, ops) ← difcFilePermission k current file dir.mask
        if rv ≠ 0 then
          return (rv, ops)
        else if x.vectored ≠ 0 then
          return (x.vectored, ops)
        else
          setRetry file (FileOps.aio · dir) ops
  | .fsync => setRetry file FileOps.aioFsync []
  | .fdsync => setRetry file FileOps.aioFsync []
  | .other => .ok (-eInval, [])

/-- `io_submit_one`. -/
def ioSubmitOne (k : Kernel) (current : Task) (opcode : Opcode) (x : AioOutcome) :
    Locking :=
  if x.reserved then .ok (-eInval, [])
  else if x.overflow then .ok (-eInval, [])
  else match x.file with
    | none => .ok (-eBadf, [])
    | some file =>
        if !x.getReq then .ok (-eAgain, [])
        else match x.eventfd with
          | some e => .ok (e, [])
          | none =>
              if x.putUser ≠ 0 then .ok (x.putUser, [])
              else do
                let (ret, ops) ← aioSetupIocb k current file x opcode
                if ret ≠ 0 then
                  return (ret, ops)
                else
                  return (0, ops ++ difcFileRwRelease k file)

/-! ## Calls -/

/-- The calls of the file system that work on the semaphores. -/
inductive FileCall
  | read (file : File) (x : RwOutcome)
  | write (file : File) (x : RwOutcome)
  | readvWritev (dir : Dir) (file : File) (x : VectorOutcome)
  | compatReadvWritev (dir : Dir) (file : File) (x : CompatOutcome)
  | sendfile (x : SendfileOutcome)
  | readdir (file : File) (deadDir : Bool) (res : Int)
  | ioSubmit (opcode : Opcode) (x : AioOutcome)

/-- Run a call. -/
def FileCall.run (k : Kernel) (current : Task) : FileCall → Locking
  | .read file x => vfsRead k current file x
  | .write file x => vfsWrite k current file x
  | .readvWritev dir file x => doReadvWritev dir k current file x
  | .compatReadvWritev dir file x => compatDoReadvWritev dir k current file x
  | .sendfile x => doSendfile k current x
  | .readdir file deadDir res => vfsReaddir k current file deadDir res
  | .ioSubmit opcode x => ioSubmitOne k current opcode x

end Laminar.Vfs
