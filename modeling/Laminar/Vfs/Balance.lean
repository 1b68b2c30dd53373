import Laminar.Vfs.Files

/-!
# Is the label semaphore balanced?

The four read and write functions are balanced on every path.  Three others are
not:

* `vfs_readdir` never releases the lock a granted check took;
* `do_sendfile` jumps past the release of the output when the offset is at or
  beyond the limit;
* `io_submit_one` releases on success only, so a request whose setup fails after a
  granted check keeps the lock, and a sync request releases a lock it never took.

`FileCall.Leaks` names these paths by their inputs, and a call that returns is
balanced if and only if it takes none of them.
-/

namespace Laminar.Vfs

open Laminar.Lib Laminar.Kernel

/-- The check on the file grants access and keeps the lock. -/
def Keeps (k : Kernel) (current : Task) (file : File) (mask : BitVec 32) : Prop :=
  ∃ oss, iSecurity k file = some oss ∧ difcInodePermission current (some oss) mask = .ok 0

/-- The check on the file grants access. -/
def Permits (k : Kernel) (current : Task) (file : File) (mask : BitVec 32) : Prop :=
  ∀ oss, iSecurity k file = some oss → difcInodePermission current (some oss) mask = .ok 0

theorem Keeps.permits {k : Kernel} {current : Task} {file : File} {mask : BitVec 32}
    (h : Keeps k current file mask) : Permits k current file mask := by
  obtain ⟨oss, hoss, hok⟩ := h
  intro oss' hoss'
  exact Option.some.inj (hoss.symm.trans hoss') ▸ hok

/-- The inputs that make `do_sendfile` jump past the release of the output. -/
structure SendfileLeaks (k : Kernel) (current : Task) (x : SendfileOutcome)
    (inFile outFile : File) : Prop where
  input : x.inFile = some inFile
  output : x.outFile = some outFile
  modeRead : inFile.modeRead = true
  sendfile : inFile.fOp.any FileOps.sendfile = true
  offset : x.pposNull = true ∨ inFile.modePread = true
  verifyIn : 0 ≤ x.verifyIn
  permitsIn : Permits k current inFile mayRead
  modeWrite : outFile.modeWrite = true
  sendpage : outFile.fOp.any FileOps.sendpage = true
  verifyOut : 0 ≤ x.verifyOut
  keepsOut : Keeps k current outFile mayWrite
  pos : 0 ≤ x.pos
  pastLimit : x.pastLimit = true

/-- The inputs that make a prepared request leave the semaphore unbalanced. -/
def SetupLeaks (k : Kernel) (current : Task) (file : File) (x : AioOutcome) :
    Opcode → Prop
  | .single dir => file.mode dir = true ∧ x.accessOk = true ∧
      Keeps k current file dir.mask ∧ file.fOp.any (FileOps.aio · dir) = false
  | .vectored dir => file.mode dir = true ∧ Keeps k current file dir.mask ∧
      (x.vectored ≠ 0 ∨ file.fOp.any (FileOps.aio · dir) = false)
  | .fsync => file.fOp.any FileOps.aioFsync = true ∧ (iSecurity k file).isSome = true
  | .fdsync => file.fOp.any FileOps.aioFsync = true ∧ (iSecurity k file).isSome = true
  | .other => False

/-- The paths on which a call leaves the semaphore unbalanced. -/
def FileCall.Leaks (k : Kernel) (current : Task) : FileCall → Prop
  | .read .. => False
  | .write .. => False
  | .readvWritev .. => False
  | .compatReadvWritev .. => False
  | .sendfile x => ∃ inFile outFile, SendfileLeaks k current x inFile outFile
  | .readdir file _ _ =>
      file.fOp.any FileOps.readdir = true ∧ Keeps k current file mayRead
  | .ioSubmit opcode x => x.reserved = false ∧ x.overflow = false ∧
      x.getReq = true ∧ x.eventfd = none ∧ x.putUser = 0 ∧
      ∃ file, x.file = some file ∧ SetupLeaks k current file x opcode

section Paths

variable {k : Kernel} {current : Task} {file : File} {mask : BitVec 32} {rv ret : Int}
  {ops : List (LockOp Ino)}

/-! ## The hooks -/

/-- A refused check is balanced. -/
theorem difcFilePermission_denied
    (h : difcFilePermission k current file mask = .ok (rv, ops)) (hrv : rv ≠ 0) :
    Balanced ops ∧ ¬ Permits k current file mask := by
  unfold difcFilePermission at h
  split at h
  · exact absurd (Prod.mk.inj (Except.ok.inj h)).1.symm hrv
  · rename_i oss hoss
    obtain ⟨rv', hperm, h⟩ := bind_eq_ok.mp h
    obtain ⟨rfl, rfl⟩ := Prod.mk.inj (Except.ok.inj h)
    refine ⟨?_, fun hall => ?_⟩
    · rw [if_pos hrv]
      exact balanced_nil.bracket file.inode
    · rw [hall oss hoss] at hperm
      exact hrv (Except.ok.inj hperm).symm

/-- After a granted check the lock is held and will be released, or the inode has
no security structure and neither hook does anything. -/
theorem difcFilePermission_granted
    (h : difcFilePermission k current file mask = .ok (0, ops)) :
    Permits k current file mask ∧
      ((Keeps k current file mask ∧ ops = [.take file.inode] ∧
          difcFileRwRelease k file = [.drop file.inode]) ∨
        (¬ Keeps k current file mask ∧ ops = [] ∧ difcFileRwRelease k file = [])) := by
  unfold difcFilePermission at h
  split at h
  · rename_i hnone
    obtain ⟨-, rfl⟩ := Prod.mk.inj (Except.ok.inj h)
    refine ⟨fun oss hoss => ?_, Or.inr ⟨?_, rfl, ?_⟩⟩
    · rw [hnone] at hoss
      simp at hoss
    · rintro ⟨oss, hoss, -⟩
      rw [hnone] at hoss
      simp at hoss
    · rw [difcFileRwRelease, hnone]
      rfl
  · rename_i oss hoss
    obtain ⟨rv', hperm, h⟩ := bind_eq_ok.mp h
    obtain ⟨rfl, rfl⟩ := Prod.mk.inj (Except.ok.inj h)
    refine ⟨fun oss' hoss' => ?_, Or.inl ⟨⟨oss, hoss, hperm⟩, rfl, ?_⟩⟩
    · obtain rfl := Option.some.inj (hoss.symm.trans hoss')
      exact hperm
    · rw [difcFileRwRelease, hoss]
      rfl

/-- A granted check and the release bracket a balanced sequence. -/
theorem balanced_bracket (h : difcFilePermission k current file mask = .ok (0, ops))
    {mid : List (LockOp Ino)} (hmid : Balanced mid) :
    Balanced (ops ++ mid ++ difcFileRwRelease k file) := by
  rcases (difcFilePermission_granted h).2 with ⟨-, rfl, hrel⟩ | ⟨-, rfl, hrel⟩
  · rw [hrel]
    exact hmid.bracket file.inode
  · rw [hrel, List.nil_append, List.append_nil]
    exact hmid

/-- A granted check and the release are balanced. -/
theorem balanced_released (h : difcFilePermission k current file mask = .ok (0, ops)) :
    Balanced (ops ++ difcFileRwRelease k file) := by
  have hb := balanced_bracket h balanced_nil
  rwa [List.append_nil] at hb

/-- Without the release a granted check is balanced only if it took nothing. -/
theorem balanced_granted_iff (h : difcFilePermission k current file mask = .ok (0, ops)) :
    Balanced ops ↔ ¬ Keeps k current file mask := by
  rcases (difcFilePermission_granted h).2 with ⟨hkeeps, rfl, -⟩ | ⟨hno, rfl, -⟩
  · exact iff_of_false ((balanced_nil.append balanced_nil).not_insert_take file.inode)
      (not_not_intro hkeeps)
  · exact iff_of_true balanced_nil hno

theorem underLock_balanced (h : underLock k current file mask ret = .ok (rv, ops)) :
    Balanced ops := by
  unfold underLock at h
  obtain ⟨⟨res, ops'⟩, hperm, h⟩ := bind_eq_ok.mp h
  dsimp only at h
  split at h
  · rename_i hres
    obtain ⟨rfl, rfl⟩ := Prod.mk.inj (Except.ok.inj h)
    exact (difcFilePermission_denied hperm hres).1
  · rename_i hres
    obtain ⟨-, rfl⟩ := Prod.mk.inj (Except.ok.inj h)
    obtain rfl := Classical.not_not.1 hres
    exact balanced_released hperm

/-! ## The functions -/

/-- A path that leaves before the first check. -/
private theorem balanced_of_exit (h : (.ok (ret, []) : Locking) = .ok (rv, ops)) :
    Balanced ops := by
  obtain ⟨-, rfl⟩ := Prod.mk.inj (Except.ok.inj h)
  exact balanced_nil

theorem vfsRw_balanced {dir : Dir} {x : RwOutcome}
    (h : vfsRw dir k current file x = .ok (rv, ops)) : Balanced ops := by
  unfold vfsRw at h
  split at h
  · exact balanced_of_exit h
  split at h
  · exact balanced_of_exit h
  split at h
  · exact balanced_of_exit h
  split at h
  · exact balanced_of_exit h
  split at h
  · exact balanced_of_exit h
  · exact underLock_balanced h

theorem doReadvWritev_balanced {dir : Dir} {x : VectorOutcome}
    (h : doReadvWritev dir k current file x = .ok (rv, ops)) : Balanced ops := by
  unfold doReadvWritev at h
  split at h
  · exact balanced_of_exit h
  split at h
  · exact balanced_of_exit h
  split at h
  · exact balanced_of_exit h
  · exact underLock_balanced h

theorem compatDoReadvWritev_balanced {dir : Dir} {x : CompatOutcome}
    (h : compatDoReadvWritev dir k current file x = .ok (rv, ops)) : Balanced ops := by
  unfold compatDoReadvWritev at h
  split at h
  · exact balanced_of_exit h
  split at h
  · exact balanced_of_exit h
  split at h
  · exact balanced_of_exit h
  split at h
  · exact balanced_of_exit h
  split at h
  · exact balanced_of_exit h
  split at h
  · exact balanced_of_exit h
  split at h
  · exact balanced_of_exit h
  split at h
  · exact balanced_of_exit h
  · exact underLock_balanced h

theorem vfsReaddir_balanced_iff {deadDir : Bool} {res : Int}
    (h : vfsReaddir k current file deadDir res = .ok (rv, ops)) :
    Balanced ops ↔ ¬ (file.fOp.any FileOps.readdir = true ∧
      Keeps k current file mayRead) := by
  unfold vfsReaddir at h
  split at h
  · rename_i hop
    obtain ⟨-, rfl⟩ := Prod.mk.inj (Except.ok.inj h)
    exact iff_of_true balanced_nil fun hleak => by simp [hleak.1] at hop
  rename_i hop
  obtain ⟨⟨perm, ops'⟩, hperm, h⟩ := bind_eq_ok.mp h
  dsimp only at h
  split at h
  · rename_i hdenied
    obtain ⟨rfl, rfl⟩ := Prod.mk.inj (Except.ok.inj h)
    obtain ⟨hb, hno⟩ := difcFilePermission_denied hperm hdenied
    exact iff_of_true hb fun hleak => hno hleak.2.permits
  · rename_i hgranted
    obtain ⟨-, rfl⟩ := Prod.mk.inj (Except.ok.inj h)
    obtain rfl := Classical.not_not.1 hgranted
    rw [balanced_granted_iff hperm]
    refine not_congr ⟨fun hkeeps => ⟨by simpa using hop, hkeeps⟩, And.right⟩

/-- What `do_sendfile` does under the input's lock: it is balanced, or it takes the
output's lock and the offset is past the limit. -/
private theorem sendfileOut_cases {x : SendfileOutcome}
    (h : sendfileOut k current x = .ok (rv, ops)) :
    (Balanced ops ∧ ∀ inFile outFile, ¬ SendfileLeaks k current x inFile outFile) ∨
      ∃ outFile, x.outFile = some outFile ∧ ops = [.take outFile.inode] ∧
        outFile.modeWrite = true ∧ outFile.fOp.any FileOps.sendpage = true ∧
        0 ≤ x.verifyOut ∧ Keeps k current outFile mayWrite ∧ 0 ≤ x.pos ∧
        x.pastLimit = true := by
  unfold sendfileOut at h
  split at h
  · rename_i hout
    exact Or.inl ⟨balanced_of_exit h, fun _ _ hl => by simp [hl.output] at hout⟩
  rename_i outFile hout
  have hsame : ∀ {inFile o : File}, SendfileLeaks k current x inFile o → o = outFile :=
    fun hl => Option.some.inj (hl.output.symm.trans hout)
  split at h
  · rename_i hmode
    refine Or.inl ⟨balanced_of_exit h, fun _ o hl => ?_⟩
    obtain rfl := hsame hl
    simp [hl.modeWrite] at hmode
  rename_i hmode
  split at h
  · rename_i hop
    refine Or.inl ⟨balanced_of_exit h, fun _ o hl => ?_⟩
    obtain rfl := hsame hl
    simp [hl.sendpage] at hop
  rename_i hop
  split at h
  · rename_i hverify
    exact Or.inl ⟨balanced_of_exit h, fun _ _ hl => by have := hl.verifyOut; omega⟩
  rename_i hverify
  obtain ⟨⟨perm, ops'⟩, hperm, h⟩ := bind_eq_ok.mp h
  dsimp only at h
  split at h
  · rename_i hdenied
    obtain ⟨-, rfl⟩ := Prod.mk.inj (Except.ok.inj h)
    obtain ⟨hb, hno⟩ := difcFilePermission_denied hperm hdenied
    refine Or.inl ⟨hb, fun _ o hl => ?_⟩
    obtain rfl := hsame hl
    exact hno hl.keepsOut.permits
  rename_i hgranted
  obtain rfl := Classical.not_not.1 hgranted
  split at h
  · rename_i hpos
    obtain ⟨-, rfl⟩ := Prod.mk.inj (Except.ok.inj h)
    exact Or.inl ⟨balanced_released hperm, fun _ _ hl => by have := hl.pos; omega⟩
  rename_i hpos
  split at h
  · rename_i hpast
    obtain ⟨-, rfl⟩ := Prod.mk.inj (Except.ok.inj h)
    rcases (difcFilePermission_granted hperm).2 with ⟨hkeeps, rfl, -⟩ | ⟨hno, rfl, -⟩
    · exact Or.inr ⟨outFile, hout, rfl, by simpa using hmode, by simpa using hop,
        Int.not_lt.1 hverify, hkeeps, Int.not_lt.1 hpos, hpast⟩
    · refine Or.inl ⟨balanced_nil, fun _ o hl => ?_⟩
      obtain rfl := hsame hl
      exact hno hl.keepsOut
  · rename_i hpast
    obtain ⟨-, rfl⟩ := Prod.mk.inj (Except.ok.inj h)
    exact Or.inl ⟨balanced_released hperm, fun _ _ hl => hpast hl.pastLimit⟩

theorem doSendfile_balanced_iff {x : SendfileOutcome}
    (h : doSendfile k current x = .ok (rv, ops)) :
    Balanced ops ↔ ¬ ∃ inFile outFile, SendfileLeaks k current x inFile outFile := by
  unfold doSendfile at h
  split at h
  · rename_i hin
    exact iff_of_true (balanced_of_exit h) fun ⟨_, _, hl⟩ => by simp [hl.input] at hin
  rename_i inFile hin
  have hsame : ∀ {i o : File}, SendfileLeaks k current x i o → i = inFile :=
    fun hl => Option.some.inj (hl.input.symm.trans hin)
  split at h
  · rename_i hmode
    refine iff_of_true (balanced_of_exit h) fun ⟨i, o, hl⟩ => ?_
    obtain rfl := hsame hl
    simp [hl.modeRead] at hmode
  rename_i hmode
  split at h
  · rename_i hop
    refine iff_of_true (balanced_of_exit h) fun ⟨i, o, hl⟩ => ?_
    obtain rfl := hsame hl
    simp [hl.sendfile] at hop
  rename_i hop
  split at h
  · rename_i hoff
    refine iff_of_true (balanced_of_exit h) fun ⟨i, o, hl⟩ => ?_
    obtain rfl := hsame hl
    rcases hl.offset with ho | ho <;> simp [ho] at hoff
  rename_i hoff
  split at h
  · rename_i hverify
    exact iff_of_true (balanced_of_exit h) fun ⟨_, _, hl⟩ => by have := hl.verifyIn; omega
  rename_i hverify
  obtain ⟨⟨perm, ops'⟩, hperm, h⟩ := bind_eq_ok.mp h
  dsimp only at h
  split at h
  · rename_i hdenied
    obtain ⟨-, rfl⟩ := Prod.mk.inj (Except.ok.inj h)
    obtain ⟨hb, hno⟩ := difcFilePermission_denied hperm hdenied
    refine iff_of_true hb fun ⟨i, o, hl⟩ => ?_
    obtain rfl := hsame hl
    exact hno hl.permitsIn
  rename_i hgranted
  obtain rfl := Classical.not_not.1 hgranted
  rw [bind_eq_ok] at h
  obtain ⟨⟨res, mid⟩, hmid, h⟩ := h
  obtain ⟨-, rfl⟩ := Prod.mk.inj (Except.ok.inj h)
  rcases sendfileOut_cases hmid with ⟨hb, hno⟩ | ⟨outFile, hout, rfl, hrest⟩
  · exact iff_of_true (balanced_bracket hperm hb) fun ⟨i, o, hl⟩ => hno i o hl
  · have hoffset : x.pposNull = true ∨ inFile.modePread = true := by
      cases hp : x.pposNull <;> simp [hp] at hoff ⊢
      exact hoff
    refine iff_of_false ?_ (not_not_intro ⟨inFile, outFile, ?_⟩)
    · rw [List.append_assoc]
      exact (balanced_released hperm).not_insert_take outFile.inode
    · obtain ⟨hmodeW, hpage, hvo, hkeeps, hpos, hpast⟩ := hrest
      exact ⟨hin, hout, by simpa using hmode, by simpa using hop, hoffset,
        Int.not_lt.1 hverify, (difcFilePermission_granted hperm).1, hmodeW, hpage, hvo,
        hkeeps, hpos, hpast⟩

private theorem setRetry_cases {has : FileOps → Bool} {taken : List (LockOp Ino)}
    (h : setRetry file has taken = .ok (rv, ops)) :
    ops = taken ∧ (rv = 0 ↔ file.fOp.any has = true) := by
  unfold setRetry at h
  split at h
  · simp at h
  · rename_i op hop
    obtain ⟨rfl, rfl⟩ := Prod.mk.inj (Except.ok.inj h)
    refine ⟨rfl, ?_⟩
    rw [hop, Option.any_some]
    cases has op <;> decide

/-- The end of a read or write request after a granted check: with `ok` the lock is
released, and otherwise it stays. -/
private theorem granted_balanced_iff
    (hperm : difcFilePermission k current file mask = .ok (0, ops)) {ok : Bool}
    (hok : rv = 0 ↔ ok = true) :
    Balanced (if rv ≠ 0 then ops else ops ++ difcFileRwRelease k file) ↔
      ¬ (Keeps k current file mask ∧ ok = false) := by
  by_cases hrv : rv = 0
  · rw [if_neg (not_not_intro hrv)]
    exact iff_of_true (balanced_released hperm) fun hleak => by simp [hok.1 hrv] at hleak
  · rw [if_pos hrv, balanced_granted_iff hperm]
    have hfalse : ok = false := by
      cases ok with
      | false => rfl
      | true => exact absurd (hok.2 rfl) hrv
    simp [hfalse]

/-- The end of a sync request, which never took the lock. -/
private theorem sync_balanced_iff {has : FileOps → Bool}
    (h : setRetry file has [] = .ok (rv, ops)) :
    Balanced (if rv ≠ 0 then ops else ops ++ difcFileRwRelease k file) ↔
      ¬ (file.fOp.any has = true ∧ (iSecurity k file).isSome = true) := by
  obtain ⟨rfl, hrv⟩ := setRetry_cases h
  by_cases hzero : rv = 0
  · rw [if_neg (not_not_intro hzero), List.nil_append, difcFileRwRelease]
    split
    · rename_i hsome
      exact iff_of_false (not_balanced_drop _ _) (not_not_intro ⟨hrv.1 hzero, hsome⟩)
    · rename_i hsome
      exact iff_of_true balanced_nil fun hleak => hsome hleak.2
  · rw [if_pos hzero]
    exact iff_of_true balanced_nil fun hleak => hzero (hrv.2 hleak.1)

/-- A request that ends with an error other than a kept lock. -/
private theorem failed_balanced (hb : Balanced ops) (hrv : rv ≠ 0) :
    Balanced (if rv ≠ 0 then ops else ops ++ difcFileRwRelease k file) := by
  rw [if_pos hrv]
  exact hb

/-- A request that ends with an error before the check. -/
private theorem balanced_of_error (h : (.ok (ret, []) : Locking) = .ok (rv, ops))
    (hret : ret ≠ 0) :
    Balanced (if rv ≠ 0 then ops else ops ++ difcFileRwRelease k file) := by
  obtain ⟨rfl, rfl⟩ := Prod.mk.inj (Except.ok.inj h)
  exact failed_balanced balanced_nil hret

theorem aioSetupIocb_balanced_iff {x : AioOutcome} {opcode : Opcode}
    (h : aioSetupIocb k current file x opcode = .ok (rv, ops)) :
    Balanced (if rv ≠ 0 then ops else ops ++ difcFileRwRelease k file) ↔
      ¬ SetupLeaks k current file x opcode := by
  cases opcode with
  | single dir =>
      rw [aioSetupIocb] at h
      split at h
      · rename_i hmode
        exact iff_of_true (balanced_of_error h (by decide))
          fun hleak => by simp [hleak.1] at hmode
      rename_i hmode
      split at h
      · rename_i haccess
        exact iff_of_true (balanced_of_error h (by decide))
          fun hleak => by simp [hleak.2.1] at haccess
      rename_i haccess
      obtain ⟨⟨perm, taken⟩, hperm, h⟩ := bind_eq_ok.mp h
      dsimp only at h
      split at h
      · rename_i hdenied
        obtain ⟨rfl, rfl⟩ := Prod.mk.inj (Except.ok.inj h)
        obtain ⟨hb, hno⟩ := difcFilePermission_denied hperm hdenied
        exact iff_of_true (failed_balanced hb hdenied) fun hleak => hno hleak.2.2.1.permits
      · rename_i hgranted
        obtain rfl := Classical.not_not.1 hgranted
        obtain ⟨rfl, hrv⟩ := setRetry_cases h
        rw [granted_balanced_iff hperm hrv]
        exact not_congr ⟨fun hl => ⟨by simpa using hmode, by simpa using haccess, hl⟩,
          fun hl => hl.2.2⟩
  | vectored dir =>
      rw [aioSetupIocb] at h
      split at h
      · rename_i hmode
        exact iff_of_true (balanced_of_error h (by decide))
          fun hleak => by simp [hleak.1] at hmode
      rename_i hmode
      have hm : file.mode dir = true := by simpa using hmode
      obtain ⟨⟨perm, taken⟩, hperm, h⟩ := bind_eq_ok.mp h
      dsimp only at h
      split at h
      · rename_i hdenied
        obtain ⟨rfl, rfl⟩ := Prod.mk.inj (Except.ok.inj h)
        obtain ⟨hb, hno⟩ := difcFilePermission_denied hperm hdenied
        exact iff_of_true (failed_balanced hb hdenied) fun hleak => hno hleak.2.1.permits
      rename_i hgranted
      obtain rfl := Classical.not_not.1 hgranted
      split at h
      · rename_i hvec
        obtain ⟨rfl, rfl⟩ := Prod.mk.inj (Except.ok.inj h)
        rw [if_pos hvec, balanced_granted_iff hperm]
        exact not_congr ⟨fun hl => ⟨hm, hl, Or.inl hvec⟩, fun hl => hl.2.1⟩
      · rename_i hvec
        obtain ⟨rfl, hrv⟩ := setRetry_cases h
        rw [granted_balanced_iff hperm hrv]
        exact not_congr ⟨fun hl => ⟨hm, hl.1, Or.inr hl.2⟩,
          fun hl => ⟨hl.2.1, hl.2.2.resolve_left hvec⟩⟩
  | fsync => exact sync_balanced_iff h
  | fdsync => exact sync_balanced_iff h
  | other =>
      exact iff_of_true (balanced_of_error h (by decide)) id

theorem ioSubmitOne_balanced_iff {x : AioOutcome} {opcode : Opcode}
    (h : ioSubmitOne k current opcode x = .ok (rv, ops)) :
    Balanced ops ↔ ¬ FileCall.Leaks k current (.ioSubmit opcode x) := by
  unfold ioSubmitOne at h
  split at h
  · rename_i hres
    exact iff_of_true (balanced_of_exit h) fun hl => by simp [hl.1] at hres
  rename_i hres
  split at h
  · rename_i hover
    exact iff_of_true (balanced_of_exit h) fun hl => by simp [hl.2.1] at hover
  rename_i hover
  split at h
  · rename_i hfile
    refine iff_of_true (balanced_of_exit h) ?_
    rintro ⟨-, -, -, -, -, file, hf, -⟩
    simp [hf] at hfile
  rename_i file hfile
  split at h
  · rename_i hreq
    exact iff_of_true (balanced_of_exit h) fun hl => by simp [hl.2.2.1] at hreq
  rename_i hreq
  split at h
  · rename_i e hevent
    exact iff_of_true (balanced_of_exit h) fun hl => by simp [hl.2.2.2.1] at hevent
  rename_i hevent
  split at h
  · rename_i hput
    exact iff_of_true (balanced_of_exit h) fun hl => hput hl.2.2.2.2.1
  rename_i hput
  obtain ⟨⟨ret, taken⟩, hsetup, h⟩ := bind_eq_ok.mp h
  have hops : ops = if ret ≠ 0 then taken else taken ++ difcFileRwRelease k file := by
    dsimp only at h
    split at h
    · rename_i hret
      rw [if_pos hret]
      exact (Prod.mk.inj (Except.ok.inj h)).2.symm
    · rename_i hret
      rw [if_neg hret]
      exact (Prod.mk.inj (Except.ok.inj h)).2.symm
  rw [hops, aioSetupIocb_balanced_iff hsetup]
  refine not_congr ⟨fun hl => ?_, fun ⟨_, _, _, _, _, file', hf, hl⟩ => ?_⟩
  · exact ⟨by simpa using hres, by simpa using hover, by simpa using hreq, hevent,
      Classical.not_not.1 hput, file, hfile, hl⟩
  · exact Option.some.inj (hfile.symm.trans hf) ▸ hl

/-- A call that returns is balanced exactly if it takes none of the leaking paths. -/
theorem FileCall.run_balanced_iff {c : FileCall} (h : c.run k current = .ok (rv, ops)) :
    Balanced ops ↔ ¬ c.Leaks k current := by
  cases c with
  | read file x => exact iff_of_true (vfsRw_balanced h) id
  | write file x => exact iff_of_true (vfsRw_balanced h) id
  | readvWritev dir file x => exact iff_of_true (doReadvWritev_balanced h) id
  | compatReadvWritev dir file x => exact iff_of_true (compatDoReadvWritev_balanced h) id
  | sendfile x => exact doSendfile_balanced_iff h
  | readdir file deadDir res => exact vfsReaddir_balanced_iff h
  | ioSubmit opcode x => exact ioSubmitOne_balanced_iff h

end Paths

end Laminar.Vfs
