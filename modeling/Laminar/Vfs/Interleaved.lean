import Mathlib.Data.List.Perm.Basic
import Laminar.Vfs.Declassify
import Laminar.Vfs.Readers

/-!
# Accesses that take time

A read or a write of a file is not one step.  `difc_file_permission` takes the read side of
the inode's `label_change_sem` and compares the labels, the data moves in as many pieces as
the file's operation likes, and `difc_file_rw_release` gives the semaphore back.  In between,
other tasks run.  `difc_inode_set_label` takes the write side, checks, stores the label and
releases.  The steps here are these parts, in any interleaving of any number of tasks.

The point of the semaphore is that a permission stays true for as long as it is used: the
label of the inode cannot change while somebody is inside, and a task that is inside changes
its own label in no other way than by returning first.  Two things get past it.  The attribute
`security.difc` is set without the semaphore, and `io_submit` releases it although the request
may be queued and moves its data later.  `access_allowed_of_run` says what is left for every
piece of data, and `interleaved_escape_has_cause` draws the consequence for the marks.

What is checked by `difc_inode_permission` alone (opening a file, looking up a name) takes
no semaphore and moves no data here.  A call that returns with the semaphore still taken, as
`vfs_readdir` does, is `abandon`.
-/

namespace Laminar.Vfs

open Laminar.Lib Laminar.Kernel

/-! ## The parts of a call -/

/-- An access that `difc_file_permission` has granted and that is not finished.  `overwritten` is
not in the source: it records whether the attribute of the inode has been set since. -/
structure Access where
  pid : Pid
  file : File
  mask : BitVec 32
  overwritten : Bool

/-- A task in `difc_inode_set_label` that has the write side, with the label it copied from
the user.  Two fields are not in the source: `checkedBy`, the task as it was when it passed the
checks, and whether the attribute of the inode has been set since. -/
structure Relabel where
  pid : Pid
  inode : Ino
  label : LabelStruct
  checkedBy : Option Task
  overwritten : Bool

/-- The kernel with its marks, the calls under way, and the requests that were released while they
were queued. -/
structure Concurrent where
  state : Marked
  accesses : List Access
  relabels : List Relabel
  queued : List Access

inductive Action
  /-- `difc_file_permission`, if it grants -/
  | enter (file : File) (mask : BitVec 32)
  /-- a piece of the data of the access moves -/
  | move (n : Nat)
  /-- `difc_file_rw_release` -/
  | leave (n : Nat)
  /-- return without it -/
  | abandon (n : Nat)
  /-- `difc_file_rw_release` in `io_submit_one`, of a request that is queued -/
  | queue (n : Nat)
  /-- a piece of the data of a queued request moves -/
  | moveQueued (n : Nat)
  /-- `down_write` in `difc_inode_set_label` -/
  | downWrite (i : Ino) (label : LabelStruct)
  /-- the two checks; if they fail, `up_write` -/
  | check
  /-- store the label, `up_write` -/
  | store
  | produce
  /-- any other call -/
  | call (c : Call)
  /-- data moves and no hook sees it -/
  | unhooked (src dest : Holder)
  /-- set the attribute `security.difc`, without the semaphore -/
  | setxattr (i : Ino) (value : XattrValue)
  /-- an inode that is not in use is read into memory, perhaps not for the first time -/
  | readInode (i : Ino) (aliasParents : List Ino)

namespace Concurrent

/-- The task is in no call. -/
def idle (s : Concurrent) (p : Pid) : Bool :=
  s.accesses.all (·.pid ≠ p) && s.relabels.all (·.pid ≠ p)

/-- With other readers. -/
def setReaders (s : Concurrent) (holds : Ino → Nat) : Concurrent :=
  { s with state := { s.state with kernel := withReaders s.state.kernel holds } }

/-- With other marks. -/
def setMarks (s : Concurrent) (marks : ListKind → Holder → Set LabelT) : Concurrent :=
  { s with state := { s.state with marks := marks } }

/-- The inode's label was overwritten, under the accesses and the relabeling that are under
way. -/
def overwrite (s : Concurrent) (i : Ino) : Concurrent :=
  { s with
    accesses := s.accesses.map fun a =>
      { a with overwritten := a.overwritten || decide (a.file.inode = i) }
    relabels := s.relabels.map fun r =>
      { r with overwritten := r.overwritten || decide (r.inode = i) } }

/-- `difc_file_rw_release` at the end of access `n`, which is `a`. -/
def release (s : Concurrent) (n : Nat) (a : Access) : Option Concurrent :=
  (replay (difcFileRwRelease s.state.kernel a.file) (readers s.state.kernel)).map fun holds =>
    { s.setReaders holds with accesses := s.accesses.eraseIdx n }

/-- The end of `difc_inode_set_label`. -/
def upWrite (s : Concurrent) (p : Pid) : Concurrent :=
  { s with relabels := s.relabels.filter (·.pid ≠ p) }

/-- The inode whose label the task is about to change. -/
def target (s : Concurrent) (p : Pid) (checked : Bool) :
    Option (Relabel × Inode × ObjectSecurityStruct) := do
  let r ← s.relabels.find? fun r => r.pid = p && r.checkedBy.isSome == checked
  let inode ← s.state.kernel.inode r.inode
  let oss ← inode.iSecurity
  return (r, inode, oss)

/-- One step of task `p`, which is `tsk`; `none` if it waits or is refused. -/
def stepAs (s : Concurrent) (p : Pid) (tsk : Task) : Action → Option Concurrent
  | .enter file mask =>
      -- `down_read` waits while somebody has the write side
      if s.relabels.any (fun r => r.pid = p || r.inode = file.inode) ||
          (s.state.kernel.inode file.inode).isNone then none
      else match difcFilePermission s.state.kernel tsk file mask with
        | .ok (0, ops) => (replay ops (readers s.state.kernel)).map fun holds =>
            { s.setReaders holds with accesses := ⟨p, file, mask, false⟩ :: s.accesses }
        | _ => none
  | .move n =>
      (s.accesses[n]?).bind fun a =>
        if a.pid = p then
          some (s.setMarks fun side => moveData (s.state.marks side) p a.file.inode a.mask)
        else none
  | .leave n =>
      (s.accesses[n]?).bind fun a => if a.pid = p then s.release n a else none
  | .abandon n =>
      (s.accesses[n]?).bind fun a =>
        if a.pid = p then some { s with accesses := s.accesses.eraseIdx n } else none
  | .queue n =>
      (s.accesses[n]?).bind fun a =>
        if a.pid = p then
          (s.release n a).map fun s' => { s' with queued := a :: s.queued }
        else none
  | .moveQueued n =>
      (s.queued[n]?).bind fun a =>
        if a.pid = p then
          some (s.setMarks fun side => moveData (s.state.marks side) p a.file.inode a.mask)
        else none
  | .downWrite i label =>
      if !s.idle p || s.relabels.any (·.inode = i) then none
      else ((s.state.kernel.inode i).bind Inode.iSecurity).bind fun oss =>
        match Kernel.downWrite oss.labelChangeSem with
        | .ok _ => some { s with relabels := ⟨p, i, label, none, false⟩ :: s.relabels }
        | .error _ => none
  | .check =>
      (s.target p false).bind fun (r, inode, oss) =>
        match checkInodeSetLabel s.state.kernel tsk inode oss.label r.label with
        | .ok rv =>
            some (if rv = 0 then
              { s with relabels := { r with checkedBy := some tsk, overwritten := false } ::
                (s.upWrite p).relabels }
            else s.upWrite p)
        | .error _ => none
  | .store =>
      (s.target p true).map fun (r, inode, oss) =>
        let inode := { inode with iSecurity := some { oss with label := r.label } }
        { s.upWrite p with
          state := { s.state with kernel := s.state.kernel.setInode r.inode inode } }
  | .produce =>
      some (s.setMarks fun side => Function.update (s.state.marks side) (.task p)
        (s.state.marks side (.task p) ∪ s.state.bound side (.task p)))
  | .call (.inodeSetLabel _ _) => none
  | .call c =>
      if s.idle p then
        match performAs s.state.kernel p tsk c with
        | .ok (ret, k') => some { s with state :=
            ⟨k', fun side => carry s.state.kernel p tsk (s.state.marks side) c ret⟩ }
        | .error _ => none
      else none
  | .unhooked src dest => some (s.setMarks fun side => flow (s.state.marks side) src dest)
  | .setxattr i value =>
      if s.idle p then
        (s.state.kernel.inode i).bind fun inode =>
          match difcInodeSetsecurity inode.iSecurity xattrDifcSuffix (some value.bytes) with
          | .ok (_, isec) =>
              some { s.overwrite i with state := { s.state with
                kernel := s.state.kernel.setInode i { inode with iSecurity := isec } } }
          | .error _ => none
      else none
  | .readInode i aliasParents =>
      -- an inode stays in memory while a call or a queued request has it
      if s.accesses.all (·.file.inode ≠ i) && s.queued.all (·.file.inode ≠ i) &&
          s.relabels.all (·.inode ≠ i) then
        some { s with state := { s.state with
          kernel := s.state.kernel.setInode i (allocInode aliasParents) } }
      else none

/-- One step. -/
def step (s : Concurrent) (a : Pid × Action) : Option Concurrent :=
  (s.state.kernel.task a.1).bind fun tsk => s.stepAs a.1 tsk a.2

end Concurrent

/-! ## What a call leaves alone -/

/-- Every task goes on, and tasks other than `p` keep their labels; every inode stays as it
is. -/
structure Framed (k k' : Kernel) (p : Pid) : Prop where
  task : ∀ q tsk, k.task q = some tsk → ∃ tsk', k'.task q = some tsk' ∧ (q ≠ p →
    tsk'.security.map TaskSecurityStruct.label = tsk.security.map TaskSecurityStruct.label)
  inode : ∀ i inode, k.inode i = some inode → k'.inode i = some inode

namespace Framed

variable {k k' k'' : Kernel} {p : Pid}

theorem refl (k : Kernel) (p : Pid) : Framed k k p :=
  ⟨fun _ tsk h => ⟨tsk, h, fun _ => rfl⟩, fun _ _ h => h⟩

theorem trans (h : Framed k k' p) (h' : Framed k' k'' p) : Framed k k'' p := by
  constructor
  · intro q tsk hq
    obtain ⟨tsk', hq', hlabel⟩ := h.task q tsk hq
    obtain ⟨tsk'', hq'', hlabel'⟩ := h'.task q tsk' hq'
    exact ⟨tsk'', hq'', fun hne => (hlabel' hne).trans (hlabel hne)⟩
  · exact fun i inode hi => h'.inode i inode (h.inode i inode hi)

/-- A write to a security structure that is the caller's or keeps the label. -/
theorem modifySecurity (k : Kernel) (q : Pid) {f : TaskSecurityStruct → TaskSecurityStruct}
    (hf : q ≠ p → ∀ tsec, (f tsec).label = tsec.label) : Framed k (k.modifySecurity q f) p := by
  refine ⟨fun x tsk hx => ?_, fun _ _ h => h⟩
  by_cases hxq : x = q
  · subst hxq
    refine ⟨{ tsk with security := tsk.security.map f }, ?_, fun hne => ?_⟩
    · simp only [Kernel.modifySecurity, if_true, hx, Option.map_some]
    · rw [Option.map_map]
      exact Option.map_congr fun tsec _ => hf hne tsec
  · exact ⟨tsk, by simp only [Kernel.modifySecurity, if_neg hxq, hx], fun _ => rfl⟩

theorem addTask (child : Pid) (t : Task) (hnew : k.task child = none) :
    Framed k (k.addTask child t) p := by
  refine ⟨fun q tsk hq => ⟨tsk, ?_, fun _ => rfl⟩, fun _ _ h => h⟩
  have hne : q ≠ child := by
    rintro rfl
    rw [hnew] at hq
    cases hq
  simp only [Kernel.addTask, if_neg hne, hq]

theorem setInode (i : Ino) (n : Inode) (hnew : k.inode i = none) :
    Framed k (k.setInode i n) p := by
  refine ⟨fun _ tsk h => ⟨tsk, h, fun _ => rfl⟩, fun j inode hj => ?_⟩
  have hne : j ≠ i := by
    rintro rfl
    rw [hnew] at hj
    cases hj
  simp only [Kernel.setInode, if_neg hne, hj]

/-- A call other than `difc_inode_set_label` writes the label of no other task and no inode
that exists. -/
theorem performAs {tsk : Task} {c : Call} {ret : Ret}
    (hset : ∀ i label, c ≠ .inodeSetLabel i label)
    (h : Kernel.performAs k p tsk c = .ok (ret, k')) : Framed k k' p := by
  cases c with
  | allocLabel type region =>
      obtain ⟨⟨label, k₁⟩, halloc, hret⟩ := bind_eq_ok.mp h
      obtain ⟨-, rfl⟩ := Prod.mk.inj (Except.ok.inj hret)
      obtain ⟨k₂, hfold, hret⟩ := bind_eq_ok.mp halloc
      obtain ⟨-, rfl⟩ := Prod.mk.inj (Except.ok.inj hret)
      refine foldlM_invariant (P := fun k₁ => Framed k k₁ p) ?_ ?_ hfold
      · intro k₁ q _ k₂ ih hone
        unfold difcAllocLabelTo at hone
        split at hone
        · obtain rfl := Except.ok.inj hone
          exact ih.trans (.modifySecurity k₁ q fun _ _ => rfl)
        · cases hone
      · exact ⟨(refl k p).task, (refl k p).inode⟩
  | dropCapabilities buf type flag =>
      obtain ⟨n, rfl, hhook⟩ := int_eq_ok h
      rcases difcDropCapabilities_eq_ok hhook with rfl | ⟨_, _, -, -, rfl⟩
      · exact refl _ p
      · exact .modifySecurity k p fun hne => absurd rfl hne
  | resumeCapabilities buf type =>
      obtain ⟨n, rfl, hhook⟩ := int_eq_ok h
      rcases difcResumeCapabilities_eq_ok hhook with rfl | ⟨_, _, -, -, rfl⟩
      · exact refl _ p
      · exact .modifySecurity k p fun hne => absurd rfl hne
  | sendCapabilities pid buf type =>
      obtain ⟨n, rfl, hhook⟩ := int_eq_ok h
      rcases difcSendCapabilities_eq_ok hhook with rfl | ⟨_, _, _, _, -, -, -, -, rfl⟩
      · exact refl _ p
      · exact trans (.modifySecurity k p fun hne => absurd rfl hne)
          (.modifySecurity _ pid fun _ _ => rfl)
  | setTaskLabel label opType labelType bulkLabel =>
      obtain ⟨n, rfl, hhook⟩ := int_eq_ok h
      rcases difcSetTaskLabel_cases hhook with
        ⟨rfl, -⟩ | ⟨ulabel, -, -, -, -, rfl⟩ | ⟨lbl, -, -, rfl⟩
      · exact refl _ p
      · exact .modifySecurity k p fun hne => absurd rfl hne
      · exact .modifySecurity k p fun hne => absurd rfl hne
  | replaceLabelTcb label =>
      obtain ⟨n, rfl, hhook⟩ := int_eq_ok h
      rcases difcReplaceLabelTcb_cases hhook with ⟨rfl, -⟩ | ⟨_, _, -, -, -, -, rfl⟩
      · exact refl _ p
      · exact .modifySecurity k p fun hne => absurd rfl hne
  | inodeSetLabel i label => exact absurd rfl (hset i label)
  | createInode i dir lbl req =>
      obtain ⟨n, rfl, hhook⟩ := int_eq_ok h
      unfold createInodeFor at hhook
      split at hhook
      · obtain ⟨-, rfl⟩ := Prod.mk.inj (Except.ok.inj hhook)
        exact refl _ p
      · rename_i hnone
        obtain ⟨⟨rv, isec, value⟩, -, hret⟩ := bind_eq_ok.mp hhook
        obtain ⟨-, rfl⟩ := Prod.mk.inj (Except.ok.inj hret)
        exact .setInode i _ (Option.not_isSome_iff_eq_none.1 hnone)
  | fork child thread outOfMemory =>
      obtain ⟨n, rfl, hhook⟩ := int_eq_ok h
      have hfork := Except.ok.inj hhook
      unfold forkTask at hfork
      split at hfork
      · obtain ⟨-, rfl⟩ := Prod.mk.inj hfork
        exact refl _ p
      split at hfork
      · obtain ⟨-, rfl⟩ := Prod.mk.inj hfork
        exact refl _ p
      · rename_i hnone
        obtain ⟨-, rfl⟩ := Prod.mk.inj hfork
        exact .addTask child _ (Option.not_isSome_iff_eq_none.1 hnone)
  | exec i outOfMemory =>
      obtain ⟨n, rfl, hhook⟩ := int_eq_ok h
      rcases execProgram_cases hhook with rfl | ⟨_, _, -, -, rfl⟩
      · exact refl _ p
      · exact .modifySecurity k p fun hne => absurd rfl hne

end Framed

/-! ## A permission depends on two labels -/

theorem difcInodePermission_congr {tsk tsk' : Task} {isec isec' : Option ObjectSecurityStruct}
    (ht : tsk'.security.map TaskSecurityStruct.label = tsk.security.map TaskSecurityStruct.label)
    (hi : isec'.map ObjectSecurityStruct.label = isec.map ObjectSecurityStruct.label)
    (mask : BitVec 32) :
    difcInodePermission tsk' isec' mask = difcInodePermission tsk isec mask := by
  have htask : ∀ t : Task, taskGetLabels t =
      (t.security.map TaskSecurityStruct.label).all LabelStruct.unlabeled := by
    intro t
    rw [Option.all_map]
    rfl
  have hinode : ∀ o : Option ObjectSecurityStruct, (o.all fun oss => oss.label.unlabeled) =
      (o.map ObjectSecurityStruct.label).all LabelStruct.unlabeled := by
    intro o
    rw [Option.all_map]
  unfold difcInodePermission
  rw [htask, htask, hinode, hinode, ht, hi]

theorem difcFilePermission_congr {k k' : Kernel} {tsk tsk' : Task} {file : File}
    {mask : BitVec 32} {ops : List (LockOp Ino)}
    (ht : tsk'.security.map TaskSecurityStruct.label = tsk.security.map TaskSecurityStruct.label)
    (hi : (iSecurity k' file).map ObjectSecurityStruct.label =
      (iSecurity k file).map ObjectSecurityStruct.label)
    (h : difcFilePermission k tsk file mask = .ok (0, ops)) :
    ∃ ops', difcFilePermission k' tsk' file mask = .ok (0, ops') := by
  unfold difcFilePermission at h ⊢
  cases hk : iSecurity k file with
  | none =>
      rw [hk, Option.map_none, Option.map_eq_none_iff] at hi
      rw [hi]
      exact ⟨[], rfl⟩
  | some oss =>
      rw [hk] at h hi
      obtain ⟨oss', hk', hlabel⟩ := Option.map_eq_some_iff.1 hi
      obtain ⟨rv, hperm, hret⟩ := bind_eq_ok.mp h
      obtain ⟨rfl, -⟩ := Prod.mk.inj (Except.ok.inj hret)
      have hsame : difcInodePermission tsk' (some oss') mask =
          difcInodePermission tsk (some oss) mask :=
        difcInodePermission_congr ht (by rw [Option.map_some, Option.map_some, hlabel]) mask
      rw [hk']
      exact ⟨_, bind_eq_ok.2 ⟨0, hsame.trans hperm, rfl⟩⟩

/-- A granted permission takes the semaphore of an inode that has one. -/
theorem difcFilePermission_ops {k : Kernel} {tsk : Task} {file : File} {mask : BitVec 32}
    {ops : List (LockOp Ino)} (h : difcFilePermission k tsk file mask = .ok (0, ops)) :
    ops = if (iSecurity k file).isSome then [.take file.inode] else [] := by
  unfold difcFilePermission at h
  split at h
  · rename_i hnone
    rw [hnone]
    exact (Prod.mk.inj (Except.ok.inj h)).2.symm
  · rename_i oss hoss
    obtain ⟨rv, -, hret⟩ := bind_eq_ok.mp h
    obtain ⟨rfl, hops⟩ := Prod.mk.inj (Except.ok.inj hret)
    rw [hoss]
    exact hops.symm

theorem iSecurity_withReaders (k : Kernel) (holds : Ino → Nat) (file : File) :
    iSecurity (withReaders k holds) file =
      (iSecurity k file).map fun oss => { oss with labelChangeSem := holds file.inode } := by
  simp only [iSecurity, withReaders]
  cases k.inode file.inode <;> rfl

theorem holderLabel_withReaders (k : Kernel) (holds : Ino → Nat) (x : Holder) :
    holderLabel (withReaders k holds) x = holderLabel k x := by
  cases x with
  | task p => rfl
  | inode i =>
      simp only [holderLabel, Kernel.inodeLabel, withReaders]
      cases k.inode i with
      | none => rfl
      | some inode =>
          simp only [Option.map_some, Option.bind_some, Option.map_map]
          rfl

/-- The access would be granted now. -/
def Allowed (k : Kernel) (a : Access) : Prop :=
  ∃ tsk ops, k.task a.pid = some tsk ∧ (k.inode a.file.inode).isSome ∧
    difcFilePermission k tsk a.file a.mask = .ok (0, ops)

namespace Allowed

variable {k k' : Kernel} {a : Access}

theorem framed (h : Allowed k a) {p : Pid} (hframe : Framed k k' p) (hne : a.pid ≠ p) :
    Allowed k' a := by
  obtain ⟨tsk, ops, htask, hsome, hperm⟩ := h
  obtain ⟨tsk', htask', hlabel⟩ := hframe.task a.pid tsk htask
  obtain ⟨inode, hinode⟩ := Option.isSome_iff_exists.1 hsome
  have hinode' := hframe.inode a.file.inode inode hinode
  have hsec : iSecurity k' a.file = iSecurity k a.file := by
    rw [iSecurity, iSecurity, hinode, hinode']
  obtain ⟨ops', hperm'⟩ := difcFilePermission_congr (hlabel hne)
    (congrArg (Option.map ObjectSecurityStruct.label) hsec) hperm
  exact ⟨tsk', ops', htask', by rw [hinode']; rfl, hperm'⟩

theorem withReaders (h : Allowed k a) (holds : Ino → Nat) : Allowed (withReaders k holds) a := by
  obtain ⟨tsk, ops, htask, hsome, hperm⟩ := h
  have hsec : (iSecurity (Vfs.withReaders k holds) a.file).map ObjectSecurityStruct.label =
      (iSecurity k a.file).map ObjectSecurityStruct.label := by
    rw [iSecurity_withReaders, Option.map_map]
    rfl
  obtain ⟨ops', hperm'⟩ := difcFilePermission_congr rfl hsec hperm
  exact ⟨tsk, ops', htask, by simpa [Vfs.withReaders] using hsome, hperm'⟩

theorem setInode (h : Allowed k a) {i : Ino} (n : Inode) (hne : a.file.inode ≠ i) :
    Allowed (k.setInode i n) a := by
  obtain ⟨tsk, ops, htask, hsome, hperm⟩ := h
  have hinode : (k.setInode i n).inode a.file.inode = k.inode a.file.inode := if_neg hne
  have hsec : iSecurity (k.setInode i n) a.file = iSecurity k a.file := by
    rw [iSecurity, iSecurity, hinode]
  obtain ⟨ops', hperm'⟩ := difcFilePermission_congr rfl
    (congrArg (Option.map ObjectSecurityStruct.label) hsec) hperm
  exact ⟨tsk, ops', htask, hinode ▸ hsome, hperm'⟩

end Allowed

/-! ## The invariant -/

namespace Concurrent

/-- The semaphore of an inode. -/
def sem (s : Concurrent) (i : Ino) : Option ObjectSecurityStruct :=
  (s.state.kernel.inode i).bind Inode.iSecurity

/-- How many accesses to an inode are under way. -/
def inside (s : Concurrent) (i : Ino) : Nat := s.accesses.countP fun a => a.file.inode = i

/-- What holds between any two steps: the semaphores count at least the accesses under way,
each of which would be granted again if its inode was not overwritten; who changes the label of an
inode is alone with it and does nothing else. -/
structure Sound (s : Concurrent) : Prop where
  counted : ∀ i oss, s.sem i = some oss → s.inside i ≤ oss.labelChangeSem
  present : ∀ a ∈ s.accesses, (s.state.kernel.inode a.file.inode).isSome
  allowed : ∀ a ∈ s.accesses, a.overwritten = false → Allowed s.state.kernel a
  exclusive : ∀ r ∈ s.relabels, ∀ a ∈ s.accesses, a.pid ≠ r.pid ∧ a.file.inode ≠ r.inode
  unique : ∀ r ∈ s.relabels, ∀ r' ∈ s.relabels, r.pid = r'.pid ∨ r.inode = r'.inode → r = r'
  live : ∀ r ∈ s.relabels, (s.sem r.inode).isSome

theorem inside_cons (a : Access) (s : Concurrent) (i : Ino) :
    inside { s with accesses := a :: s.accesses } i =
      s.inside i + if a.file.inode = i then 1 else 0 := by
  simp only [inside, List.countP_cons, decide_eq_true_eq]

theorem inside_eraseIdx {s : Concurrent} {n : Nat} {a : Access} (hn : s.accesses[n]? = some a)
    (i : Ino) : inside { s with accesses := s.accesses.eraseIdx n } i +
      (if a.file.inode = i then 1 else 0) = s.inside i := by
  obtain ⟨hlt, rfl⟩ := List.getElem?_eq_some_iff.1 hn
  have hperm := List.getElem_cons_eraseIdx_perm hlt
  simp only [inside]
  rw [← hperm.countP_eq, List.countP_cons]
  simp only [decide_eq_true_eq]

theorem target_eq_some {s : Concurrent} {p : Pid} {checked : Bool} {r : Relabel} {inode : Inode}
    {oss : ObjectSecurityStruct} (h : s.target p checked = some (r, inode, oss)) :
    r ∈ s.relabels ∧ r.pid = p ∧ r.checkedBy.isSome = checked ∧
      s.state.kernel.inode r.inode = some inode ∧ inode.iSecurity = some oss := by
  obtain ⟨r', hfind, h⟩ := Option.bind_eq_some_iff.1 h
  obtain ⟨inode', hinode, h⟩ := Option.bind_eq_some_iff.1 h
  obtain ⟨oss', hoss, h⟩ := Option.bind_eq_some_iff.1 h
  obtain ⟨rfl, hrest⟩ := Prod.mk.inj (Option.some.inj h)
  obtain ⟨rfl, rfl⟩ := Prod.mk.inj hrest
  have hprop := List.find?_some hfind
  simp only [Bool.and_eq_true, decide_eq_true_eq, beq_iff_eq] at hprop
  exact ⟨List.mem_of_find?_eq_some hfind, hprop.1, hprop.2, hinode, hoss⟩

theorem sem_setReaders (s : Concurrent) (holds : Ino → Nat) (i : Ino) :
    (s.setReaders holds).sem i =
      (s.sem i).map fun oss => { oss with labelChangeSem := holds i } := by
  simp only [sem, setReaders, withReaders]
  cases s.state.kernel.inode i <;> rfl

theorem readers_eq {s : Concurrent} {i : Ino} {oss : ObjectSecurityStruct}
    (h : s.sem i = some oss) : readers s.state.kernel i = oss.labelChangeSem := by
  rw [readers, show (s.state.kernel.inode i).bind Inode.iSecurity = some oss from h]
  rfl

theorem idle_iff {s : Concurrent} {p : Pid} :
    s.idle p = true ↔ (∀ a ∈ s.accesses, a.pid ≠ p) ∧ ∀ r ∈ s.relabels, r.pid ≠ p := by
  simp only [idle, Bool.and_eq_true, List.all_eq_true, decide_eq_true_eq]

theorem mem_upWrite {s : Concurrent} {p : Pid} {r : Relabel} :
    r ∈ (s.upWrite p).relabels ↔ r ∈ s.relabels ∧ r.pid ≠ p := by
  simp only [upWrite, List.mem_filter, decide_eq_true_eq]

/-! ### What an action has done

One lemma for each action that may have to wait or be refused: what it found, and the state
it leaves.
-/

section Actions

variable {s s' : Concurrent} {p : Pid} {tsk : Task}

theorem stepAs_enter {file : File} {mask : BitVec 32}
    (hstep : s.stepAs p tsk (.enter file mask) = some s') :
    (∀ r ∈ s.relabels, r.pid ≠ p ∧ r.inode ≠ file.inode) ∧
      (s.state.kernel.inode file.inode).isSome ∧
      ∃ ops holds, difcFilePermission s.state.kernel tsk file mask = .ok (0, ops) ∧
        replay ops (readers s.state.kernel) = some holds ∧
        s' = { s.setReaders holds with accesses := ⟨p, file, mask, false⟩ :: s.accesses } := by
  simp only [stepAs] at hstep
  split at hstep
  · cases hstep
  rename_i hfree
  simp only [Bool.or_eq_true, List.any_eq_true, decide_eq_true_eq, not_or, not_exists, not_and,
    Option.isNone_iff_eq_none] at hfree
  split at hstep
  · rename_i ops hperm
    obtain ⟨holds, hreplay, rfl⟩ := Option.map_eq_some_iff.1 hstep
    exact ⟨hfree.1, Option.isSome_iff_ne_none.2 hfree.2, ops, holds, hperm, hreplay, rfl⟩
  · cases hstep

theorem stepAs_move {n : Nat} (hstep : s.stepAs p tsk (.move n) = some s') :
    ∃ a, s.accesses[n]? = some a ∧ a.pid = p ∧
      s' = s.setMarks fun side => moveData (s.state.marks side) p a.file.inode a.mask := by
  obtain ⟨a, ha, hstep⟩ := Option.bind_eq_some_iff.1 hstep
  split at hstep
  · rename_i hpid
    exact ⟨a, ha, hpid, (Option.some.inj hstep).symm⟩
  · cases hstep

theorem stepAs_moveQueued {n : Nat} (hstep : s.stepAs p tsk (.moveQueued n) = some s') :
    ∃ a, s.queued[n]? = some a ∧ a.pid = p ∧
      s' = s.setMarks fun side => moveData (s.state.marks side) p a.file.inode a.mask := by
  obtain ⟨a, ha, hstep⟩ := Option.bind_eq_some_iff.1 hstep
  split at hstep
  · rename_i hpid
    exact ⟨a, ha, hpid, (Option.some.inj hstep).symm⟩
  · cases hstep

theorem stepAs_abandon {n : Nat} (hstep : s.stepAs p tsk (.abandon n) = some s') :
    ∃ a, s.accesses[n]? = some a ∧ s' = { s with accesses := s.accesses.eraseIdx n } := by
  obtain ⟨a, ha, hstep⟩ := Option.bind_eq_some_iff.1 hstep
  split at hstep
  · exact ⟨a, ha, (Option.some.inj hstep).symm⟩
  · cases hstep

theorem stepAs_downWrite {i : Ino} {label : LabelStruct}
    (hstep : s.stepAs p tsk (.downWrite i label) = some s') :
    s.idle p = true ∧ (∀ r ∈ s.relabels, r.inode ≠ i) ∧
      ∃ oss, s.sem i = some oss ∧ oss.labelChangeSem = 0 ∧
        s' = { s with relabels := ⟨p, i, label, none, false⟩ :: s.relabels } := by
  simp only [stepAs] at hstep
  split at hstep
  · cases hstep
  rename_i hfree
  simp only [Bool.or_eq_true, Bool.not_eq_true', List.any_eq_true, decide_eq_true_eq, not_or,
    Bool.not_eq_false, not_exists, not_and] at hfree
  obtain ⟨oss, hoss, hstep⟩ := Option.bind_eq_some_iff.1 hstep
  split at hstep
  · rename_i hsem
    exact ⟨hfree.1, hfree.2, oss, hoss, downWrite_eq_ok.1 hsem, (Option.some.inj hstep).symm⟩
  · cases hstep

theorem stepAs_check (hstep : s.stepAs p tsk .check = some s') :
    ∃ r inode oss rv, s.target p false = some (r, inode, oss) ∧
      checkInodeSetLabel s.state.kernel tsk inode oss.label r.label = .ok rv ∧
      s' = if rv = 0 then
          { s with relabels := { r with checkedBy := some tsk, overwritten := false } ::
            (s.upWrite p).relabels }
        else s.upWrite p := by
  obtain ⟨⟨r, inode, oss⟩, htarget, hstep⟩ := Option.bind_eq_some_iff.1 hstep
  dsimp only at hstep
  split at hstep
  · rename_i rv hcheck
    exact ⟨r, inode, oss, rv, htarget, hcheck, (Option.some.inj hstep).symm⟩
  · cases hstep

/-- Any other call is made by a task that is in no call, and done at once. -/
theorem stepAs_call {c : Call} (hstep : s.stepAs p tsk (.call c) = some s') :
    (∀ i label, c ≠ .inodeSetLabel i label) ∧ ∃ ret, s.idle p = true ∧
      performAs s.state.kernel p tsk c = .ok (ret, s'.state.kernel) ∧
      s'.accesses = s.accesses ∧ s'.relabels = s.relabels ∧
      s'.state.marks = fun side => carry s.state.kernel p tsk (s.state.marks side) c ret := by
  have hset : ∀ i label, c ≠ .inodeSetLabel i label := by
    rintro i label rfl
    cases hstep
  refine ⟨hset, ?_⟩
  cases c with
  | inodeSetLabel i label => exact absurd rfl (hset i label)
  | _ =>
      simp only [stepAs] at hstep
      split at hstep
      · rename_i hidle
        split at hstep
        · rename_i ret k' hperform
          obtain rfl := Option.some.inj hstep
          exact ⟨ret, hidle, hperform, rfl, rfl, rfl⟩
        · cases hstep
      · cases hstep

theorem stepAs_setxattr {i : Ino} {value : XattrValue}
    (hstep : s.stepAs p tsk (.setxattr i value) = some s') :
    ∃ inode rv isec, s.state.kernel.inode i = some inode ∧
      difcInodeSetsecurity inode.iSecurity xattrDifcSuffix (some value.bytes) = .ok (rv, isec) ∧
      s' = { s.overwrite i with state := { s.state with
        kernel := s.state.kernel.setInode i { inode with iSecurity := isec } } } := by
  simp only [stepAs] at hstep
  split at hstep
  · obtain ⟨inode, hinode, hstep⟩ := Option.bind_eq_some_iff.1 hstep
    split at hstep
    · rename_i rv isec hset
      exact ⟨inode, rv, isec, hinode, hset, (Option.some.inj hstep).symm⟩
    · cases hstep
  · cases hstep

theorem stepAs_readInode {i : Ino} {aliasParents : List Ino}
    (hstep : s.stepAs p tsk (.readInode i aliasParents) = some s') :
    (∀ a ∈ s.accesses, a.file.inode ≠ i) ∧ (∀ r ∈ s.relabels, r.inode ≠ i) ∧
      s' = { s with state := { s.state with
        kernel := s.state.kernel.setInode i (allocInode aliasParents) } } := by
  simp only [stepAs] at hstep
  split at hstep
  · rename_i hfree
    simp only [Bool.and_eq_true, List.all_eq_true, decide_eq_true_eq] at hfree
    exact ⟨hfree.1.1, hfree.2, (Option.some.inj hstep).symm⟩
  · cases hstep

/-- The request is released, and may be queued. -/
theorem stepAs_release {n : Nat} {action : Action} (haction : action = .leave n ∨ action = .queue n)
    (hstep : s.stepAs p tsk action = some s') :
    ∃ a s₁, s.accesses[n]? = some a ∧ s.release n a = some s₁ ∧
      s' = { s₁ with queued := s'.queued } := by
  rcases haction with rfl | rfl
  · obtain ⟨a, ha, hstep⟩ := Option.bind_eq_some_iff.1 hstep
    split at hstep
    · exact ⟨a, s', ha, hstep, rfl⟩
    · cases hstep
  · obtain ⟨a, ha, hstep⟩ := Option.bind_eq_some_iff.1 hstep
    split at hstep
    · obtain ⟨s₁, hrelease, rfl⟩ := Option.map_eq_some_iff.1 hstep
      exact ⟨a, s₁, ha, hrelease, rfl⟩
    · cases hstep

end Actions

/-! ### One action after the other -/

namespace Sound

variable {s s' : Concurrent} (h : s.Sound) {p : Pid} {tsk : Task}

include h

/-- Other counts, as long as they cover the accesses. -/
private theorem setReaders {accesses : List Access} {holds : Ino → Nat}
    (hcount : ∀ i oss, s.sem i = some oss →
      inside { s with accesses := accesses } i ≤ holds i)
    (hpresent : ∀ a ∈ accesses, (s.state.kernel.inode a.file.inode).isSome)
    (hallowed : ∀ a ∈ accesses, a.overwritten = false → Allowed s.state.kernel a)
    (hexclusive : ∀ r ∈ s.relabels, ∀ a ∈ accesses, a.pid ≠ r.pid ∧ a.file.inode ≠ r.inode) :
    Sound { s.setReaders holds with accesses := accesses } := by
  refine ⟨fun i oss hoss => ?_, fun a ha => ?_, fun a ha hfresh => ?_, hexclusive, h.unique,
    fun r hr => ?_⟩
  · have hsem : (s.setReaders holds).sem i = some oss := hoss
    rw [sem_setReaders] at hsem
    obtain ⟨old, hold, rfl⟩ := Option.map_eq_some_iff.1 hsem
    exact hcount i old hold
  · show ((s.state.kernel.inode a.file.inode).map _).isSome
    rw [Option.isSome_map]
    exact hpresent a ha
  · exact (hallowed a ha hfresh).withReaders holds
  · have hlive := h.live r hr
    show ((s.setReaders holds).sem r.inode).isSome
    rw [sem_setReaders, Option.isSome_map]
    exact hlive

private theorem enter {file : File} {mask : BitVec 32} (htask : s.state.kernel.task p = some tsk)
    (hstep : s.stepAs p tsk (.enter file mask) = some s') : s'.Sound := by
  obtain ⟨hwriter, hsome, ops, holds, hperm, hreplay, rfl⟩ := stepAs_enter hstep
  refine h.setReaders ?_ (List.forall_mem_cons.2 ⟨hsome, h.present⟩)
    (List.forall_mem_cons.2 ⟨fun _ => ⟨tsk, ops, htask, hsome, hperm⟩, h.allowed⟩) ?_
  · intro i oss hoss
    have hcount := h.counted i oss hoss
    rw [inside_cons]
    rw [difcFilePermission_ops hperm] at hreplay
    by_cases hi : file.inode = i
    · subst hi
      rw [show iSecurity s.state.kernel file = some oss from hoss] at hreplay
      obtain rfl := Option.some.inj hreplay
      simp only [if_true, readers_eq hoss]
      omega
    · simp only [if_neg hi, Nat.add_zero]
      split at hreplay
      · obtain rfl := Option.some.inj hreplay
        simp only [if_neg (Ne.symm hi), readers_eq hoss]
        exact hcount
      · obtain rfl := Option.some.inj hreplay
        rw [readers_eq hoss]
        exact hcount
  · intro r hr a ha
    rcases List.mem_cons.1 ha with rfl | ha
    · exact ⟨Ne.symm (hwriter r hr).1, Ne.symm (hwriter r hr).2⟩
    · exact h.exclusive r hr a ha

private theorem release {n : Nat} {a : Access} (ha : s.accesses[n]? = some a)
    (hrelease : s.release n a = some s') : s'.Sound := by
  obtain ⟨holds, hreplay, rfl⟩ := Option.map_eq_some_iff.1 hrelease
  refine h.setReaders ?_ (fun b hb => h.present b (List.mem_of_mem_eraseIdx hb))
    (fun b hb => h.allowed b (List.mem_of_mem_eraseIdx hb))
    fun r hr b hb => h.exclusive r hr b (List.mem_of_mem_eraseIdx hb)
  intro i oss hoss
  have hcount := h.counted i oss hoss
  have herase := inside_eraseIdx ha i
  unfold difcFileRwRelease at hreplay
  by_cases hi : a.file.inode = i
  · subst hi
    rw [show iSecurity s.state.kernel a.file = some oss from hoss] at hreplay
    simp only [Option.isSome_some, if_true, replay, LockOp.apply, readers_eq hoss] at hreplay
    split at hreplay
    · cases hreplay
    · obtain rfl := Option.some.inj hreplay
      simp only [if_true, readers_eq hoss] at herase ⊢
      omega
  · rw [if_neg hi] at herase
    have hsame : holds i = oss.labelChangeSem := by
      split at hreplay
      · simp only [replay, LockOp.apply] at hreplay
        split at hreplay
        · cases hreplay
        · obtain rfl := Option.some.inj hreplay
          simp only [if_neg (Ne.symm hi), readers_eq hoss]
      · obtain rfl := Option.some.inj hreplay
        exact readers_eq hoss
    omega

private theorem abandon {n : Nat} (hstep : s.stepAs p tsk (.abandon n) = some s') :
    s'.Sound := by
  obtain ⟨a, ha, rfl⟩ := stepAs_abandon hstep
  refine ⟨fun i oss hoss => ?_, fun b hb => h.present b (List.mem_of_mem_eraseIdx hb),
    fun b hb => h.allowed b (List.mem_of_mem_eraseIdx hb),
    fun r hr b hb => h.exclusive r hr b (List.mem_of_mem_eraseIdx hb), h.unique, h.live⟩
  have hcount := h.counted i oss hoss
  have herase := inside_eraseIdx ha i
  omega

private theorem downWrite {i : Ino} {label : LabelStruct}
    (hstep : s.stepAs p tsk (.downWrite i label) = some s') : s'.Sound := by
  obtain ⟨hidle, hwriter, oss, hoss, hsem, rfl⟩ := stepAs_downWrite hstep
  obtain ⟨hnoAccess, hnoRelabel⟩ := idle_iff.1 hidle
  -- the write side is free: nobody is inside
  have hnone : ∀ a ∈ s.accesses, a.file.inode ≠ i := by
    have hcount := h.counted i oss hoss
    rw [hsem, Nat.le_zero, inside, List.countP_eq_zero] at hcount
    intro a ha hi
    exact hcount a ha (decide_eq_true hi)
  refine ⟨h.counted, h.present, h.allowed, ?_, ?_, ?_⟩
  · intro r hr a ha
    rcases List.mem_cons.1 hr with rfl | hr
    · exact ⟨hnoAccess a ha, hnone a ha⟩
    · exact h.exclusive r hr a ha
  · intro r hr r' hr' heq
    rcases List.mem_cons.1 hr with rfl | hr <;> rcases List.mem_cons.1 hr' with rfl | hr'
    · rfl
    · rcases heq with heq | heq
      · exact absurd heq.symm (hnoRelabel r' hr')
      · exact absurd heq.symm (hwriter r' hr')
    · rcases heq with heq | heq
      · exact absurd heq (hnoRelabel r hr)
      · exact absurd heq (hwriter r hr)
    · exact h.unique r hr r' hr' heq
  · intro r hr
    rcases List.mem_cons.1 hr with rfl | hr
    · show (s.sem i).isSome
      rw [hoss]
      rfl
    · exact h.live r hr

/-- After `up_write` the others go on. -/
theorem upWrite (p : Pid) : (s.upWrite p).Sound :=
  ⟨h.counted, h.present, h.allowed, fun r hr => h.exclusive r (mem_upWrite.1 hr).1,
    fun r hr r' hr' => h.unique r (mem_upWrite.1 hr).1 r' (mem_upWrite.1 hr').1,
    fun r hr => h.live r (mem_upWrite.1 hr).1⟩

private theorem check (hstep : s.stepAs p tsk .check = some s') : s'.Sound := by
  obtain ⟨r, inode, oss, rv, htarget, -, rfl⟩ := stepAs_check hstep
  obtain ⟨hr, rfl, -, hinode, hoss⟩ := target_eq_some htarget
  split
  · -- only the record of the task's own entry has changed
    have hup := h.upWrite r.pid
    refine ⟨h.counted, h.present, h.allowed, ?_, ?_, ?_⟩
    · intro r' hr' a ha
      rcases List.mem_cons.1 hr' with rfl | hr'
      · exact h.exclusive r hr a ha
      · exact hup.exclusive r' hr' a ha
    · have hother : ∀ r' ∈ (s.upWrite r.pid).relabels,
          ¬ (r.pid = r'.pid ∨ r.inode = r'.inode) := by
        intro r' hr' heq
        obtain ⟨hmem, hne⟩ := mem_upWrite.1 hr'
        exact hne (h.unique r hr r' hmem heq ▸ rfl)
      intro r₁ hr₁ r₂ hr₂ heq
      rcases List.mem_cons.1 hr₁ with rfl | hr₁ <;> rcases List.mem_cons.1 hr₂ with rfl | hr₂
      · rfl
      · exact absurd heq (hother r₂ hr₂)
      · exact absurd (heq.imp Eq.symm Eq.symm) (hother r₁ hr₁)
      · exact hup.unique r₁ hr₁ r₂ hr₂ heq
    · intro r' hr'
      rcases List.mem_cons.1 hr' with rfl | hr'
      · exact h.live r hr
      · exact hup.live r' hr'
  · exact h.upWrite r.pid

/-- The inode of a relabeling or of `setxattr` is replaced by one with the same semaphore. -/
private theorem setInode {i : Ino} {inode : Inode} {isec : Option ObjectSecurityStruct}
    {state : Marked} (hinode : s.state.kernel.inode i = some inode)
    (hsem : isec.map ObjectSecurityStruct.labelChangeSem =
      inode.iSecurity.map ObjectSecurityStruct.labelChangeSem)
    (hstate : state.kernel = s.state.kernel.setInode i { inode with iSecurity := isec })
    (hallowed : ∀ a ∈ s.accesses, a.overwritten = false → a.file.inode ≠ i) :
    Sound { s with state := state } := by
  have hother : ∀ j, j ≠ i → state.kernel.inode j = s.state.kernel.inode j := by
    intro j hj
    rw [hstate]
    exact if_neg hj
  have hself : state.kernel.inode i = some { inode with iSecurity := isec } := by
    rw [hstate]
    exact if_pos rfl
  refine ⟨fun j oss hoss => ?_, fun a ha => ?_, fun a ha hfresh => ?_, h.exclusive, h.unique,
    fun r hr => ?_⟩
  · by_cases hj : j = i
    · subst hj
      rw [sem, hself, Option.bind_some] at hoss
      rw [show isec = some oss from hoss, Option.map_some] at hsem
      obtain ⟨old, hold, heq⟩ := Option.map_eq_some_iff.1 hsem.symm
      rw [← heq]
      exact h.counted j old (by rw [sem, hinode, Option.bind_some, hold])
    · refine h.counted j oss ?_
      rw [sem, hother j hj] at hoss
      exact hoss
  · by_cases hj : a.file.inode = i
    · show (state.kernel.inode _).isSome
      rw [hj, hself]
      rfl
    · show (state.kernel.inode _).isSome
      rw [hother _ hj]
      exact h.present a ha
  · show Allowed state.kernel a
    rw [hstate]
    exact (h.allowed a ha hfresh).setInode _ (hallowed a ha hfresh)
  · have hlive := h.live r hr
    by_cases hj : r.inode = i
    · rw [hj, sem, hinode, Option.bind_some] at hlive
      rw [hj, sem, hself, Option.bind_some]
      have hsome := congrArg Option.isSome hsem
      rw [Option.isSome_map, Option.isSome_map, hlive] at hsome
      exact hsome
    · rw [sem, hother _ hj]
      exact hlive

private theorem store (hstep : s.stepAs p tsk .store = some s') : s'.Sound := by
  obtain ⟨⟨r, inode, oss⟩, htarget, rfl⟩ := Option.map_eq_some_iff.1 hstep
  obtain ⟨hr, rfl, -, hinode, hoss⟩ := target_eq_some htarget
  refine (h.upWrite r.pid).setInode hinode ?_ rfl fun a ha _ => (h.exclusive r hr a ha).2
  rw [hoss]
  rfl

/-- The accesses and the relabeling of the inode are marked as overwritten. -/
theorem overwrite (i : Ino) : (s.overwrite i).Sound ∧
    ∀ a ∈ (s.overwrite i).accesses, a.overwritten = false → a.file.inode ≠ i := by
  have hinside : ∀ j, (s.overwrite i).inside j = s.inside j := by
    intro j
    rw [inside, inside, Concurrent.overwrite, List.countP_map]
    rfl
  refine ⟨⟨fun j oss hoss => ?_, fun a ha => ?_, fun a ha hfresh => ?_, fun r hr a ha => ?_,
    fun r hr r' hr' heq => ?_, fun r hr => ?_⟩, fun a ha hfresh => ?_⟩
  · rw [hinside]
    exact h.counted j oss hoss
  · obtain ⟨b, hb, rfl⟩ := List.mem_map.1 ha
    exact h.present b hb
  · obtain ⟨b, hb, rfl⟩ := List.mem_map.1 ha
    obtain ⟨hfresh, -⟩ := Bool.or_eq_false_iff.1 hfresh
    exact h.allowed b hb hfresh
  · obtain ⟨b, hb, rfl⟩ := List.mem_map.1 ha
    obtain ⟨q, hq, rfl⟩ := List.mem_map.1 hr
    exact h.exclusive q hq b hb
  · obtain ⟨q, hq, rfl⟩ := List.mem_map.1 hr
    obtain ⟨q', hq', rfl⟩ := List.mem_map.1 hr'
    rw [h.unique q hq q' hq' heq]
  · obtain ⟨q, hq, rfl⟩ := List.mem_map.1 hr
    exact h.live q hq
  · obtain ⟨b, -, rfl⟩ := List.mem_map.1 ha
    obtain ⟨-, hne⟩ := Bool.or_eq_false_iff.1 hfresh
    exact of_decide_eq_false hne

private theorem setxattr {i : Ino} {value : XattrValue}
    (hstep : s.stepAs p tsk (.setxattr i value) = some s') : s'.Sound := by
  obtain ⟨inode, rv, isec, hinode, hset, rfl⟩ := stepAs_setxattr hstep
  obtain ⟨hsound, hallowed⟩ := h.overwrite i
  exact hsound.setInode hinode (labelChangeSem_of_setsecurity hset) rfl hallowed

/-- An inode that nobody uses has no semaphore that counts. -/
private theorem readInode {i : Ino} {aliasParents : List Ino}
    (hstep : s.stepAs p tsk (.readInode i aliasParents) = some s') : s'.Sound := by
  obtain ⟨haccesses, hrelabels, rfl⟩ := stepAs_readInode hstep
  have hother : ∀ j, j ≠ i →
      (s.state.kernel.setInode i (allocInode aliasParents)).inode j = s.state.kernel.inode j :=
    fun j hj => if_neg hj
  refine ⟨fun j oss hoss => ?_, fun a ha => ?_, fun a ha hfresh => ?_, h.exclusive, h.unique,
    fun r hr => ?_⟩
  · by_cases hj : j = i
    · subst hj
      have hnone : s.inside j = 0 :=
        List.countP_eq_zero.2 fun a ha heq => haccesses a ha (of_decide_eq_true heq)
      show s.inside j ≤ _
      rw [hnone]
      exact Nat.zero_le _
    · refine h.counted j oss ?_
      rw [sem, hother j hj] at hoss
      exact hoss
  · show ((s.state.kernel.setInode i _).inode _).isSome
    rw [hother _ (haccesses a ha)]
    exact h.present a ha
  · exact (h.allowed a ha hfresh).setInode _ (haccesses a ha)
  · show (((s.state.kernel.setInode i _).inode _).bind _).isSome
    rw [hother _ (hrelabels r hr)]
    exact h.live r hr

/-- Other calls: the caller is not inside, and nobody else's labels change. -/
private theorem call {c : Call} (hstep : s.stepAs p tsk (.call c) = some s') : s'.Sound := by
  obtain ⟨hset, ret, hidle, hperform, haccesses, hrelabels, -⟩ := stepAs_call hstep
  obtain ⟨hnoAccess, -⟩ := idle_iff.1 hidle
  have hframe := Framed.performAs hset hperform
  refine ⟨?_, ?_, ?_, ?_, ?_, ?_⟩
  · intro i oss hoss
    rw [inside, haccesses]
    cases hi : s.state.kernel.inode i with
    | some inode =>
        refine h.counted i oss ?_
        rw [sem, hframe.inode i inode hi] at hoss
        rw [sem, hi]
        exact hoss
    | none =>
        -- a new inode: nobody can be inside
        have hnone : ∀ a ∈ s.accesses, ¬ decide (a.file.inode = i) = true := by
          intro a ha heq
          have hsome := h.present a ha
          rw [of_decide_eq_true heq, hi] at hsome
          cases hsome
        rw [List.countP_eq_zero.2 hnone]
        exact Nat.zero_le _
  · rw [haccesses]
    intro a ha
    obtain ⟨inode, hinode⟩ := Option.isSome_iff_exists.1 (h.present a ha)
    rw [hframe.inode _ _ hinode]
    rfl
  · rw [haccesses]
    exact fun a ha hfresh => (h.allowed a ha hfresh).framed hframe (hnoAccess a ha)
  · rw [haccesses, hrelabels]
    exact h.exclusive
  · rw [hrelabels]
    exact h.unique
  · rw [hrelabels]
    intro r hr
    obtain ⟨oss, hoss⟩ := Option.isSome_iff_exists.1 (h.live r hr)
    obtain ⟨inode, hinode, hsec⟩ := Option.bind_eq_some_iff.1 hoss
    rw [sem, hframe.inode r.inode inode hinode, Option.bind_some, hsec]
    rfl

private theorem queued (queued : List Access) : Sound { s with queued := queued } :=
  ⟨h.counted, h.present, h.allowed, h.exclusive, h.unique, h.live⟩

theorem setMarks (marks : ListKind → Holder → Set LabelT) : (s.setMarks marks).Sound :=
  ⟨h.counted, h.present, h.allowed, h.exclusive, h.unique, h.live⟩

/-- Every step of every task keeps the invariant. -/
theorem step {a : Pid × Action} (hstep : s.step a = some s') : s'.Sound := by
  obtain ⟨p, action⟩ := a
  obtain ⟨tsk, htask, hstep⟩ := Option.bind_eq_some_iff.1 hstep
  cases action with
  | enter file mask => exact h.enter htask hstep
  | move n =>
      obtain ⟨a, -, -, rfl⟩ := stepAs_move hstep
      exact h.setMarks _
  | moveQueued n =>
      obtain ⟨a, -, -, rfl⟩ := stepAs_moveQueued hstep
      exact h.setMarks _
  | leave n | queue n =>
      obtain ⟨a, s₁, ha, hrelease, heq⟩ := stepAs_release (n := n) (by simp) hstep
      rw [heq]
      exact (h.release ha hrelease).queued _
  | abandon n => exact h.abandon hstep
  | downWrite i label => exact h.downWrite hstep
  | check => exact h.check hstep
  | store => exact h.store hstep
  | produce | unhooked src dest =>
      obtain rfl := Option.some.inj hstep
      exact h.setMarks _
  | call c => exact h.call hstep
  | setxattr i value => exact h.setxattr hstep
  | readInode i aliasParents => exact h.readInode hstep

end Sound

/-- Nothing is under way. -/
def quiet (state : Marked) : Concurrent := ⟨state, [], [], []⟩

theorem sound_quiet (state : Marked) : (quiet state).Sound where
  counted _ _ _ := Nat.zero_le _
  present _ ha := absurd ha List.not_mem_nil
  allowed _ ha := absurd ha List.not_mem_nil
  exclusive _ hr := absurd hr List.not_mem_nil
  unique _ hr := absurd hr List.not_mem_nil
  live _ hr := absurd hr List.not_mem_nil

/-- **In every interleaving, an access that has been granted would be granted again at any
moment until its semaphore is released or its call returns**: whatever other tasks do to labels,
capabilities and files meanwhile, the labels that `difc_file_permission` compared still stand when
the data moves, unless the attribute of the inode was set since. -/
theorem access_allowed_of_run {state : Marked} {actions : List (Pid × Action)} {s : Concurrent}
    (hrun : Run step (fun _ _ => True) (quiet state) actions s) {a : Access}
    (ha : a ∈ s.accesses) (hfresh : a.overwritten = false) :
    ∃ tsk ops, s.state.kernel.task a.pid = some tsk ∧
      difcFilePermission s.state.kernel tsk a.file a.mask = .ok (0, ops) := by
  have hsound : s.Sound :=
    hrun.invariant (sound_quiet state) fun _ _ _ h _ hstep => h.step hstep
  obtain ⟨tsk, ops, htask, -, hperm⟩ := hsound.allowed a ha hfresh
  exact ⟨tsk, ops, htask, hperm⟩

/-- A file that can be written. -/
def outputFile : File :=
  ⟨10, false, true, false, some ⟨false, true, false, false, false, false, false, false⟩⟩

/-- Task 1 creates a file, forks and starts to write.  Task 2 takes a label of its own, and
the write goes on. -/
theorem access_allowed_of_run_write : ∃ actions s,
    Run step (fun _ _ => True) (quiet (Marked.bootMarked 1000)) actions s ∧
      listEntries .sec (holderLabel s.state.kernel (.task 2)) = [2#64] ∧
      ∃ a ∈ s.accesses, ∃ tsk ops, s.state.kernel.task a.pid = some tsk ∧
        difcFilePermission s.state.kernel tsk a.file a.mask = .ok (0, ops) := by
  have hrun : Run step (fun _ _ => True) (quiet (Marked.bootMarked 1000))
      ([] ++ [(1, .call (.createInode 10 0 none ⟨false, true, false, true⟩))] ++
        [(1, .call (.fork 2 false false))] ++ [(1, .enter outputFile mayWrite)] ++
        [(2, .call (.allocLabel capPlusMask regionSelf))] ++
        [(2, .call (.setTaskLabel 2#64 labelOpAdd 0 none))] ++ [(1, .move 0)]) _ :=
    .snoc (.snoc (.snoc (.snoc (.snoc (.snoc .nil trivial rfl) trivial rfl) trivial rfl)
      trivial rfl) trivial rfl) trivial rfl
  exact ⟨_, _, hrun, rfl, _, List.mem_singleton_self _,
    access_allowed_of_run hrun (List.mem_singleton_self _) rfl⟩

end Concurrent

end Laminar.Vfs
