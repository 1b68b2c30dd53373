import Laminar.Lib.Run
import Laminar.Kernel.Replace
import Laminar.Kernel.Xattr

/-!
# The kernel's security state and the calls that change it

The state is the label counter, the tasks and the inodes, each with its security
structure.  `perform` runs one call on behalf of a task, as the hook of the
module does it: it returns the value the hook returns and the new state, or the
fault that keeps the hook from returning.

What reaches a hook from outside is an argument of the call.  A user buffer is an
`Option`: `none` stands for an allocation that fails or a copy that faults, which
every hook answers with `-ENOMEM`.  A segment for a capability list is assumed to
be there when it is asked for, as the hooks that append do.

Calls are atomic.  A hook that works on capability lists holds their spin locks
throughout, a task's label is written by that task only, and an inode's label
under its semaphore.
-/

namespace Laminar.Kernel

open Laminar.Lib

abbrev Pid := Nat

abbrev Ino := Nat

/-- `struct object_security_struct`; the semaphore is known by its readers. -/
structure ObjectSecurityStruct where
  label : LabelStruct
  labelChangeSem : Nat

/-- An inode: `i_security`, and the inodes of the parents of its aliases. -/
structure Inode where
  iSecurity : Option ObjectSecurityStruct
  aliasParents : List Ino

/-- The state the module works on. -/
structure Kernel where
  curMaxCapability : BitVec 32
  pids : List Pid
  task : Pid → Option Task
  inode : Ino → Option Inode

namespace Kernel

/-- The security structure of a task. -/
def security (k : Kernel) (p : Pid) : Option TaskSecurityStruct :=
  (k.task p).bind Task.security

/-- The label of an inode. -/
def inodeLabel (k : Kernel) (i : Ino) : Option LabelStruct :=
  (k.inode i).bind fun n => n.iSecurity.map ObjectSecurityStruct.label

/-- Write to the security structure of a task. -/
def modifySecurity (k : Kernel) (p : Pid)
    (f : TaskSecurityStruct → TaskSecurityStruct) : Kernel :=
  { k with task := fun q =>
      if q = p then (k.task q).map fun t => { t with security := t.security.map f }
      else k.task q }

/-- Write a task's label. -/
def setLabel (k : Kernel) (p : Pid) (lbl : LabelStruct) : Kernel :=
  k.modifySecurity p fun tsec => { tsec with label := lbl }

/-- Write a task's `tcb` flag. -/
def setTcb (k : Kernel) (p : Pid) (tcb : Bool) : Kernel :=
  k.modifySecurity p fun tsec => { tsec with tcb := tcb }

/-- A new task. -/
def addTask (k : Kernel) (p : Pid) (t : Task) : Kernel :=
  { k with pids := p :: k.pids, task := fun q => if q = p then some t else k.task q }

/-- Store an inode. -/
def setInode (k : Kernel) (i : Ino) (n : Inode) : Kernel :=
  { k with inode := fun j => if j = i then some n else k.inode j }

@[simp] theorem security_modifySecurity (k : Kernel) (p q : Pid)
    (f : TaskSecurityStruct → TaskSecurityStruct) :
    (k.modifySecurity p f).security q =
      if q = p then (k.security q).map f else k.security q := by
  unfold security modifySecurity
  dsimp only
  split
  · cases k.task q <;> rfl
  · rfl

@[simp] theorem security_addTask (k : Kernel) (p q : Pid) (t : Task) :
    (k.addTask p t).security q = if q = p then t.security else k.security q := by
  unfold security addTask
  dsimp only
  split <;> rfl

@[simp] theorem security_setInode (k : Kernel) (i : Ino) (n : Inode) (p : Pid) :
    (k.setInode i n).security p = k.security p := rfl

@[simp] theorem inodeLabel_modifySecurity (k : Kernel) (p : Pid)
    (f : TaskSecurityStruct → TaskSecurityStruct) (i : Ino) :
    (k.modifySecurity p f).inodeLabel i = k.inodeLabel i := rfl

@[simp] theorem inodeLabel_addTask (k : Kernel) (p : Pid) (t : Task) (i : Ino) :
    (k.addTask p t).inodeLabel i = k.inodeLabel i := rfl

@[simp] theorem inodeLabel_setInode (k : Kernel) (i j : Ino) (n : Inode) :
    (k.setInode i n).inodeLabel j =
      if j = i then n.iSecurity.map ObjectSecurityStruct.label else k.inodeLabel j := by
  unfold inodeLabel setInode
  dsimp only
  split <;> rfl

end Kernel

/-! ## Permission -/

/-- `MAY_EXEC`, `MAY_WRITE`, `MAY_READ`. -/
def mayExec : BitVec 32 := 1#32
def mayWrite : BitVec 32 := 2#32
def mayRead : BitVec 32 := 4#32

/-- Both counts are 0. -/
def LabelStruct.unlabeled (lbl : LabelStruct) : Bool :=
  lbl.secList.countWord == 0#64 && lbl.intList.countWord == 0#64

/-- `task_get_labels`: is the task unlabeled? -/
def taskGetLabels (tsk : Task) : Bool :=
  tsk.security.all fun tsec => tsec.label.unlabeled

/-- `a | b` on `int`. -/
def orInt (a b : Int) : Int := (BitVec.ofInt 32 a ||| BitVec.ofInt 32 b).toInt

/-- `if(cond) rv |= check;`, for the part that is or-ed in. -/
def checkIf (cond : Bool) (check : Except Fault Int) : Except Fault Int :=
  if cond then check else .ok 0

/-- `difc_inode_permission`.  The label is the first member of both security
structures, so the address of the label of a `NULL` structure is `NULL`. -/
def difcInodePermission (current : Task) (isec : Option ObjectSecurityStruct)
    (mask : BitVec 32) : Except Fault Int := do
  let unlabeledInode := isec.all fun oss => oss.label.unlabeled
  let unlabeledTask := taskGetLabels current
  -- Short-circuit for mutually unlabeled entities
  if unlabeledTask && unlabeledInode then
    return 0
  else
    let ilabel := isec.map ObjectSecurityStruct.label
    let tlabel := current.security.map TaskSecurityStruct.label
    let r ← checkIf (mask &&& (mayRead ||| mayExec) ≠ 0#32) (checkAllowed ilabel tlabel)
    let w ← checkIf (mask &&& mayWrite = mayWrite) (checkAllowed tlabel ilabel)
    return orInt r w

/-! ## Capabilities -/

/-- `REGION_SELF`, `REGION_GROUP`. -/
def regionSelf : Int := 1
def regionGroup : Int := 2

/-- `__difc_alloc_label`: append a fresh capability to a task's list. -/
def difcAllocLabelTo (newCap : CapabilityT) (k : Kernel) (p : Pid) : Except Fault Kernel :=
  if (k.security p).isSome then
    .ok (k.modifySecurity p fun tsec => { tsec with capList := pushCap tsec.capList newCap })
  else .error .bugOn

/-- The tasks `while_each_thread` visits: the thread group without `tsk`. -/
def Kernel.otherThreads (k : Kernel) (p : Pid) (tsk : Task) : List Pid :=
  k.pids.filter fun q => q ≠ p && (k.task q).any fun t => t.tgid == tsk.tgid

/-- The tasks a region hands a fresh capability to. -/
def Kernel.recipients (k : Kernel) (p : Pid) (tsk : Task) (region : Int) : List Pid :=
  if region = regionSelf then [p]
  else if region = regionGroup then p :: k.otherThreads p tsk
  else []

/-- `difc_alloc_label`. -/
def difcAllocLabel (k : Kernel) (p : Pid) (tsk : Task) (type : BitVec 32) (region : Int) :
    Except Fault (LabelT × Kernel) := do
  let counter := k.curMaxCapability + 1#32
  let cap := newCap counter type
  let k' ← (k.recipients p tsk region).foldlM (difcAllocLabelTo cap)
    { k with curMaxCapability := counter }
  return (labelPart cap, k')

/-- `CAP_OP_FLAG_PERMANENT`, `CAP_OP_FLAG_TEMPORARY`. -/
def capOpFlagPermanent : Int := 0
def capOpFlagTemporary : Int := 1

/-- `difc_drop_capabilities`. -/
def difcDropCapabilities (k : Kernel) (p : Pid) (tsk : Task)
    (buf : Option (List CapabilityT)) (type : BitVec 32) (flag : Int) :
    Except Fault (Int × Kernel) :=
  match buf, tsk.security with
  | none, _ => .ok (-eNomem, k)
  | some _, none => .error .nullDeref
  | some words, some tsec =>
      let (capList, capSuspendList, rv) := moveWords type (flag = capOpFlagTemporary) words
        tsec.capList tsec.capSuspendList 0
      .ok (rv, k.modifySecurity p fun tsec =>
        { tsec with capList := capList, capSuspendList := capSuspendList })

/-- `difc_resume_capabilities`. -/
def difcResumeCapabilities (k : Kernel) (p : Pid) (tsk : Task)
    (buf : Option (List CapabilityT)) (type : BitVec 32) : Except Fault (Int × Kernel) :=
  match buf, tsk.security with
  | none, _ => .ok (-eNomem, k)
  | some _, none => .error .nullDeref
  | some words, some tsec =>
      let (capSuspendList, capList, rv) := moveWords type true words tsec.capSuspendList
        tsec.capList 0
      .ok (rv, k.modifySecurity p fun tsec =>
        { tsec with capList := capList, capSuspendList := capSuspendList })

/-- `difc_send_capabilities`.  A task that names itself takes its own lock twice;
without `CONFIG_SMP` the locks are empty and the call goes through, which is the
case modelled here. -/
def difcSendCapabilities (k : Kernel) (p : Pid) (tsk : Task) (pid : Pid)
    (buf : Option (List CapabilityT)) (type : BitVec 32) : Except Fault (Int × Kernel) :=
  match k.task pid with
  | none => .ok (-eSrch, k)
  | some dest => do
      -- Verify that the sender can write to the receiver
      let refused ← checkAllowed (tsk.security.map TaskSecurityStruct.label)
        (dest.security.map TaskSecurityStruct.label)
      if refused ≠ 0 then
        return (-ePerm, k)
      else
        match buf, tsk.security, dest.security with
        | none, _, _ => return (-eNomem, k)
        | some words, some tsec, some rsec =>
            let (capList, capSuspendList, rv) := moveWords type true words tsec.capList
              rsec.capSuspendList 0
            let k := k.modifySecurity p fun tsec => { tsec with capList := capList }
            return (rv, k.modifySecurity pid fun rsec =>
              { rsec with capSuspendList := capSuspendList })
        | some _, _, _ => .error .nullDeref

/-! What a call that returned has done to the kernel. -/

section Returned

variable {k k' : Kernel} {p : Pid} {tsk : Task} {buf : Option (List CapabilityT)}
  {type : BitVec 32} {n : Int}

theorem difcDropCapabilities_eq_ok {flag : Int}
    (h : difcDropCapabilities k p tsk buf type flag = .ok (n, k')) :
    k' = k ∨ ∃ words tsec, buf = some words ∧ tsk.security = some tsec ∧
      k' = k.modifySecurity p fun t => { t with
        capList := (moveWords type (flag = capOpFlagTemporary) words tsec.capList
          tsec.capSuspendList 0).1
        capSuspendList := (moveWords type (flag = capOpFlagTemporary) words tsec.capList
          tsec.capSuspendList 0).2.1 } := by
  unfold difcDropCapabilities at h
  split at h
  · exact .inl (Prod.mk.inj (Except.ok.inj h)).2.symm
  · simp at h
  · rename_i words tsec hsec
    exact .inr ⟨words, tsec, rfl, hsec, (Prod.mk.inj (Except.ok.inj h)).2.symm⟩

theorem difcResumeCapabilities_eq_ok
    (h : difcResumeCapabilities k p tsk buf type = .ok (n, k')) :
    k' = k ∨ ∃ words tsec, buf = some words ∧ tsk.security = some tsec ∧
      k' = k.modifySecurity p fun t => { t with
        capList := (moveWords type true words tsec.capSuspendList tsec.capList 0).2.1
        capSuspendList := (moveWords type true words tsec.capSuspendList tsec.capList 0).1 } := by
  unfold difcResumeCapabilities at h
  split at h
  · exact .inl (Prod.mk.inj (Except.ok.inj h)).2.symm
  · simp at h
  · rename_i words tsec hsec
    exact .inr ⟨words, tsec, rfl, hsec, (Prod.mk.inj (Except.ok.inj h)).2.symm⟩

theorem difcSendCapabilities_eq_ok {pid : Pid}
    (h : difcSendCapabilities k p tsk pid buf type = .ok (n, k')) :
    k' = k ∨ ∃ dest words tsec rsec, k.task pid = some dest ∧ buf = some words ∧
      tsk.security = some tsec ∧ dest.security = some rsec ∧
      k' = (k.modifySecurity p fun t => { t with
          capList := (moveWords type true words tsec.capList rsec.capSuspendList 0).1
          }).modifySecurity pid fun t => { t with
            capSuspendList := (moveWords type true words tsec.capList
              rsec.capSuspendList 0).2.1 } := by
  unfold difcSendCapabilities at h
  split at h
  · exact .inl (Prod.mk.inj (Except.ok.inj h)).2.symm
  rename_i dest hdest
  rw [bind_eq_ok] at h
  obtain ⟨refused, -, h⟩ := h
  split at h
  · exact .inl (Prod.mk.inj (Except.ok.inj h)).2.symm
  split at h
  · exact .inl (Prod.mk.inj (Except.ok.inj h)).2.symm
  · rename_i words tsec rsec hsec hrsec
    exact .inr ⟨dest, words, tsec, rsec, hdest, rfl, hsec, hrsec,
      (Prod.mk.inj (Except.ok.inj h)).2.symm⟩
  · simp at h

end Returned

/-! ## Labels -/

/-- `difc_set_task_label`.  Without a security structure `&tsec->label` is passed
on but never followed by `__difc_set_label`. -/
def difcSetTaskLabel (k : Kernel) (p : Pid) (tsk : Task) (label : LabelT)
    (opType labelType : Int) (bulkLabel : Option LabelStruct) :
    Except Fault (Int × Kernel) := do
  let old := tsk.security.map TaskSecurityStruct.label
  if opType = labelOpReplace then
    match bulkLabel with
    | none => return (-eNomem, k)
    | some ulabel =>
        let rv ← checkLabelReplace tsk old ulabel
        if rv = 0 then
          return (rv, k.setLabel p ulabel)
        else
          return (rv, k)
  else
    let (rv, lbl) ← difcSetLabel tsk (old.getD .zero) label opType labelType false
    return (rv, k.setLabel p lbl)

/-- `difc_replace_label_tcb`. -/
def difcReplaceLabelTcb (k : Kernel) (p : Pid) (tsk : Task) (label : Option LabelStruct) :
    Except Fault (Int × Kernel) :=
  match tsk.security with
  | none => .error .nullDeref
  | some tsec =>
      -- Check for TCB Label
      if !tsec.tcb then .ok (-ePerm, k)
      else match label with
        | none => .ok (-eNomem, k)
        | some ulabel => .ok (0, k.setLabel p ulabel)

/-- The loop over the aliases of an inode: may the task write to every parent? -/
def checkParents (k : Kernel) (current : Task) : List Ino → Except Fault Int
  | [] => .ok 0
  | i :: rest =>
      match k.inode i with
      | none => .error .nullDeref
      | some parent => do
          let rv ← difcInodePermission current parent.iSecurity mayWrite
          if rv ≠ 0 then return rv else checkParents k current rest

/-- What `difc_inode_set_label` checks under the semaphore. -/
def checkInodeSetLabel (k : Kernel) (tsk : Task) (inode : Inode) (old new : LabelStruct) :
    Except Fault Int := do
  let rv ← checkLabelReplace tsk (some old) new
  if rv = 0 then checkParents k tsk inode.aliasParents else return rv

/-- `down_write` on a semaphore with so many readers waits for all of them. -/
def downWrite (readers : Nat) : Except Fault Unit :=
  if readers ≠ 0 then .error .wouldBlock else .ok ()

theorem downWrite_eq_ok {readers : Nat} {u : Unit} : downWrite readers = .ok u ↔ readers = 0 := by
  unfold downWrite
  split <;> simp_all

/-- `difc_inode_set_label`. -/
def difcInodeSetLabel (k : Kernel) (tsk : Task) (i : Ino) (inode : Inode)
    (newLabel : Option LabelStruct) : Except Fault (Int × Kernel) :=
  match newLabel, inode.iSecurity with
  | none, _ => .ok (-eNomem, k)
  | some _, none => .error .nullDeref
  | some ulabel, some oss => do
      downWrite oss.labelChangeSem
      let rv ← checkInodeSetLabel k tsk inode oss.label ulabel
      if rv = 0 then
        return (rv, k.setInode i
          { inode with iSecurity := some { oss with label := ulabel } })
      else
        return (rv, k)

/-! ## Creation, fork and exec -/

/-- Which of the two outputs the file system asks for, and whether the memory for
them is there. -/
structure XattrRequest where
  name : Bool
  kstrdup : Bool
  value : Bool
  kmalloc : Bool

/-- The label a new inode gets: the creating task's, or the requested one if
task label <= lbl <= task capabilities. -/
def newInodeLabel (current : Task) (tsec : TaskSecurityStruct)
    (lbl : Option LabelStruct) : Except Fault (Option LabelStruct) :=
  match lbl with
  | none => .ok (some tsec.label)
  | some input => do
      let a ← checkAllowed (some tsec.label) (some input)
      let b ← checkLabelReplace current (some tsec.label) input
      return if a = 0 ∧ b = 0 then some input else none

/-- `difc_inode_init_security`: the return value, the inode's label and the
attribute to be written back. -/
def difcInodeInitSecurity (current : Task) (isec : Option ObjectSecurityStruct)
    (lbl : Option LabelStruct) (req : XattrRequest) :
    Except Fault (Int × Option ObjectSecurityStruct × Option (List Byte)) :=
  match isec, current.security with
  | none, _ => .error .bugOn
  -- if the task doesn't have a security field, treat it as unlabeled
  | some isec, none => .ok (-eOpnotsupp, some isec, none)
  | some isec, some tsec => do
      match ← newInodeLabel current tsec lbl with
      | none => return (-ePerm, some isec, none)
      | some label =>
          let isec := { isec with label := label }
          let mylen : BitVec 32 := (label.secList.countWord + label.intList.countWord).setWidth 32
          -- If the inode is unlabeled, don't bother labeling the inode on disk
          if mylen = 0#32 then
            return (-eOpnotsupp, some isec, none)
          else if req.name && !req.kstrdup then
            return (-eNomem, some isec, none)
          else if req.value && !req.kmalloc then
            return (-eNomem, some isec, none)
          else if req.value then
            let size := (mylen + 2#32) * 8#32
            let (_, value) ← packDifcInodeXattr (List.replicate size.toNat 0#8) label
            return (0, some isec, some value)
          else
            return (0, some isec, none)

/-- Create an inode: `difc_inode_alloc_security`, then
`difc_inode_init_security`.  `lbl` is the label pointer that reaches the hook. -/
def createInodeFor (k : Kernel) (tsk : Task) (i dir : Ino) (lbl : Option LabelStruct)
    (req : XattrRequest) : Except Fault (Int × Kernel) :=
  if (k.inode i).isSome then .ok (-eExist, k)
  else do
    let (rv, isec, _) ← difcInodeInitSecurity tsk (some ⟨.zero, 0⟩) lbl req
    return (rv, k.setInode i { iSecurity := isec, aliasParents := [dir] })

/-- `difc_task_alloc_security`: the security structure of a child. -/
def difcTaskAllocSecurity (cur : Option TaskSecurityStruct) : TaskSecurityStruct :=
  match cur with
  | none => { label := .zero, capList := [], capSuspendList := [], tcb := false }
  | some cur =>
      { label := .zero, capList := cur.capList, capSuspendList := [], tcb := cur.tcb }

/-- Fork: `child` is the pid the new task gets; `thread` is `CLONE_THREAD`. -/
def forkTask (k : Kernel) (tsk : Task) (child : Pid) (thread outOfMemory : Bool) :
    Int × Kernel :=
  if outOfMemory then (-eNomem, k)
  else if (k.task child).isSome then (-eAgain, k)
  else
    (0, k.addTask child
      { uid := tsk.uid
        tgid := if thread then tsk.tgid else child
        security := some (difcTaskAllocSecurity tsk.security) })

/-- `difc_bprm_alloc_security`: the label a program is loaded with. -/
def difcBprmAllocSecurity (isec : Option ObjectSecurityStruct) : LabelStruct :=
  (isec.map ObjectSecurityStruct.label).getD .zero

/-- `difc_bprm_alloc_security` followed by `difc_bprm_apply_creds`. -/
def execProgram (k : Kernel) (p : Pid) (tsk : Task) (i : Ino) (outOfMemory : Bool) :
    Except Fault (Int × Kernel) :=
  match k.inode i with
  | none => .ok (-eNoent, k)
  | some inode =>
      if outOfMemory then .ok (-eNomem, k)
      else do
        let ok ← hasLabel (difcBprmAllocSecurity inode.iSecurity).intList labelTcb
        match tsk.security with
        | none => .error .nullDeref
        | some _ => return (0, k.setTcb p ok)

/-! ## What the label hooks can do

One inversion lemma for each hook that writes a label, an inode or the `tcb` flag:
the state after it is the state before, or one known write under the conditions
the hook has checked.
-/

section Cases

variable {k k' : Kernel} {p : Pid} {tsk : Task} {n : Int}

theorem difcSetTaskLabel_cases {label : LabelT} {opType labelType : Int}
    {bulkLabel : Option LabelStruct}
    (h : difcSetTaskLabel k p tsk label opType labelType bulkLabel = .ok (n, k')) :
    k' = k ∧ opType = labelOpReplace ∧ n ≠ 0 ∨
      (∃ ulabel, opType = labelOpReplace ∧ bulkLabel = some ulabel ∧ n = 0 ∧
        checkLabelReplace tsk (tsk.security.map TaskSecurityStruct.label) ulabel = .ok 0 ∧
        k' = k.setLabel p ulabel) ∨
      ∃ lbl, opType ≠ labelOpReplace ∧
        difcSetLabel tsk ((tsk.security.map TaskSecurityStruct.label).getD .zero) label
          opType labelType false = .ok (n, lbl) ∧
        k' = k.setLabel p lbl := by
  unfold difcSetTaskLabel at h
  dsimp only at h
  split at h
  · rename_i hop
    split at h
    · obtain ⟨rfl, rfl⟩ := Prod.mk.inj (Except.ok.inj h)
      exact Or.inl ⟨rfl, hop, by decide⟩
    · rename_i ulabel
      rw [bind_eq_ok] at h
      obtain ⟨rv, hcheck, h⟩ := h
      split at h
      · rename_i hrv
        subst hrv
        obtain ⟨rfl, rfl⟩ := Prod.mk.inj (Except.ok.inj h)
        exact Or.inr (Or.inl ⟨ulabel, hop, rfl, rfl, hcheck, rfl⟩)
      · rename_i hrv
        obtain ⟨rfl, rfl⟩ := Prod.mk.inj (Except.ok.inj h)
        exact Or.inl ⟨rfl, hop, hrv⟩
  · rename_i hop
    rw [bind_eq_ok] at h
    obtain ⟨⟨rv, lbl⟩, hset, h⟩ := h
    obtain ⟨rfl, rfl⟩ := Prod.mk.inj (Except.ok.inj h)
    exact Or.inr (Or.inr ⟨lbl, hop, hset, rfl⟩)

theorem difcReplaceLabelTcb_cases {label : Option LabelStruct}
    (h : difcReplaceLabelTcb k p tsk label = .ok (n, k')) :
    k' = k ∧ n ≠ 0 ∨ ∃ tsec ulabel, tsk.security = some tsec ∧ tsec.tcb = true ∧
      label = some ulabel ∧ n = 0 ∧ k' = k.setLabel p ulabel := by
  unfold difcReplaceLabelTcb at h
  split at h
  · simp at h
  rename_i tsec hsec
  split at h
  · obtain ⟨rfl, rfl⟩ := Prod.mk.inj (Except.ok.inj h)
    exact Or.inl ⟨rfl, by decide⟩
  rename_i htcb
  split at h
  · obtain ⟨rfl, rfl⟩ := Prod.mk.inj (Except.ok.inj h)
    exact Or.inl ⟨rfl, by decide⟩
  · rename_i ulabel
    obtain ⟨rfl, rfl⟩ := Prod.mk.inj (Except.ok.inj h)
    exact Or.inr ⟨tsec, ulabel, hsec, by simpa using htcb, rfl, rfl, rfl⟩

theorem checkInodeSetLabel_zero {inode : Inode} {old new : LabelStruct}
    (h : checkInodeSetLabel k tsk inode old new = .ok 0) :
    checkLabelReplace tsk (some old) new = .ok 0 ∧
      checkParents k tsk inode.aliasParents = .ok 0 := by
  obtain ⟨rv, hcheck, hrest⟩ := bind_eq_ok.mp h
  split at hrest
  · rename_i hrv
    exact ⟨hrv ▸ hcheck, hrest⟩
  · rename_i hrv
    exact absurd (Except.ok.inj hrest) hrv

theorem difcInodeSetLabel_cases {i : Ino} {inode : Inode} {newLabel : Option LabelStruct}
    (h : difcInodeSetLabel k tsk i inode newLabel = .ok (n, k')) :
    k' = k ∧ n ≠ 0 ∨ ∃ ulabel oss, newLabel = some ulabel ∧ inode.iSecurity = some oss ∧
      oss.labelChangeSem = 0 ∧ checkLabelReplace tsk (some oss.label) ulabel = .ok 0 ∧
      checkParents k tsk inode.aliasParents = .ok 0 ∧ n = 0 ∧
      k' = k.setInode i { inode with iSecurity := some { oss with label := ulabel } } := by
  unfold difcInodeSetLabel at h
  split at h
  · obtain ⟨rfl, rfl⟩ := Prod.mk.inj (Except.ok.inj h)
    exact Or.inl ⟨rfl, by decide⟩
  · simp at h
  rename_i ulabel oss hsec
  obtain ⟨_, hsem, h⟩ := bind_eq_ok.mp h
  obtain ⟨rv, hcheck, h⟩ := bind_eq_ok.mp h
  split at h
  · rename_i hzero
    subst hzero
    obtain ⟨rfl, rfl⟩ := Prod.mk.inj (Except.ok.inj h)
    obtain ⟨hreplace, hparents⟩ := checkInodeSetLabel_zero hcheck
    exact Or.inr ⟨ulabel, oss, rfl, hsec, downWrite_eq_ok.1 hsem, hreplace, hparents,
      rfl, rfl⟩
  · rename_i hrv
    obtain ⟨rfl, rfl⟩ := Prod.mk.inj (Except.ok.inj h)
    exact Or.inl ⟨rfl, hrv⟩

/-- Creation by a task with a security structure: the label is refused with `-EPERM`, or
it is accepted and stored, whatever happens afterwards. -/
theorem difcInodeInitSecurity_inv {lbl : Option LabelStruct} {req : XattrRequest}
    {isec : ObjectSecurityStruct} {out : Option ObjectSecurityStruct}
    {value : Option (List Byte)} {tsec : TaskSecurityStruct} (hsec : tsk.security = some tsec)
    (h : difcInodeInitSecurity tsk (some isec) lbl req = .ok (n, out, value)) :
    (newInodeLabel tsk tsec lbl = .ok none ∧ n = -ePerm ∧ out = some isec) ∨
      ∃ label, newInodeLabel tsk tsec lbl = .ok (some label) ∧
        out = some { isec with label := label } := by
  unfold difcInodeInitSecurity at h
  rw [hsec] at h
  obtain ⟨accepted, hnew, h⟩ := bind_eq_ok.mp h
  cases accepted with
  | none =>
      obtain ⟨hn, hrest⟩ := Prod.mk.inj (Except.ok.inj h)
      exact Or.inl ⟨hnew, hn.symm, (Prod.mk.inj hrest).1.symm⟩
  | some label =>
      refine Or.inr ⟨label, hnew, ?_⟩
      dsimp only at h
      split at h
      · exact (Prod.mk.inj (Prod.mk.inj (Except.ok.inj h)).2).1.symm
      split at h
      · exact (Prod.mk.inj (Prod.mk.inj (Except.ok.inj h)).2).1.symm
      split at h
      · exact (Prod.mk.inj (Prod.mk.inj (Except.ok.inj h)).2).1.symm
      split at h
      · rw [bind_eq_ok] at h
        obtain ⟨packed, -, h⟩ := h
        exact (Prod.mk.inj (Prod.mk.inj (Except.ok.inj h)).2).1.symm
      · exact (Prod.mk.inj (Prod.mk.inj (Except.ok.inj h)).2).1.symm

/-- The label a created inode ends with: the zeroed one when the task has no
security structure or the request is refused, otherwise the accepted one. -/
theorem difcInodeInitSecurity_cases {lbl : Option LabelStruct} {req : XattrRequest}
    {isec : ObjectSecurityStruct} {out : Option ObjectSecurityStruct}
    {value : Option (List Byte)}
    (h : difcInodeInitSecurity tsk (some isec) lbl req = .ok (n, out, value)) :
    out = some isec ∨ ∃ tsec label, tsk.security = some tsec ∧
      newInodeLabel tsk tsec lbl = .ok (some label) ∧
      out = some { isec with label := label } := by
  cases hsec : tsk.security with
  | none =>
      unfold difcInodeInitSecurity at h
      rw [hsec] at h
      exact Or.inl (Prod.mk.inj (Prod.mk.inj (Except.ok.inj h)).2).1.symm
  | some tsec =>
      rcases difcInodeInitSecurity_inv hsec h with ⟨-, -, hout⟩ | ⟨label, hnew, hout⟩
      · exact Or.inl hout
      · exact Or.inr ⟨tsec, label, rfl, hnew, hout⟩

theorem createInodeFor_cases {i dir : Ino} {lbl : Option LabelStruct} {req : XattrRequest}
    (h : createInodeFor k tsk i dir lbl req = .ok (n, k')) :
    k' = k ∨ ∃ label, k' = k.setInode i ⟨some ⟨label, 0⟩, [dir]⟩ ∧
      (label = .zero ∨ ∃ tsec, tsk.security = some tsec ∧
        newInodeLabel tsk tsec lbl = .ok (some label)) := by
  unfold createInodeFor at h
  split at h
  · obtain ⟨-, rfl⟩ := Prod.mk.inj (Except.ok.inj h)
    exact Or.inl rfl
  · obtain ⟨⟨rv, out, value⟩, hinit, h⟩ := bind_eq_ok.mp h
    obtain ⟨-, rfl⟩ := Prod.mk.inj (Except.ok.inj h)
    right
    rcases difcInodeInitSecurity_cases hinit with rfl | ⟨tsec, label, hsec, hnew, rfl⟩
    · exact ⟨.zero, rfl, Or.inl rfl⟩
    · exact ⟨label, rfl, Or.inr ⟨tsec, hsec, hnew⟩⟩

theorem execProgram_cases {i : Ino} {outOfMemory : Bool}
    (h : execProgram k p tsk i outOfMemory = .ok (n, k')) :
    k' = k ∨ ∃ inode ok, k.inode i = some inode ∧
      hasLabel (difcBprmAllocSecurity inode.iSecurity).intList labelTcb = .ok ok ∧
      k' = k.setTcb p ok := by
  unfold execProgram at h
  split at h
  · obtain ⟨-, rfl⟩ := Prod.mk.inj (Except.ok.inj h)
    exact Or.inl rfl
  rename_i inode hinode
  split at h
  · obtain ⟨-, rfl⟩ := Prod.mk.inj (Except.ok.inj h)
    exact Or.inl rfl
  rw [bind_eq_ok] at h
  obtain ⟨ok, hok, h⟩ := h
  split at h
  · simp at h
  · obtain ⟨-, rfl⟩ := Prod.mk.inj (Except.ok.inj h)
    exact Or.inr ⟨inode, ok, hinode, hok, rfl⟩

end Cases

/-! ## Calls -/

/-- The calls, with what they receive from outside.  `buf` is the buffer of `len` capabilities that
`copy_from_user` reads, `none` if it cannot read them all.  Its `8 * len` bytes are taken to be
below `2 ^ 32`: the size is an `unsigned int` on this machine, and a longer buffer would be read
beyond the end of its allocation. -/
inductive Call
  | allocLabel (type : BitVec 32) (region : Int)
  | dropCapabilities (buf : Option (List CapabilityT)) (type : BitVec 32) (flag : Int)
  | resumeCapabilities (buf : Option (List CapabilityT)) (type : BitVec 32)
  | sendCapabilities (pid : Pid) (buf : Option (List CapabilityT)) (type : BitVec 32)
  | setTaskLabel (label : LabelT) (opType labelType : Int) (bulkLabel : Option LabelStruct)
  | replaceLabelTcb (label : Option LabelStruct)
  | inodeSetLabel (i : Ino) (label : Option LabelStruct)
  | createInode (i dir : Ino) (label : Option LabelStruct) (req : XattrRequest)
  | fork (child : Pid) (thread outOfMemory : Bool)
  | exec (i : Ino) (outOfMemory : Bool)

/-- What a call returns: a label from `difc_alloc_label`, otherwise an `int`. -/
inductive Ret
  | label (l : LabelT)
  | rv (n : Int)
  deriving DecidableEq

/-- Perform a call as the task `p`, which is `tsk`. -/
def performAs (k : Kernel) (p : Pid) (tsk : Task) : Call → Except Fault (Ret × Kernel)
  | .allocLabel type region => do
      let (l, k) ← difcAllocLabel k p tsk type region
      return (.label l, k)
  | .dropCapabilities buf type flag => int (difcDropCapabilities k p tsk buf type flag)
  | .resumeCapabilities buf type => int (difcResumeCapabilities k p tsk buf type)
  | .sendCapabilities pid buf type => int (difcSendCapabilities k p tsk pid buf type)
  | .setTaskLabel label opType labelType bulkLabel =>
      int (difcSetTaskLabel k p tsk label opType labelType bulkLabel)
  | .replaceLabelTcb label => int (difcReplaceLabelTcb k p tsk label)
  | .inodeSetLabel i label =>
      match k.inode i with
      | none => .ok (.rv (-eNoent), k)
      | some inode => int (difcInodeSetLabel k tsk i inode label)
  | .createInode i dir label req => int (createInodeFor k tsk i dir label req)
  | .fork child thread outOfMemory => int (.ok (forkTask k tsk child thread outOfMemory))
  | .exec i outOfMemory => int (execProgram k p tsk i outOfMemory)
where
  int (r : Except Fault (Int × Kernel)) : Except Fault (Ret × Kernel) := do
    let (n, k) ← r
    return (.rv n, k)

/-- Perform a call as task `p`.  There is no call without a calling task. -/
def perform (k : Kernel) (p : Pid) (c : Call) : Except Fault (Ret × Kernel) :=
  match k.task p with
  | none => .error .nullDeref
  | some tsk => performAs k p tsk c

/-- The state after `difc_init` with one task, unlabeled and without
capabilities. -/
def bootKernel (uid : Nat) : Kernel where
  curMaxCapability := capStartVal
  pids := [1]
  task p := if p = 1 then some ⟨uid, 1, some ⟨.zero, [], [], false⟩⟩ else none
  inode _ := none

theorem security_bootKernel {uid : Nat} {q : Pid} {tsec : TaskSecurityStruct}
    (h : (bootKernel uid).security q = some tsec) : tsec = ⟨.zero, [], [], false⟩ := by
  by_cases hq : q = 1
  · simp only [Kernel.security, bootKernel, hq, if_true, Option.bind_some,
      Option.some.injEq] at h
    exact h.symm
  · simp [Kernel.security, bootKernel, hq] at h

/-- One step of the system: a call that returns. -/
def Kernel.step (k : Kernel) (c : Pid × Call) : Option Kernel :=
  match perform k c.1 c.2 with
  | .ok (_, k') => some k'
  | .error _ => none

theorem Kernel.step_eq_some {k k' : Kernel} {c : Pid × Call} (h : k.step c = some k') :
    ∃ ret, perform k c.1 c.2 = .ok (ret, k') := by
  unfold step at h
  split at h
  · rename_i ret k₁ hperform
    obtain rfl := Option.some.inj h
    exact ⟨ret, hperform⟩
  · simp at h

theorem perform_eq_ok {k k' : Kernel} {p : Pid} {c : Call} {ret : Ret}
    (h : perform k p c = .ok (ret, k')) :
    ∃ tsk, k.task p = some tsk ∧ performAs k p tsk c = .ok (ret, k') := by
  unfold perform at h
  split at h
  · simp at h
  · rename_i tsk htask
    exact ⟨tsk, htask, h⟩

theorem int_eq_ok {r : Except Fault (Int × Kernel)} {ret : Ret} {k' : Kernel}
    (h : performAs.int r = .ok (ret, k')) : ∃ n, ret = .rv n ∧ r = .ok (n, k') := by
  obtain ⟨⟨n, k₁⟩, hr, hret⟩ := bind_eq_ok.mp h
  obtain ⟨rfl, rfl⟩ := Prod.mk.inj (Except.ok.inj hret)
  exact ⟨n, rfl, hr⟩

end Laminar.Kernel
