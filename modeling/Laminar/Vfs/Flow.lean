import Laminar.Lib.Taint
import Laminar.Kernel.InBounds
import Laminar.Kernel.Permission
import Laminar.Vfs.Files

/-!
# Where data can go

Tasks and inodes hold data.  A read or an execution takes the tags of an inode to the
task, a write those of the task to the inode, a created inode gets those of its creator
and a child those of its parent.  `Tracked` is the kernel's state together with these
tags; the steps are the hooks that decide, with the values for which the data moves.

The hooks let data move towards greater secrecy lists only, and a created inode starts
with the label of its creator or a greater one.  A child starts with the parent's data
and an empty label, since `difc_task_alloc_security` copies the capabilities and not the
label.  An open file whose inode has no security structure is not checked at all.
`contained_of_run` says that there is no other way out.
-/

namespace Laminar.Vfs

open Laminar.Lib Laminar.Kernel

/-! ## Holders -/

/-- What holds data. -/
inductive Holder
  | task (p : Pid)
  | inode (i : Ino)
deriving DecidableEq

/-- The secrecy labels behind a pointer to a label; none for `NULL`. -/
def secEntries : Option LabelStruct → List LabelT
  | some lbl => lbl.secList.entries
  | none => []

/-- The label of a task. -/
def taskLabel (k : Kernel) (p : Pid) : Option LabelStruct :=
  (k.security p).map TaskSecurityStruct.label

/-- The secrecy list of a holder. -/
def secList (k : Kernel) : Holder → List LabelT
  | .task p => secEntries (taskLabel k p)
  | .inode i => secEntries (k.inodeLabel i)

/-- The same as a set. -/
def secrecy (k : Kernel) (h : Holder) : Set LabelT := {l | l ∈ secList k h}

/-- The kernel, with the tags whose data each holder may hold. -/
structure Tracked where
  kernel : Kernel
  tags : Holder → Set LabelT

/-! ## Steps -/

/-- Does the mask ask to read or execute? -/
def maskReads (mask : BitVec 32) : Bool := mask &&& (mayRead ||| mayExec) ≠ 0#32

/-- Does the mask ask to write? -/
def maskWrites (mask : BitVec 32) : Bool := mask &&& mayWrite = mayWrite

/-- The data moves that a permission with this mask allows, the read first. -/
def moveData (tags : Holder → Set LabelT) (p : Pid) (i : Ino) (mask : BitVec 32) :
    Holder → Set LabelT :=
  let afterRead := if maskReads mask then flow tags (.inode i) (.task p) else tags
  if maskWrites mask then flow afterRead (.task p) (.inode i) else afterRead

/-- What a task does. -/
inductive FlowStep
  /-- an access that `difc_inode_permission` allows -/
  | inodeAccess (i : Ino) (mask : BitVec 32)
  /-- an access that `difc_file_permission` allows -/
  | fileAccess (file : File) (mask : BitVec 32)
  /-- a creation for which `difc_inode_init_security` returns 0 or `-EOPNOTSUPP` -/
  | create (i dir : Ino) (lbl : Option LabelStruct) (req : XattrRequest)
  /-- a fork -/
  | fork (child : Pid) (thread : Bool)
  /-- `difc_set_task_label`, if it only adds secrecy labels -/
  | setTaskLabel (label : LabelT) (opType labelType : Int) (bulkLabel : Option LabelStruct)
  /-- `difc_inode_set_label`, if it only adds secrecy labels -/
  | inodeSetLabel (i : Ino) (label : Option LabelStruct)

/-- The label that a step takes from a user buffer. -/
def FlowStep.userLabel : FlowStep → Option LabelStruct
  | .create _ _ lbl _ => lbl
  | .setTaskLabel _ opType _ bulkLabel => if opType = labelOpReplace then bulkLabel else none
  | .inodeSetLabel _ label => label
  | _ => none

namespace Tracked

/-- The call changed the label of `h`, if at all, by adding secrecy labels. -/
def onlyAdds (k k' : Kernel) (h : Holder) : Bool :=
  (secList k h).all fun l => l ∈ secList k' h

/-- One step of task `p`, which is `tsk`; `none` if the step is not one of those tracked. -/
def stepAs (s : Tracked) (p : Pid) (tsk : Task) : FlowStep → Option Tracked
  | .inodeAccess i mask =>
      match (s.kernel.inode i).map fun inode => difcInodePermission tsk inode.iSecurity mask with
      | some (.ok 0) => some { s with tags := moveData s.tags p i mask }
      | _ => none
  | .fileAccess file mask =>
      match difcFilePermission s.kernel tsk file mask with
      | .ok (0, _) => some { s with tags := moveData s.tags p file.inode mask }
      | _ => none
  | .create i dir lbl req =>
      match createInodeFor s.kernel tsk i dir lbl req with
      | .ok (rv, k') =>
          if rv = 0 ∨ rv = -eOpnotsupp then
            some ⟨k', Function.update s.tags (.inode i) (s.tags (.task p))⟩
          else none
      | .error _ => none
  | .fork child thread =>
      match forkTask s.kernel tsk child thread false with
      | (0, k') => some ⟨k', Function.update s.tags (.task child) (s.tags (.task p))⟩
      | _ => none
  | .setTaskLabel label opType labelType bulkLabel =>
      match difcSetTaskLabel s.kernel p tsk label opType labelType bulkLabel with
      | .ok (_, k') =>
          if onlyAdds s.kernel k' (.task p) then some { s with kernel := k' } else none
      | .error _ => none
  | .inodeSetLabel i label =>
      match (s.kernel.inode i).map fun inode => difcInodeSetLabel s.kernel tsk i inode label with
      | some (.ok (_, k')) =>
          if onlyAdds s.kernel k' (.inode i) then some { s with kernel := k' } else none
      | _ => none

/-- One step, with a user label whose counts fit. -/
def step (s : Tracked) (a : Pid × FlowStep) : Option Tracked :=
  match s.kernel.task a.1 with
  | some tsk =>
      if a.2.userLabel.all fun lbl => decide lbl.Bounded then s.stepAs a.1 tsk a.2 else none
  | none => none

/-- A task forks only while it holds no tracked data, and so does a task that writes to an
open file whose inode has no security structure. -/
def NoLaundering (s : Tracked) : Pid × FlowStep → Prop
  | (p, .fork _ _) => s.tags (.task p) = ∅
  | (p, .fileAccess file mask) =>
      iSecurity s.kernel file = none → maskWrites mask = true → s.tags (.task p) = ∅
  | _ => True

end Tracked

/-! ## What the checks say about secrecy -/

/-- A list that starts has an entry at which a failing body fails. -/
theorem anyLabel_ne_ok {head : LabelList} (h : head.Bounded) {e : Fault}
    (hentries : head.entries ≠ []) (b : Bool) :
    anyLabel head (fun _ => .error e) ≠ .ok b := by
  rw [anyLabel, listForEachLabel_eq h]
  cases hlist : head.entries with
  | nil => exact absurd hlist hentries
  | cons l rest =>
      intro hok
      cases hok

/-- `check_allowed` returns 0 or `-EPERM`. -/
theorem checkAllowed_values {src dest : Option LabelStruct} {rv : Int}
    (h : checkAllowed src dest = .ok rv) : rv = 0 ∨ rv = -ePerm := by
  unfold checkAllowed at h
  obtain ⟨leaked, -, h⟩ := bind_eq_ok.mp h
  split at h
  · exact .inr (Except.ok.inj h).symm
  · obtain ⟨tainted, -, h⟩ := bind_eq_ok.mp h
    split at h
    · exact .inr (Except.ok.inj h).symm
    · exact .inl (Except.ok.inj h).symm

theorem checkAllowed_secEntries {src dest : Option LabelStruct} (hs : BoundedPtr src)
    (hd : BoundedPtr dest) (h : checkAllowed src dest = .ok 0) :
    ∀ l ∈ secEntries src, l ∈ secEntries dest := by
  intro l hl
  cases src with
  | none => cases hl
  | some s =>
      cases dest with
      | some d =>
          rw [checkAllowed_eq (hs s rfl) (hd d rfl)] at h
          by_cases hflows : Flows s d
          · exact hflows.1 l hl
          · rw [if_neg hflows] at h
            cases h
      | none =>
          -- the first label to look for follows the null pointer
          unfold checkAllowed at h
          obtain ⟨leaked, hleaks, -⟩ := bind_eq_ok.mp h
          exact absurd hleaks (anyLabel_ne_ok (hs s rfl).1 (List.ne_nil_of_mem hl) leaked)

/-- A security structure that is absent or unlabeled has no secrecy entries. -/
private theorem secEntries_unlabeled {α : Type} {sec : Option α} {label : α → LabelStruct}
    (h : (sec.all fun a => (label a).unlabeled) = true) : secEntries (sec.map label) = [] := by
  cases sec with
  | none => rfl
  | some a => exact LabelStruct.entries_unlabeled h .sec

theorem orInt_eq_zero {a b : Int} (ha : a = 0 ∨ a = -ePerm) (hb : b = 0 ∨ b = -ePerm)
    (h : orInt a b = 0) : a = 0 ∧ b = 0 := by
  rcases ha with rfl | rfl <;> rcases hb with rfl | rfl
  · exact ⟨rfl, rfl⟩
  · exact absurd h (by decide)
  · exact absurd h (by decide)
  · exact absurd h (by decide)

theorem checkIf_values {cond : Bool} {src dest : Option LabelStruct} {rv : Int}
    (h : checkIf cond (checkAllowed src dest) = .ok rv) : rv = 0 ∨ rv = -ePerm := by
  unfold checkIf at h
  split at h
  · exact checkAllowed_values h
  · exact .inl (Except.ok.inj h).symm

/-- What a granted permission says: data moves towards greater secrecy lists. -/
theorem difcInodePermission_secEntries {tsk : Task} {isec : Option ObjectSecurityStruct}
    {mask : BitVec 32} (ht : BoundedPtr (tsk.security.map TaskSecurityStruct.label))
    (hi : BoundedPtr (isec.map ObjectSecurityStruct.label))
    (h : difcInodePermission tsk isec mask = .ok 0) :
    (maskReads mask = true → ∀ l ∈ secEntries (isec.map ObjectSecurityStruct.label),
      l ∈ secEntries (tsk.security.map TaskSecurityStruct.label)) ∧
    (maskWrites mask = true → ∀ l ∈ secEntries (tsk.security.map TaskSecurityStruct.label),
      l ∈ secEntries (isec.map ObjectSecurityStruct.label)) := by
  unfold difcInodePermission at h
  dsimp only at h
  split at h
  · -- both are unlabeled
    rename_i hboth
    obtain ⟨htask, hinode⟩ := Bool.and_eq_true_iff.1 hboth
    rw [taskGetLabels] at htask
    rw [secEntries_unlabeled htask, secEntries_unlabeled hinode]
    exact ⟨fun _ _ hl => hl, fun _ _ hl => hl⟩
  · obtain ⟨r, hr, h⟩ := bind_eq_ok.mp h
    obtain ⟨w, hw, h⟩ := bind_eq_ok.mp h
    obtain ⟨rfl, rfl⟩ :=
      orInt_eq_zero (checkIf_values hr) (checkIf_values hw) (Except.ok.inj h)
    constructor
    · intro hreads
      rw [maskReads] at hreads
      rw [checkIf, if_pos hreads] at hr
      exact checkAllowed_secEntries hi ht hr
    · intro hwrites
      rw [maskWrites] at hwrites
      rw [checkIf, if_pos hwrites] at hw
      exact checkAllowed_secEntries ht hi hw

/-- A created inode has at least the secrecy labels of its creator. -/
theorem createInodeFor_secEntries {k k' : Kernel} {tsk : Task} {i dir : Ino}
    {lbl : Option LabelStruct} {req : XattrRequest} {rv : Int}
    (ht : BoundedPtr (tsk.security.map TaskSecurityStruct.label)) (hu : BoundedPtr lbl)
    (h : createInodeFor k tsk i dir lbl req = .ok (rv, k')) (hrv : rv = 0 ∨ rv = -eOpnotsupp) :
    ∃ label, k' = k.setInode i ⟨some ⟨label, 0⟩, [dir]⟩ ∧ label.Bounded ∧
      ∀ l ∈ secEntries (tsk.security.map TaskSecurityStruct.label), l ∈ label.secList.entries := by
  unfold createInodeFor at h
  split at h
  · -- the inode exists: `-EEXIST`
    obtain ⟨rfl, -⟩ := Prod.mk.inj (Except.ok.inj h)
    rcases hrv with hrv | hrv <;> cases hrv
  obtain ⟨⟨n, out, value⟩, hinit, h⟩ := bind_eq_ok.mp h
  obtain ⟨rfl, rfl⟩ := Prod.mk.inj (Except.ok.inj h)
  have hzero : LabelStruct.zero.Bounded := by decide
  cases hsec : tsk.security with
  | none =>
      simp only [difcInodeInitSecurity, hsec] at hinit
      cases hinit
      exact ⟨.zero, rfl, hzero, fun l hl => by cases hl⟩
  | some tsec =>
      have htsec : tsec.label.Bounded := ht _ (by rw [hsec]; rfl)
      rcases difcInodeInitSecurity_inv hsec hinit with ⟨-, rfl, -⟩ | ⟨label, hnew, rfl⟩
      · rcases hrv with hrv | hrv <;> cases hrv
      refine ⟨label, rfl, ?_⟩
      unfold newInodeLabel at hnew
      split at hnew
      · cases hnew
        exact ⟨htsec, fun l hl => hl⟩
      · obtain ⟨a, ha, hnew⟩ := bind_eq_ok.mp hnew
        obtain ⟨b, -, hnew⟩ := bind_eq_ok.mp hnew
        have hnew := Except.ok.inj hnew
        split at hnew
        · rename_i hzero
          cases hnew
          rw [hzero.1] at ha
          refine ⟨hu _ rfl, ?_⟩
          exact checkAllowed_secEntries (fun l hl => by cases hl; exact htsec) hu ha
        · cases hnew

/-! ## Runs -/

namespace Tracked

/-- Every holder's tags are in its secrecy list, and all counts fit. -/
structure Confined (s : Tracked) : Prop where
  contained : Contained s.tags (secrecy s.kernel)
  bounded : AllLabels LabelStruct.Bounded s.kernel

section Steps

variable {s : Tracked} (h : s.Confined) {p : Pid} {tsk : Task}
  (htask : s.kernel.task p = some tsk)

include htask

private theorem secrecy_task (l : LabelT) :
    l ∈ secrecy s.kernel (.task p) ↔
      l ∈ secEntries (tsk.security.map TaskSecurityStruct.label) := by
  rw [← security_of_task htask]
  rfl

include h

private theorem boundedPtr_task :
    BoundedPtr (tsk.security.map TaskSecurityStruct.label) := by
  intro l hl
  obtain ⟨tsec, htsec, rfl⟩ := Option.map_eq_some_iff.1 hl
  exact h.bounded.task p tsec ((security_of_task htask).trans htsec)

omit htask

private theorem boundedPtr_inode {i : Ino} {inode : Inode}
    (hinode : s.kernel.inode i = some inode) :
    BoundedPtr (inode.iSecurity.map ObjectSecurityStruct.label) := by
  intro l hl
  apply h.bounded.inode i l
  rw [Kernel.inodeLabel, hinode]
  exact hl

/-- Data moves as a permission allows. -/
private theorem contained_moveData {i : Ino} {mask : BitVec 32}
    (hread : maskReads mask = true →
      secrecy s.kernel (.inode i) ⊆ secrecy s.kernel (.task p))
    (hwrite : maskWrites mask = true →
      secrecy s.kernel (.task p) ⊆ secrecy s.kernel (.inode i)) :
    Contained (moveData s.tags p i mask) (secrecy s.kernel) := by
  have hafter : Contained (if maskReads mask then flow s.tags (.inode i) (.task p) else s.tags)
      (secrecy s.kernel) := by
    split
    · rename_i hreads
      exact h.contained.flow (hread hreads)
    · exact h.contained
  dsimp only [moveData]
  by_cases hwrites : maskWrites mask = true
  · rw [if_pos hwrites]
    exact hafter.flow (hwrite hwrites)
  · rw [if_neg hwrites]
    exact hafter

/-- A write to the label of one holder that only adds secrecy labels. -/
private theorem contained_relabel {k' : Kernel} {x : Holder}
    (hadds : onlyAdds s.kernel k' x = true)
    (hframe : ∀ y, y ≠ x → secrecy k' y = secrecy s.kernel y) :
    Contained s.tags (secrecy k') := by
  apply h.contained.mono
  intro y l hl
  by_cases hy : y = x
  · subst hy
    show l ∈ secList k' y
    exact of_decide_eq_true (List.all_eq_true.1 hadds l hl)
  · rw [hframe y hy]
    exact hl

end Steps

/-- Only the secrecy list of `p` depends on its label. -/
private theorem secrecy_setLabel (k : Kernel) (p : Pid) (lbl : LabelStruct) {y : Holder}
    (hy : y ≠ .task p) : secrecy (k.setLabel p lbl) y = secrecy k y := by
  cases y with
  | inode i => rfl
  | task q =>
      have hq : q ≠ p := fun heq => hy (heq ▸ rfl)
      simp only [secrecy, secList, taskLabel, Kernel.setLabel, Kernel.security_modifySecurity,
        if_neg hq]

/-- Only the secrecy list of `i` depends on what is stored there. -/
private theorem secrecy_setInode (k : Kernel) (i : Ino) (n : Inode) {y : Holder}
    (hy : y ≠ .inode i) : secrecy (k.setInode i n) y = secrecy k y := by
  cases y with
  | task q => rfl
  | inode j =>
      have hj : j ≠ i := fun heq => hy (heq ▸ rfl)
      simp only [secrecy, secList, Kernel.inodeLabel_setInode, if_neg hj]

/-- Only the secrecy list of the new task depends on it. -/
private theorem secrecy_addTask (k : Kernel) (p : Pid) (tsk : Task) {y : Holder}
    (hy : y ≠ .task p) : secrecy (k.addTask p tsk) y = secrecy k y := by
  cases y with
  | inode i => rfl
  | task q =>
      have hq : q ≠ p := fun heq => hy (heq ▸ rfl)
      simp only [secrecy, secList, taskLabel, Kernel.security_addTask, if_neg hq]

theorem difcSetLabel_bounded {tsk : Task} {lbl lbl' : LabelStruct} {label : LabelT}
    {opType labelType n : Int} (hb : lbl.Bounded)
    (h : difcSetLabel tsk lbl label opType labelType false = .ok (n, lbl')) : lbl'.Bounded := by
  obtain ⟨rv, out, hrun, hcase⟩ := difcSetLabel_spec tsk hb label opType labelType
  rw [hrun] at h
  obtain ⟨rfl, rfl⟩ := Prod.mk.inj (Except.ok.inj h)
  rcases hcase with ⟨-, rfl⟩ | ⟨-, kind, hchanged⟩
  · exact hb
  · exact hchanged.bounded_all hb

/-- `difc_set_task_label` writes the task's label only, a bounded one. -/
private theorem difcSetTaskLabel_writes {k k' : Kernel} {p : Pid} {tsk : Task} {label : LabelT}
    {opType labelType n : Int} {bulkLabel : Option LabelStruct}
    (ht : BoundedPtr (tsk.security.map TaskSecurityStruct.label))
    (hu : opType = labelOpReplace → BoundedPtr bulkLabel)
    (h : difcSetTaskLabel k p tsk label opType labelType bulkLabel = .ok (n, k')) :
    k' = k ∨ ∃ lbl, lbl.Bounded ∧ k' = k.setLabel p lbl := by
  rcases difcSetTaskLabel_cases h with
    ⟨hsame, -⟩ | ⟨ulabel, hop, hbulk, -, -, hk⟩ | ⟨lbl, -, hset, hk⟩
  · exact .inl hsame
  · exact .inr ⟨ulabel, hu hop ulabel hbulk, hk⟩
  · refine .inr ⟨lbl, difcSetLabel_bounded ?_ hset, hk⟩
    cases hsec : tsk.security with
    | none => decide
    | some tsec => exact ht tsec.label (by rw [hsec]; rfl)

private theorem Confined.setTaskLabel {s : Tracked} (h : s.Confined) {p : Pid} {tsk : Task}
    (htask : s.kernel.task p = some tsk) {label : LabelT} {opType labelType : Int}
    {bulkLabel : Option LabelStruct} {s' : Tracked}
    (hu : opType = labelOpReplace → BoundedPtr bulkLabel)
    (hstep : s.stepAs p tsk (.setTaskLabel label opType labelType bulkLabel) = some s') :
    s'.Confined := by
  simp only [stepAs] at hstep
  split at hstep
  · rename_i n k' hcall
    split at hstep
    · rename_i hadds
      cases hstep
      rcases difcSetTaskLabel_writes (boundedPtr_task h htask) hu hcall with
        rfl | ⟨lbl, hlbl, rfl⟩
      · exact h
      · constructor
        · apply contained_relabel h hadds
          intro y hy
          exact secrecy_setLabel s.kernel p lbl hy
        · exact h.bounded.setLabel p fun _ => hlbl
    · cases hstep
  · cases hstep

private theorem Confined.inodeSetLabel {s : Tracked} (h : s.Confined) {p : Pid} {tsk : Task}
    {i : Ino} {label : Option LabelStruct} {s' : Tracked} (hu : BoundedPtr label)
    (hstep : s.stepAs p tsk (.inodeSetLabel i label) = some s') : s'.Confined := by
  simp only [stepAs] at hstep
  split at hstep
  · rename_i n k' hcall
    obtain ⟨inode, -, hcall⟩ := Option.map_eq_some_iff.1 hcall
    split at hstep
    · rename_i hadds
      cases hstep
      rcases difcInodeSetLabel_cases hcall with
        ⟨rfl, -⟩ | ⟨ulabel, oss, hlabel, -, -, -, -, -, rfl⟩
      · exact h
      · constructor
        · apply contained_relabel h hadds
          intro y hy
          exact secrecy_setInode s.kernel i _ hy
        · refine h.bounded.setInode i ?_
          rintro _ ⟨⟩
          exact hu ulabel hlabel
    · cases hstep
  · cases hstep

private theorem Confined.create {s : Tracked} (h : s.Confined) {p : Pid} {tsk : Task}
    (htask : s.kernel.task p = some tsk) {i dir : Ino} {lbl : Option LabelStruct}
    {req : XattrRequest} {s' : Tracked} (hu : BoundedPtr lbl)
    (hstep : s.stepAs p tsk (.create i dir lbl req) = some s') : s'.Confined := by
  simp only [stepAs] at hstep
  split at hstep
  · rename_i rv k' hcall
    split at hstep
    · rename_i hrv
      cases hstep
      obtain ⟨label, rfl, hlabel, hcreator⟩ :=
        createInodeFor_secEntries (boundedPtr_task h htask) hu hcall hrv
      constructor
      · refine h.contained.update (fun y hy => secrecy_setInode s.kernel i _ hy) ?_
        intro l hl
        show l ∈ secEntries (Kernel.inodeLabel _ i)
        rw [Kernel.inodeLabel_setInode, if_pos rfl]
        exact hcreator l ((secrecy_task htask l).1 (h.contained _ hl))
      · refine h.bounded.setInode i ?_
        rintro _ ⟨⟩
        exact hlabel
    · cases hstep
  · cases hstep

/-- A child has an empty label: only a task without tracked data may fork. -/
private theorem Confined.fork {s : Tracked} (h : s.Confined) {p child : Pid} {tsk : Task}
    {thread : Bool} {s' : Tracked} (hempty : s.tags (.task p) = ∅)
    (hstep : s.stepAs p tsk (.fork child thread) = some s') : s'.Confined := by
  simp only [stepAs, forkTask] at hstep
  split at hstep
  · rename_i k' hfork
    cases hstep
    split at hfork
    · cases hfork
    split at hfork
    · cases hfork
    cases hfork
    constructor
    · refine h.contained.update (fun y hy => secrecy_addTask s.kernel child _ hy) ?_
      rw [hempty]
      exact Set.empty_subset _
    · refine ⟨?_, h.bounded.inode⟩
      intro q tsec hq
      rw [Kernel.security_addTask] at hq
      split at hq
      · cases hq
        cases tsk.security <;> exact (by decide : LabelStruct.zero.Bounded)
      · exact h.bounded.task q tsec hq
  · cases hstep

/-- The secrecy list of an inode that exists. -/
private theorem secrecy_inode {k : Kernel} {i : Ino} {inode : Inode} (h : k.inode i = some inode)
    (l : LabelT) : l ∈ secrecy k (.inode i) ↔
      l ∈ secEntries (inode.iSecurity.map ObjectSecurityStruct.label) := by
  show l ∈ secEntries (k.inodeLabel i) ↔ _
  rw [Kernel.inodeLabel, h, Option.bind_some]

/-- A granted `difc_inode_permission` moves data towards greater secrecy lists. -/
private theorem Confined.access {s : Tracked} (h : s.Confined) {p : Pid} {tsk : Task}
    (htask : s.kernel.task p = some tsk) {i : Ino} {inode : Inode} {mask : BitVec 32}
    (hinode : s.kernel.inode i = some inode)
    (hperm : difcInodePermission tsk inode.iSecurity mask = .ok 0) :
    Confined { s with tags := moveData s.tags p i mask } := by
  obtain ⟨hread, hwrite⟩ :=
    difcInodePermission_secEntries (boundedPtr_task h htask) (boundedPtr_inode h hinode) hperm
  refine ⟨contained_moveData h ?_ ?_, h.bounded⟩
  · intro hmask l hl
    exact (secrecy_task htask l).2 (hread hmask l ((secrecy_inode hinode l).1 hl))
  · intro hmask l hl
    exact (secrecy_inode hinode l).2 (hwrite hmask l ((secrecy_task htask l).1 hl))

private theorem Confined.inodeAccess {s : Tracked} (h : s.Confined) {p : Pid} {tsk : Task}
    (htask : s.kernel.task p = some tsk) {i : Ino} {mask : BitVec 32} {s' : Tracked}
    (hstep : s.stepAs p tsk (.inodeAccess i mask) = some s') : s'.Confined := by
  simp only [stepAs] at hstep
  split at hstep
  · rename_i hcall
    obtain ⟨inode, hinode, hperm⟩ := Option.map_eq_some_iff.1 hcall
    cases hstep
    exact h.access htask hinode hperm
  · cases hstep

/-- An access without a check, to an inode without security structure: nothing is read
from it, and nothing written to it if the task holds no tracked data. -/
private theorem Confined.unchecked {s : Tracked} (h : s.Confined) {p : Pid} {file : File}
    {mask : BitVec 32} (hnone : iSecurity s.kernel file = none)
    (hempty : maskWrites mask = true → s.tags (.task p) = ∅) :
    Confined { s with tags := moveData s.tags p file.inode mask } := by
  have hinode : s.tags (.inode file.inode) = ∅ := by
    apply Set.eq_empty_of_subset_empty
    intro l hl
    have hl := h.contained _ hl
    unfold iSecurity at hnone
    simp only [secrecy, secList, Kernel.inodeLabel, Set.mem_ofPred_eq] at hl
    cases hfile : s.kernel.inode file.inode with
    | none =>
        rw [hfile] at hl
        cases hl
    | some inode =>
        rw [hfile, Option.bind_some] at hnone hl
        rw [hnone] at hl
        cases hl
  have hread : flow s.tags (.inode file.inode) (.task p) = s.tags := by
    rw [flow, hinode, Set.union_empty, Function.update_eq_self]
  have htags : moveData s.tags p file.inode mask = s.tags := by
    simp only [moveData, hread, ite_self]
    split
    · rename_i hwrites
      rw [flow, hempty hwrites, Set.union_empty, Function.update_eq_self]
    · rfl
  rw [htags]
  exact h

private theorem Confined.fileAccess {s : Tracked} (h : s.Confined) {p : Pid} {tsk : Task}
    (htask : s.kernel.task p = some tsk) {file : File} {mask : BitVec 32} {s' : Tracked}
    (hguard : s.NoLaundering (p, .fileAccess file mask))
    (hstep : s.stepAs p tsk (.fileAccess file mask) = some s') : s'.Confined := by
  simp only [stepAs, difcFilePermission] at hstep
  split at hstep
  · rename_i ops hcall
    cases hstep
    split at hcall
    · rename_i hnone
      exact h.unchecked hnone (hguard hnone)
    · rename_i oss hoss
      obtain ⟨rv, hperm, hcall⟩ := bind_eq_ok.mp hcall
      obtain ⟨rfl, -⟩ := Prod.mk.inj (Except.ok.inj hcall)
      obtain ⟨inode, hinode, hsec⟩ := Option.bind_eq_some_iff.1 hoss
      rw [← hsec] at hperm
      exact h.access htask hinode hperm
  · cases hstep

/-- One step without laundering keeps every holder confined. -/
theorem Confined.step {s s' : Tracked} {a : Pid × FlowStep} (h : s.Confined)
    (hguard : s.NoLaundering a) (hstep : s.step a = some s') : s'.Confined := by
  obtain ⟨p, call⟩ := a
  unfold Tracked.step at hstep
  split at hstep
  · rename_i tsk htask
    split at hstep
    · rename_i huser
      have hu : BoundedPtr call.userLabel := by
        intro lbl hlbl
        have huser : call.userLabel.all (fun lbl => decide lbl.Bounded) = true := huser
        rw [hlbl] at huser
        exact of_decide_eq_true huser
      cases call with
      | inodeAccess i mask => exact h.inodeAccess htask hstep
      | fileAccess file mask => exact h.fileAccess htask hguard hstep
      | create i dir lbl req => exact h.create htask hu hstep
      | fork child thread => exact h.fork hguard hstep
      | setTaskLabel label opType labelType bulkLabel =>
          refine h.setTaskLabel htask ?_ hstep
          intro hop lbl hlbl
          exact hu lbl ((if_pos hop).trans hlbl)
      | inodeSetLabel i label => exact h.inodeSetLabel hu hstep
    · cases hstep
  · cases hstep

/-- **In every run in which no task that holds tracked data forks, or writes to an open
file whose inode has no security structure, the tracked data of every task and inode
stays within its secrecy list.** -/
theorem contained_of_run {s₀ : Tracked} (hcontained : Contained s₀.tags (secrecy s₀.kernel))
    (hbounded : AllLabels LabelStruct.Bounded s₀.kernel) {calls : List (Pid × FlowStep)}
    {s : Tracked} (hrun : Run step NoLaundering s₀ calls s) :
    Contained s.tags (secrecy s.kernel) :=
  (hrun.invariant ⟨hcontained, hbounded⟩ fun _ _ _ h hguard hstep =>
    Confined.step h hguard hstep).contained

/-- The first task, with the secrecy label 2 and data of that tag. -/
def secretTask : Tracked where
  kernel := (bootKernel 1000).setLabel 1 ⟨.ofLabels [2#64], .ofLabels []⟩
  tags x := if x = .task 1 then {2#64} else ∅

private theorem contained_secretTask :
    Contained secretTask.tags (secrecy secretTask.kernel) := by
  intro x
  dsimp only [secretTask]
  split
  · rename_i hx
    subst hx
    intro l hl
    obtain rfl : l = 2#64 := hl
    show 2#64 ∈ secList secretTask.kernel (.task 1)
    decide
  · exact Set.empty_subset _

private theorem bounded_secretTask : AllLabels LabelStruct.Bounded secretTask.kernel := by
  have hboot := allLabels_bootKernel 1000
  have hzero : AllLabels LabelStruct.Bounded (bootKernel 1000) :=
    ⟨fun q tsec h => hboot.task q tsec h ▸ by decide,
      fun i lbl h => hboot.inode i lbl h ▸ by decide⟩
  exact hzero.setLabel 1 fun _ => by decide

/-- The task creates a file, to which its tag goes, writes to it and reads it. -/
theorem contained_of_run_file : ∃ calls s, Run step NoLaundering secretTask calls s ∧
    2#64 ∈ s.tags (.inode 10) ∧ Contained s.tags (secrecy s.kernel) := by
  have hrun : Run step NoLaundering secretTask
      ([] ++ [(1, .create 10 0 none ⟨false, true, false, true⟩)] ++
        [(1, .inodeAccess 10 mayWrite)] ++ [(1, .inodeAccess 10 mayRead)]) _ :=
    .snoc (.snoc (.snoc .nil trivial rfl) trivial rfl) trivial rfl
  refine ⟨_, _, hrun, ?_, contained_of_run contained_secretTask bounded_secretTask hrun⟩
  left
  rfl

/-- The task forks.  The child has its data and an empty label. -/
theorem fork_launders : ∃ calls s, Run step (fun _ _ => True) secretTask calls s ∧
    Contained secretTask.tags (secrecy secretTask.kernel) ∧
    AllLabels LabelStruct.Bounded secretTask.kernel ∧
    2#64 ∈ s.tags (.task 2) ∧ secList s.kernel (.task 2) = [] ∧
    ¬ Contained s.tags (secrecy s.kernel) := by
  have hrun : Run step (fun _ _ => True) secretTask ([] ++ [(1, .fork 2 false)]) _ :=
    .snoc .nil trivial rfl
  refine ⟨_, _, hrun, contained_secretTask, bounded_secretTask, rfl, rfl, ?_⟩
  intro hcontained
  have hchild := hcontained (.task 2) (rfl : 2#64 ∈ ({2#64} : Set LabelT))
  cases hchild

end Tracked

end Laminar.Vfs
