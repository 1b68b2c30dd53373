import Laminar.Kernel.Permission
import Laminar.Kernel.WellFormed
import Laminar.Lib.Locks

/-!
# Label changes are all or nothing

`difc_set_task_label` and `difc_inode_set_label` pass through authorisation, the search for the
tag, the capacity check, the shift of the list and the loop over the aliases of the inode.  Here
these parts are put together: a call that returns an error has stored nothing, and a call that
returns 0 has stored the whole change.

The locks of `difc_inode_set_label` are written down exit by exit, as for the capability locks:
`label_change_sem` around everything behind the copy of the user's label, `dcache_lock` around
the loop over the aliases.
-/

namespace Laminar.Kernel

open Laminar.Lib

/-! ## The label of a task -/

/-- What a successful change makes of a label: the tag is added or removed, as sets, in the list
that the type selects, and the other list is untouched; or the label is the user's. -/
inductive Applied (label : LabelT) (opType labelType : Int) (bulkLabel : Option LabelStruct)
    (old new : LabelStruct) : Prop
  | add (kind : ListKind) (hop : opType = labelOpAdd)
      (hkind : listOfType labelType = some kind)
      (hset : ∀ l, l ∈ (new.list kind).entries ↔ l ∈ (old.list kind).entries ∨ l = label)
      (hframe : ∀ other, other ≠ kind → new.list other = old.list other)
  | remove (kind : ListKind) (hop : opType = labelOpRemove)
      (hkind : listOfType labelType = some kind)
      (hset : ∀ l, l ∈ (new.list kind).entries ↔ l ∈ (old.list kind).entries ∧ l ≠ label)
      (hframe : ∀ other, other ≠ kind → new.list other = old.list other)
  | replace (hop : opType = labelOpReplace) (hbulk : bulkLabel = some new)

/-- A change of one tag, read as a change of sets.  Without duplicates the removal of one entry
is the removal of the tag. -/
theorem Changed.applied {tsk : Task} {label : LabelT} {opType labelType : Int}
    {old new : LabelStruct} {kind : ListKind}
    (h : Changed tsk label opType labelType old new kind) (hwf : old.WellFormed)
    (bulkLabel : Option LabelStruct) : Applied label opType labelType bulkLabel old new := by
  rcases h.entries with ⟨hop, -, -, hent⟩ | ⟨hop, -, -, hent⟩
  · refine .add kind hop h.kind (fun l => ?_) h.frame
    rw [hent, List.mem_append, List.mem_singleton]
  · refine .remove kind hop h.kind (fun l => ?_) h.frame
    rw [hent, (hwf.2 kind).mem_erase_iff, and_comm]

section TaskLabel

variable {k : Kernel} {p : Pid} {tsk : Task} {tsec : TaskSecurityStruct}

/-- What is stored in the security structure of the task after its label was written. -/
theorem security_setLabel (htask : k.task p = some tsk) (hsec : tsk.security = some tsec)
    (lbl : LabelStruct) :
    (k.setLabel p lbl).security p = some { tsec with label := lbl } := by
  rw [Kernel.setLabel, Kernel.security_modifySecurity, if_pos rfl, security_of_task htask, hsec,
    Option.map_some]

/-- On labels whose counts fit, `difc_set_task_label` returns. -/
theorem difcSetTaskLabel_returns (hsec : tsk.security = some tsec) (hb : tsec.label.Bounded)
    (label : LabelT) (opType labelType : Int) {bulkLabel : Option LabelStruct}
    (hbulk : ∀ ulabel, bulkLabel = some ulabel → ulabel.Bounded) :
    ∃ out, difcSetTaskLabel k p tsk label opType labelType bulkLabel = .ok out := by
  unfold difcSetTaskLabel
  dsimp only
  rw [hsec, Option.map_some]
  split
  · cases bulkLabel with
    | none => exact ⟨_, rfl⟩
    | some ulabel =>
        obtain ⟨rv, hcheck, -⟩ := checkLabelReplace_spec tsk hb (hbulk ulabel rfl)
        dsimp only
        rw [hcheck]
        by_cases hrv : rv = 0
        · exact ⟨_, if_pos hrv⟩
        · exact ⟨_, if_neg hrv⟩
  · obtain ⟨rv, lbl, hset, -⟩ := difcSetLabel_spec tsk hb label opType labelType
    rw [Option.getD_some, hset]
    exact ⟨_, rfl⟩

/-- An error leaves the security structure alone; 0 means that the change was applied. -/
theorem difcSetTaskLabel_applied (htask : k.task p = some tsk) (hsec : tsk.security = some tsec)
    (hwf : tsec.label.WellFormed) {label : LabelT} {opType labelType n : Int}
    {bulkLabel : Option LabelStruct} {k' : Kernel}
    (h : difcSetTaskLabel k p tsk label opType labelType bulkLabel = .ok (n, k')) :
    (n ≠ 0 ∧ k'.security p = k.security p) ∨
      (n = 0 ∧ ∃ new, k'.security p = some { tsec with label := new } ∧
        Applied label opType labelType bulkLabel tsec.label new) := by
  have hold : k.security p = some tsec := (security_of_task htask).trans hsec
  rcases difcSetTaskLabel_cases h with ⟨rfl, -, hn⟩ | ⟨ulabel, hop, hbulk, hn, -, rfl⟩ |
    ⟨lbl, -, hset, rfl⟩
  · exact Or.inl ⟨hn, rfl⟩
  · exact Or.inr ⟨hn, ulabel, security_setLabel htask hsec ulabel, .replace hop hbulk⟩
  · rw [hsec, Option.map_some, Option.getD_some] at hset
    obtain ⟨rv, out, hrun, hcase⟩ := difcSetLabel_spec tsk hwf.1 label opType labelType
    rw [hrun] at hset
    obtain ⟨rfl, rfl⟩ := Prod.mk.inj (Except.ok.inj hset)
    rcases hcase with ⟨hn, rfl⟩ | ⟨hn, kind, hchanged⟩
    · -- the label is written back as it was
      exact Or.inl ⟨hn, (security_setLabel htask hsec tsec.label).trans hold.symm⟩
    · exact Or.inr ⟨hn, out, security_setLabel htask hsec out, hchanged.applied hwf bulkLabel⟩

end TaskLabel

/-! ## The label of an inode -/

/-- The locks that `difc_inode_set_label` takes. -/
inductive InodeLock
  | labelChangeSem
  | dcacheLock
  deriving DecidableEq, Repr

/-- The loop over the aliases, entered only if the change itself is legal. -/
def checkAliases (k : Kernel) (tsk : Task) (inode : Inode) (rv : Int) :
    Except Fault (Int × List (LockOp InodeLock)) :=
  if rv = 0 then do
    let rv ← checkParents k tsk inode.aliasParents
    return (rv, [.take .dcacheLock, .drop .dcacheLock])
  else .ok (rv, [])

/-- `difc_inode_set_label` with the operations on the two locks. -/
def difcInodeSetLabelLocks (k : Kernel) (tsk : Task) (i : Ino) (inode : Inode)
    (newLabel : Option LabelStruct) : Except Fault (Int × Kernel × List (LockOp InodeLock)) :=
  match newLabel, inode.iSecurity with
  | none, _ => .ok (-eNomem, k, [])
  | some _, none => .error .nullDeref
  | some ulabel, some oss => do
      downWrite oss.labelChangeSem
      let rv ← checkLabelReplace tsk (some oss.label) ulabel
      let (rv, loop) ← checkAliases k tsk inode rv
      let k := if rv = 0 then
          k.setInode i { inode with iSecurity := some { oss with label := ulabel } }
        else k
      return (rv, k, .take .labelChangeSem :: loop ++ [.drop .labelChangeSem])

/-- `difc_inode_permission(.., MAY_WRITE, ..)` accepts the inode. -/
def AcceptsWrite (k : Kernel) (tsk : Task) (i : Ino) : Prop :=
  ∃ parent, k.inode i = some parent ∧
    difcInodePermission tsk parent.iSecurity mayWrite = .ok 0

/-- The inodes are there, with security structures and labels whose counts fit. -/
def Labeled (k : Kernel) (inodes : List Ino) : Prop :=
  ∀ i ∈ inodes, ∃ inode oss, k.inode i = some inode ∧ inode.iSecurity = some oss ∧
    oss.label.Bounded

section InodeLabel

variable {k : Kernel} {tsk : Task} {tsec : TaskSecurityStruct} {i : Ino} {inode : Inode}
  {newLabel : Option LabelStruct}

/-- The loop over the aliases returns, with 0 exactly if every parent accepts the write. -/
theorem checkParents_spec (hsec : tsk.security = some tsec) (hb : tsec.label.Bounded)
    {parents : List Ino} (hparents : Labeled k parents) :
    ∃ rv, checkParents k tsk parents = .ok rv ∧
      (rv = 0 ↔ ∀ i ∈ parents, AcceptsWrite k tsk i) := by
  induction parents with
  | nil => exact ⟨0, rfl, iff_of_true rfl fun _ h => absurd h List.not_mem_nil⟩
  | cons i rest ih =>
      obtain ⟨parent, oss, hparent, hoss, hlabel⟩ := hparents i List.mem_cons_self
      obtain ⟨verdict, hverdict⟩ :
          ∃ verdict, difcInodePermission tsk parent.iSecurity mayWrite = .ok verdict :=
        ⟨_, hoss ▸ difcInodePermission_eq hsec hb hlabel mayWrite⟩
      have haccept : AcceptsWrite k tsk i ↔ verdict = 0 := by
        rw [AcceptsWrite, hparent]
        constructor
        · rintro ⟨found, hfound, hzero⟩
          obtain rfl := Option.some.inj hfound
          exact Except.ok.inj (hverdict.symm.trans hzero)
        · rintro rfl
          exact ⟨parent, rfl, hverdict⟩
      rw [List.forall_mem_cons, haccept, checkParents, hparent]
      dsimp only [bind, Except.bind]
      rw [hverdict]
      dsimp only
      by_cases hzero : verdict = 0
      · obtain ⟨rv, hrest, hrv⟩ := ih fun j hj => hparents j (List.mem_cons_of_mem _ hj)
        exact ⟨rv, by rw [if_neg (not_not_intro hzero), hrest],
          hrv.trans (and_iff_right hzero).symm⟩
      · -- the first refusal leaves the loop
        exact ⟨verdict, if_pos hzero, iff_of_false hzero fun h => hzero h.1⟩

/-- Apart from the locks this is the call itself. -/
theorem difcInodeSetLabelLocks_ret (k : Kernel) (tsk : Task) (i : Ino) (inode : Inode)
    (newLabel : Option LabelStruct) :
    (difcInodeSetLabelLocks k tsk i inode newLabel).map (fun out => (out.1, out.2.1)) =
      difcInodeSetLabel k tsk i inode newLabel := by
  unfold difcInodeSetLabelLocks difcInodeSetLabel
  cases newLabel with
  | none => rfl
  | some ulabel =>
  cases inode.iSecurity with
  | none => rfl
  | some oss =>
      dsimp only [checkInodeSetLabel, checkAliases, bind, Except.bind]
      cases downWrite oss.labelChangeSem with
      | error fault => rfl
      | ok _ =>
      dsimp only
      cases checkLabelReplace tsk (some oss.label) ulabel with
      | error fault => rfl
      | ok rv =>
      dsimp only
      by_cases hrv : rv = 0
      · rw [if_pos hrv, if_pos hrv]
        cases checkParents k tsk inode.aliasParents with
        | error fault => rfl
        | ok verdict =>
            dsimp only [pure, Except.pure, Except.map]
            split <;> rfl
      · rw [if_neg hrv, if_neg hrv]
        dsimp only [pure, Except.pure, Except.map]
        rw [if_neg hrv, if_neg hrv]

/-- Every exit releases what was taken before it. -/
theorem difcInodeSetLabelLocks_balanced {n : Int} {k' : Kernel} {ops : List (LockOp InodeLock)}
    (h : difcInodeSetLabelLocks k tsk i inode newLabel = .ok (n, k', ops)) : Balanced ops := by
  unfold difcInodeSetLabelLocks at h
  split at h
  · obtain ⟨-, -, rfl⟩ := h
    exact balanced_nil
  · simp at h
  obtain ⟨_, -, h⟩ := bind_eq_ok.1 h
  obtain ⟨rv, -, h⟩ := bind_eq_ok.1 h
  obtain ⟨⟨verdict, loop⟩, hloop, h⟩ := bind_eq_ok.1 h
  obtain ⟨-, -, rfl⟩ := h
  refine Balanced.bracket ?_ InodeLock.labelChangeSem
  unfold checkAliases at hloop
  split at hloop
  · obtain ⟨_, -, hpair⟩ := bind_eq_ok.1 hloop
    obtain ⟨-, rfl⟩ := hpair
    exact balanced_nil.bracket InodeLock.dcacheLock
  · obtain ⟨-, rfl⟩ := hloop
    exact balanced_nil

/-- Once nobody reads under the semaphore, `difc_inode_set_label` returns. -/
theorem difcInodeSetLabelLocks_returns (hsec : tsk.security = some tsec)
    (hb : tsec.label.Bounded) {oss : ObjectSecurityStruct} (hoss : inode.iSecurity = some oss)
    (hlabel : oss.label.Bounded) (hfree : oss.labelChangeSem = 0)
    (hparents : Labeled k inode.aliasParents)
    (hnew : ∀ ulabel, newLabel = some ulabel → ulabel.Bounded) :
    ∃ out, difcInodeSetLabelLocks k tsk i inode newLabel = .ok out := by
  cases newLabel with
  | none => exact ⟨_, rfl⟩
  | some ulabel =>
      obtain ⟨rv, hcheck, -⟩ := checkLabelReplace_spec tsk hlabel (hnew ulabel rfl)
      obtain ⟨verdict, hverdict, -⟩ := checkParents_spec hsec hb hparents
      unfold difcInodeSetLabelLocks
      rw [hoss]
      dsimp only [bind, Except.bind, checkAliases]
      rw [downWrite_eq_ok (u := ()) |>.2 hfree, hcheck, hverdict]
      by_cases hrv : rv = 0
      · subst hrv
        exact ⟨_, rfl⟩
      · dsimp only
        rw [if_neg hrv]
        exact ⟨_, rfl⟩

/-- It returns 0 exactly if the user's label could be read, the change is legal and every parent
accepts the write. -/
theorem difcInodeSetLabel_eq_zero_iff (hsec : tsk.security = some tsec)
    (hb : tsec.label.Bounded) {oss : ObjectSecurityStruct} (hoss : inode.iSecurity = some oss)
    (hparents : Labeled k inode.aliasParents) {n : Int} {k' : Kernel}
    (h : difcInodeSetLabel k tsk i inode newLabel = .ok (n, k')) :
    n = 0 ↔ ∃ ulabel, newLabel = some ulabel ∧
      checkLabelReplace tsk (some oss.label) ulabel = .ok 0 ∧
      ∀ parent ∈ inode.aliasParents, AcceptsWrite k tsk parent := by
  obtain ⟨verdict, hverdict, haccept⟩ := checkParents_spec hsec hb hparents
  constructor
  · intro hn
    rcases difcInodeSetLabel_cases h with ⟨-, hne⟩ |
      ⟨ulabel, oss', hnew, hoss', -, hreplace, hloop, -, -⟩
    · exact absurd hn hne
    · obtain rfl := Option.some.inj (hoss.symm.trans hoss')
      obtain rfl := Except.ok.inj (hverdict.symm.trans hloop)
      exact ⟨ulabel, hnew, hreplace, haccept.1 rfl⟩
  · rintro ⟨ulabel, rfl, hreplace, hall⟩
    obtain rfl := haccept.2 hall
    unfold difcInodeSetLabel at h
    rw [hoss] at h
    obtain ⟨_, -, h⟩ := bind_eq_ok.1 h
    obtain ⟨rv, hcheck, h⟩ := bind_eq_ok.1 h
    rw [checkInodeSetLabel, hreplace] at hcheck
    obtain rfl := Except.ok.inj (hverdict.symm.trans hcheck)
    exact (congrArg Prod.fst (Except.ok.inj h)).symm

end InodeLabel

/-! ## All or nothing -/

/-- **Label changes are all or nothing.**  A call that returns an error leaves the stored label
as it was, a call that returns 0 has stored the whole change, and `difc_inode_set_label` returns 0
exactly if the change is legal and the task may write to the parent of every alias; it releases
its locks at every exit.  It waits only for the readers of the old label. -/
theorem labelChange_allOrNothing (k : Kernel) (p : Pid) (current : Task)
    (tsec : TaskSecurityStruct) (htask : k.task p = some current)
    (hsec : current.security = some tsec) (hwf : tsec.label.WellFormed) :
    (∀ (label : LabelT) (opType labelType : Int) (bulkLabel : Option LabelStruct),
      (∀ ulabel, bulkLabel = some ulabel → ulabel.Bounded) →
      ∃ n k', difcSetTaskLabel k p current label opType labelType bulkLabel = .ok (n, k') ∧
        (n ≠ 0 → k'.security p = k.security p) ∧
        (n = 0 → ∃ new, k'.security p = some { tsec with label := new } ∧
          Applied label opType labelType bulkLabel tsec.label new)) ∧
    ∀ (i : Ino) (inode : Inode) (oss : ObjectSecurityStruct) (newLabel : Option LabelStruct),
      k.inode i = some inode → inode.iSecurity = some oss → oss.label.WellFormed →
      Labeled k inode.aliasParents →
      (∀ ulabel, newLabel = some ulabel → ulabel.Bounded) →
      (oss.labelChangeSem = 0 →
        ∃ out, difcInodeSetLabelLocks k current i inode newLabel = .ok out) ∧
      ∀ n k' ops, difcInodeSetLabelLocks k current i inode newLabel = .ok (n, k', ops) →
        (n ≠ 0 → k'.inodeLabel i = k.inodeLabel i) ∧
        (n = 0 → k'.inodeLabel i = newLabel) ∧
        (n = 0 ↔ ∃ ulabel, newLabel = some ulabel ∧
          checkLabelReplace current (some oss.label) ulabel = .ok 0 ∧
          ∀ parent ∈ inode.aliasParents, AcceptsWrite k current parent) ∧
        Balanced ops := by
  constructor
  · intro label opType labelType bulkLabel hbulk
    obtain ⟨⟨n, k'⟩, hrun⟩ :=
      difcSetTaskLabel_returns (k := k) (p := p) hsec hwf.1 label opType labelType hbulk
    refine ⟨n, k', hrun, ?_⟩
    rcases difcSetTaskLabel_applied htask hsec hwf hrun with ⟨hn, hsame⟩ | ⟨hn, happlied⟩
    · exact ⟨fun _ => hsame, fun h => absurd h hn⟩
    · exact ⟨fun h => absurd hn h, fun _ => happlied⟩
  · intro i inode oss newLabel _ hoss hlabel hparents hnew
    refine ⟨fun hfree => difcInodeSetLabelLocks_returns hsec hwf.1 hoss hlabel.1 hfree hparents
      hnew, fun n k' ops hrun => ?_⟩
    have hcall : difcInodeSetLabel k current i inode newLabel = .ok (n, k') := by
      rw [← difcInodeSetLabelLocks_ret, hrun]
      rfl
    refine ⟨fun hn => ?_, fun hn => ?_,
      difcInodeSetLabel_eq_zero_iff hsec hwf.1 hoss hparents hcall,
      difcInodeSetLabelLocks_balanced hrun⟩
    · rcases difcInodeSetLabel_cases hcall with ⟨rfl, -⟩ | ⟨_, _, -, -, -, -, -, hzero, -⟩
      · rfl
      · exact absurd hzero hn
    · rcases difcInodeSetLabel_cases hcall with
        ⟨-, hne⟩ | ⟨ulabel, _, rfl, -, -, -, -, -, rfl⟩
      · exact absurd hn hne
      · rw [Kernel.inodeLabel_setInode, if_pos rfl, Option.map_some]

/-- The security structure of a task that owns label 2. -/
def owner : TaskSecurityStruct :=
  ⟨.zero, [⟨[2#64 ||| Sign.plus.wide ||| Sign.minus.wide], by decide⟩], [], false⟩

/-- The owner alone, with an unlabeled directory that is its own parent. -/
def ownerKernel : Kernel where
  curMaxCapability := 3#32
  pids := [1]
  task p := if p = 1 then some ⟨1000, 1, some owner⟩ else none
  inode i := if i = 10 then some ⟨some ⟨.zero, 0⟩, [10]⟩ else none

/-- The owner adds the tag to its label; and it labels the directory with it. -/
theorem owner_changes_labels :
    (∃ k' new, difcSetTaskLabel ownerKernel 1 ⟨1000, 1, some owner⟩ 2#64 labelOpAdd 0 none =
        .ok (0, k') ∧ k'.security 1 = some { owner with label := new } ∧
      Applied 2#64 labelOpAdd 0 none .zero new) ∧
    ∃ k' ops, difcInodeSetLabelLocks ownerKernel ⟨1000, 1, some owner⟩ 10
        ⟨some ⟨.zero, 0⟩, [10]⟩ (some ⟨.ofLabels [2#64], .ofLabels []⟩) = .ok (0, k', ops) ∧
      k'.inodeLabel 10 = some ⟨.ofLabels [2#64], .ofLabels []⟩ ∧ Balanced ops := by
  have h := labelChange_allOrNothing ownerKernel 1 ⟨1000, 1, some owner⟩ owner rfl rfl
    wellFormed_zero
  constructor
  · obtain ⟨n, k', hrun, -, happlied⟩ := h.1 2#64 labelOpAdd 0 none (fun _ h => nomatch h)
    obtain rfl : 0 = n := congrArg Prod.fst (Except.ok.inj hrun)
    obtain ⟨new, hnew⟩ := happlied rfl
    exact ⟨k', new, hrun, hnew⟩
  · have hparents : Labeled ownerKernel [10] := by
      intro i hi
      obtain rfl := List.mem_singleton.1 hi
      exact ⟨_, _, rfl, rfl, wellFormed_zero.1⟩
    have hinode := h.2 10 ⟨some ⟨.zero, 0⟩, [10]⟩ ⟨.zero, 0⟩
      (some ⟨.ofLabels [2#64], .ofLabels []⟩) rfl rfl wellFormed_zero hparents
      (fun _ h => Option.some.inj h ▸ by decide)
    obtain ⟨⟨n, k', ops⟩, hrun⟩ := hinode.1 rfl
    obtain rfl : 0 = n := congrArg Prod.fst (Except.ok.inj hrun)
    obtain ⟨-, hstored, -, hbalanced⟩ := hinode.2 0 k' ops hrun
    exact ⟨k', ops, hrun, hstored rfl, hbalanced⟩

end Laminar.Kernel
