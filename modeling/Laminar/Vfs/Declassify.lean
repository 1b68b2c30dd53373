import Mathlib.Data.List.TakeWhile
import Laminar.Kernel.Tcb
import Laminar.Kernel.Unforgeable
import Laminar.Kernel.XattrSafety
import Laminar.Vfs.Flow

/-!
# Declassification and endorsement

A label has two lists, and each of them bounds what its holder has to do with.  A holder
with a secrecy mark `l` may hold data that someone with the secrecy label `l` produced; one
with an integrity mark `l` may hold data of someone whom `l` does not endorse.  A holder
should have secrecy marks only for the tags of its secrecy list, and integrity marks only
for the tags outside of its integrity list: `admits` is that set for either side.  Both
sides then follow the same rule, data flows towards labels that admit more.

The calls of the module are steps here, with the data they carry: a created inode gets the
data of its creator, a child that of its parent, the receiver of a capability learns from
its sender, and with `REGION_GROUP` so do the other threads of the group.  The accesses that
the hooks see are steps, and so is every other way in which data goes from one holder to
another: `splice`, `tee` and `vmsplice` have no hook and the module defines none for mappings.
What `exec` takes from the program file comes by such a read or mapping.  A task with
`CAP_SYS_ADMIN`, which is not modelled, can set the attribute `security.difc`; where the file
system leaves that to the module, the label of the inode is overwritten without a check.  And
nothing reads the attribute back: an inode that was dropped from memory has an empty label when
it is read again.

A mark leaves its bounds only in a step of `LetsOut`.  The intended ones are the label
changes by a task whose capability has the sign for that tag, MINUS to declassify and PLUS
to endorse.  The others are the ways around: the trusted computing base, root with
`LABEL_TCB` in the new integrity list, `fork`, the thread group, a file whose inode has
no security structure, the transfers without a hook, the attribute, and the inodes that are
read again.
-/

namespace Laminar.Vfs

open Laminar.Lib Laminar.Kernel

/-! ## Marks -/

/-- One list of the label behind a pointer; empty for `NULL`. -/
def listEntries (side : ListKind) : Option LabelStruct → List LabelT
  | some lbl => (lbl.list side).entries
  | none => []

/-- The label of a holder. -/
def holderLabel (k : Kernel) : Holder → Option LabelStruct
  | .task p => taskLabel k p
  | .inode i => k.inodeLabel i

/-- The marks that a label allows: the tags of the secrecy list, and the tags that are not
in the integrity list. -/
def admits (side : ListKind) (lbl : Option LabelStruct) : Set LabelT :=
  match side with
  | .sec => {l | l ∈ listEntries .sec lbl}
  | .int => {l | l ∉ listEntries .int lbl}

/-- The sign that a label change needs after which fewer marks are allowed: MINUS to remove a
secrecy label, PLUS to add an integrity label. -/
def narrowing : ListKind → Sign
  | .sec => .minus
  | .int => .plus

/-- The kernel, with the marks of every holder. -/
structure Marked where
  kernel : Kernel
  marks : ListKind → Holder → Set LabelT

/-- What the holder's label allows. -/
def Marked.bound (s : Marked) (side : ListKind) (h : Holder) : Set LabelT :=
  admits side (holderLabel s.kernel h)

/-- No holder has the mark against its label. -/
def Marked.Keeps (s : Marked) (side : ListKind) (l : LabelT) : Prop :=
  ContainedTag (s.marks side) (s.bound side) l

/-! ## Steps -/

/-- What a task does. -/
inductive Move
  /-- produce data, under its present label -/
  | produce
  /-- an access that `difc_inode_permission` allows -/
  | inodeAccess (i : Ino) (mask : BitVec 32)
  /-- an access that `difc_file_permission` allows -/
  | fileAccess (file : File) (mask : BitVec 32)
  /-- a call that returns -/
  | call (c : Call)
  /-- data goes from one holder to another and no hook compares their labels: `splice` and `tee`
  between two inodes, `vmsplice` from a task to a pipe, memory that tasks share, shared mappings
  of a file either way, what a queued request moves after its release, messages on a socket -/
  | unhooked (src dest : Holder)
  /-- set the attribute `security.difc` of an inode -/
  | setxattr (i : Ino) (value : XattrValue)
  /-- an inode is read into memory, perhaps not for the first time -/
  | readInode (i : Ino) (aliasParents : List Ino)

/-- The data that a call carries, by what it returned.  A new inode holds nothing unless it
is handed to its creator; capabilities have been sent when `difc_send_capabilities` returns
0 or `-ENOENT`. -/
def carry (k : Kernel) (p : Pid) (tsk : Task) (marks : Holder → Set LabelT) :
    Call → Ret → Holder → Set LabelT
  | .createInode i _ _ _, .rv n =>
      if (k.inode i).isSome then marks
      else Function.update marks (.inode i)
        (if n = 0 ∨ n = -eOpnotsupp then marks (.task p) else ∅)
  | .fork child _ _, .rv n =>
      if n = 0 then Function.update marks (.task child) (marks (.task p)) else marks
  | .sendCapabilities pid _ _, .rv n =>
      if n = 0 ∨ n = -eNoent then flow marks (.task p) (.task pid) else marks
  | .allocLabel _ region, _ => fun h =>
      if h ∈ (k.recipients p tsk region).map Holder.task then marks h ∪ marks (.task p)
      else marks h
  | _, _ => marks

/-- An inode as `alloc_inode` leaves it, by `difc_inode_alloc_security`. -/
def allocInode (aliasParents : List Ino) : Inode := ⟨some ⟨.zero, 0⟩, aliasParents⟩

namespace Marked

/-- One step of task `p`, which is `tsk`; `none` if a hook refuses it. -/
def stepAs (s : Marked) (p : Pid) (tsk : Task) : Move → Option Marked
  | .produce =>
      some { s with marks := fun side =>
        Function.update (s.marks side) (.task p) (s.marks side (.task p) ∪ s.bound side (.task p)) }
  | .inodeAccess i mask =>
      match (s.kernel.inode i).map fun inode => difcInodePermission tsk inode.iSecurity mask with
      | some (.ok 0) => some { s with marks := fun side => moveData (s.marks side) p i mask }
      | _ => none
  | .fileAccess file mask =>
      match difcFilePermission s.kernel tsk file mask with
      | .ok (0, _) => some { s with marks := fun side => moveData (s.marks side) p file.inode mask }
      | _ => none
  | .call c =>
      match performAs s.kernel p tsk c with
      | .ok (ret, k') => some ⟨k', fun side => carry s.kernel p tsk (s.marks side) c ret⟩
      | .error _ => none
  | .unhooked src dest => some { s with marks := fun side => flow (s.marks side) src dest }
  | .setxattr i value =>
      match s.kernel.inode i with
      | some inode =>
          match difcInodeSetsecurity inode.iSecurity xattrDifcSuffix (some value.bytes) with
          | .ok (_, isec) =>
              some { s with kernel := s.kernel.setInode i { inode with iSecurity := isec } }
          | .error _ => none
      | none => none
  | .readInode i aliasParents =>
      some { s with kernel := s.kernel.setInode i (allocInode aliasParents) }

/-- One step. -/
def step (s : Marked) (a : Pid × Move) : Option Marked :=
  match s.kernel.task a.1 with
  | some tsk => s.stepAs a.1 tsk a.2
  | none => none

end Marked

/-- The labels that a step takes from the user have counts that fit: in a buffer, or in the value
of the attribute. -/
def UserBounded (s : Marked) : Pid × Move → Prop
  | (_, .call c) => BoundedPtr c.userLabel
  | (_, .setxattr i value) => ∀ inode oss, s.kernel.inode i = some inode →
      inode.iSecurity = some oss → value.Fits oss.label
  | _ => True

/-- A call that changes the label of a task or of an inode. -/
def ChangesLabel : Call → Prop
  | .setTaskLabel .. | .inodeSetLabel .. => True
  | _ => False

/-- The steps of task `p` in which the mark `l` may leave its bounds. -/
inductive LetsOut (side : ListKind) (l : LabelT) (s : Marked) (p : Pid) : Move → Prop
  /-- The task's capability for the tag has the sign. -/
  | relabel {tsk : Task} {c : Call} : s.kernel.task p = some tsk → ChangesLabel c →
      permits tsk l (narrowing side) = true → LetsOut side l s p (.call c)
  /-- Behind `LABEL_TCB` no integrity label is checked. -/
  | root {tsk : Task} {c : Call} {ulabel : LabelStruct} : side = .int →
      s.kernel.task p = some tsk → tsk.uid = 0 → c.userLabel = some ulabel →
      labelTcb ∈ ulabel.intList.entries → LetsOut side l s p (.call c)
  | trusted {tsec : TaskSecurityStruct} {ulabel : LabelStruct} :
      s.kernel.security p = some tsec → tsec.tcb = true →
      LetsOut side l s p (.call (.replaceLabelTcb (some ulabel)))
  /-- A child starts with an empty label. -/
  | fork {child : Pid} {thread outOfMemory : Bool} : side = .sec → l ∈ s.marks side (.task p) →
      LetsOut side l s p (.call (.fork child thread outOfMemory))
  /-- The labels of the other threads are not compared. -/
  | group {tsk : Task} {q : Pid} {type : BitVec 32} : s.kernel.task p = some tsk →
      q ∈ s.kernel.otherThreads p tsk → l ∈ s.marks side (.task p) →
      LetsOut side l s p (.call (.allocLabel type regionGroup))
  /-- `difc_file_permission` has nothing to compare. -/
  | unchecked {file : File} {mask : BitVec 32} : iSecurity s.kernel file = none →
      (maskReads mask = true ∧ l ∈ s.marks side (.inode file.inode) ∨
        maskWrites mask = true ∧ l ∈ s.marks side (.task p)) →
      LetsOut side l s p (.fileAccess file mask)
  | unhooked {src dest : Holder} : l ∈ s.marks side src → l ∉ s.bound side dest →
      LetsOut side l s p (.unhooked src dest)
  /-- `difc_inode_setsecurity` compares no labels. -/
  | setxattr {i : Ino} {value : XattrValue} : l ∈ s.marks side (.inode i) →
      LetsOut side l s p (.setxattr i value)
  /-- The inode has lost its secrecy label. -/
  | readInode {i : Ino} {aliasParents : List Ino} : side = .sec → l ∈ s.marks side (.inode i) →
      LetsOut side l s p (.readInode i aliasParents)

/-- The mark leaves its bounds in this very step. -/
structure Breaks (side : ListKind) (l : LabelT) (s : Marked) (a : Pid × Move) (s' : Marked) :
    Prop where
  before : s.Keeps side l
  step : s.step a = some s'
  after : ¬ s'.Keeps side l

/-! ## What the checks say about both sides -/

theorem admits_congr {a b : Option LabelStruct}
    (h : ∀ side, listEntries side a = listEntries side b) (side : ListKind) :
    admits side a = admits side b := by
  cases side with
  | sec => simp only [admits, h .sec]
  | int => simp only [admits, h .int]

theorem listEntries_unlabeled {α : Type} {sec : Option α} {label : α → LabelStruct}
    (h : (sec.all fun a => (label a).unlabeled) = true) (side : ListKind) :
    listEntries side (sec.map label) = [] := by
  cases sec with
  | none => rfl
  | some a => exact LabelStruct.entries_unlabeled h side

/-- The integrity loop, also for null pointers. -/
theorem checkAllowed_intEntries {src dest : Option LabelStruct} (hs : BoundedPtr src)
    (hd : BoundedPtr dest) (h : checkAllowed src dest = .ok 0) :
    ∀ l ∈ listEntries .int dest, l ∈ listEntries .int src := by
  intro l hl
  cases dest with
  | none => cases hl
  | some d =>
      cases src with
      | some s =>
          rw [checkAllowed_eq (hs s rfl) (hd d rfl)] at h
          by_cases hflows : Flows s d
          · exact hflows.2 l hl
          · rw [if_neg hflows] at h
            cases h
      | none =>
          -- the first label to look for follows the null pointer
          unfold checkAllowed at h
          obtain ⟨leaked, hleaks, h⟩ := bind_eq_ok.mp h
          obtain rfl : leaked = false := (Except.ok.inj hleaks).symm
          rw [if_neg Bool.false_ne_true] at h
          obtain ⟨tainted, hlacks, -⟩ := bind_eq_ok.mp h
          exact absurd hlacks (anyLabel_ne_ok (hd d rfl).2 (List.ne_nil_of_mem hl) tainted)

/-- A flow that `check_allowed` grants goes to a label that allows more marks. -/
theorem admits_of_checkAllowed {src dest : Option LabelStruct} (hs : BoundedPtr src)
    (hd : BoundedPtr dest) (h : checkAllowed src dest = .ok 0) (side : ListKind) :
    admits side src ⊆ admits side dest := by
  intro l hl
  cases side with
  | sec =>
      have hsec : ∀ lbl : Option LabelStruct, listEntries .sec lbl = secEntries lbl := by
        rintro (_ | _) <;> rfl
      simp only [admits, hsec, Set.mem_ofPred_eq] at hl ⊢
      exact checkAllowed_secEntries hs hd h l hl
  | int =>
      simp only [admits, Set.mem_ofPred_eq] at hl ⊢
      exact fun hmem => hl (checkAllowed_intEntries hs hd h l hmem)

/-- A granted permission: neither side has a label, or every direction asked for passed
`check_allowed`. -/
theorem difcInodePermission_zero {tsk : Task} {isec : Option ObjectSecurityStruct}
    {mask : BitVec 32} (h : difcInodePermission tsk isec mask = .ok 0) :
    (taskGetLabels tsk = true ∧ (isec.all fun oss => oss.label.unlabeled) = true) ∨
      (maskReads mask = true → checkAllowed (isec.map ObjectSecurityStruct.label)
        (tsk.security.map TaskSecurityStruct.label) = .ok 0) ∧
      (maskWrites mask = true → checkAllowed (tsk.security.map TaskSecurityStruct.label)
        (isec.map ObjectSecurityStruct.label) = .ok 0) := by
  unfold difcInodePermission at h
  dsimp only at h
  split at h
  · rename_i hboth
    exact .inl (Bool.and_eq_true_iff.1 hboth)
  · obtain ⟨r, hr, h⟩ := bind_eq_ok.mp h
    obtain ⟨w, hw, h⟩ := bind_eq_ok.mp h
    obtain ⟨rfl, rfl⟩ :=
      orInt_eq_zero (checkIf_values hr) (checkIf_values hw) (Except.ok.inj h)
    right
    constructor
    · intro hreads
      rw [maskReads] at hreads
      rwa [checkIf, if_pos hreads] at hr
    · intro hwrites
      rw [maskWrites] at hwrites
      rwa [checkIf, if_pos hwrites] at hw

/-- What a granted permission says about the marks. -/
theorem admits_of_permission {tsk : Task} {isec : Option ObjectSecurityStruct}
    {mask : BitVec 32} (ht : BoundedPtr (tsk.security.map TaskSecurityStruct.label))
    (hi : BoundedPtr (isec.map ObjectSecurityStruct.label))
    (h : difcInodePermission tsk isec mask = .ok 0) (side : ListKind) :
    (maskReads mask = true → admits side (isec.map ObjectSecurityStruct.label) ⊆
      admits side (tsk.security.map TaskSecurityStruct.label)) ∧
    (maskWrites mask = true → admits side (tsk.security.map TaskSecurityStruct.label) ⊆
      admits side (isec.map ObjectSecurityStruct.label)) := by
  rcases difcInodePermission_zero h with ⟨htask, hinode⟩ | ⟨hread, hwrite⟩
  · have heq : admits side (isec.map ObjectSecurityStruct.label) =
        admits side (tsk.security.map TaskSecurityStruct.label) := by
      apply admits_congr
      intro side
      rw [listEntries_unlabeled htask, listEntries_unlabeled hinode]
    exact ⟨fun _ => heq.subset, fun _ => heq.symm.subset⟩
  · exact ⟨fun hmask => admits_of_checkAllowed hi ht (hread hmask) side,
      fun hmask => admits_of_checkAllowed ht hi (hwrite hmask) side⟩

/-! ## What label changes do to the marks -/

section Changes

variable {tsk : Task} {old new : LabelStruct} {side : ListKind} {l : LabelT}

/-- A single change takes a mark away only with the capability for it. -/
theorem admits_of_changed {label : LabelT} {opType labelType : Int} {kind : ListKind}
    (h : Changed tsk label opType labelType old new kind) (hl : l ∈ admits side (some old)) :
    l ∈ admits side (some new) ∨ permits tsk l (narrowing side) = true := by
  by_cases hkind : side = kind
  · subst hkind
    rcases h.entries with ⟨-, hperm, -, hent⟩ | ⟨-, hperm, -, hent⟩
    · cases side with
      | sec =>
          left
          show l ∈ (new.list .sec).entries
          rw [hent]
          exact List.mem_append_left _ hl
      | int =>
          by_cases heq : l = label
          · exact .inr (heq ▸ hperm)
          · left
            show l ∉ (new.list .int).entries
            rw [hent, List.mem_append, List.mem_singleton]
            exact fun hmem => hmem.elim hl heq
    · cases side with
      | sec =>
          by_cases heq : l = label
          · exact .inr (heq ▸ hperm)
          · left
            show l ∈ (new.list .sec).entries
            rw [hent]
            exact (List.mem_erase_of_ne heq).2 hl
      | int =>
          left
          show l ∉ (new.list .int).entries
          rw [hent]
          exact fun hmem => hl (List.mem_of_mem_erase hmem)
  · left
    have hframe := h.frame side hkind
    cases side with
    | sec =>
        show l ∈ (new.list .sec).entries
        rw [hframe]
        exact hl
    | int =>
        show l ∉ (new.list .int).entries
        rw [hframe]
        exact hl

/-- So does a bulk replacement, unless root puts `LABEL_TCB` into the integrity list. -/
theorem admits_of_replace (ho : old.Bounded) (hn : new.Bounded)
    (h : checkLabelReplace tsk (some old) new = .ok 0) (hl : l ∈ admits side (some old)) :
    l ∈ admits side (some new) ∨ permits tsk l (narrowing side) = true ∨
      side = .int ∧ tsk.uid = 0 ∧ labelTcb ∈ new.intList.entries := by
  obtain ⟨rv, hrun, hiff⟩ := checkLabelReplace_spec tsk ho hn
  rw [hrun] at h
  have hallowed := hiff.1 (Except.ok.inj h)
  cases side with
  | sec =>
      rcases hallowed.secRemoves l hl with hmem | hperm
      · exact .inl hmem
      · exact .inr (.inl hperm)
  | int =>
      by_cases htcb : labelTcb ∈ new.intList.entries
      · exact .inr (.inr ⟨rfl, hallowed.tcbAdd htcb, htcb⟩)
      by_cases hmem : l ∈ new.intList.entries
      · -- no entry stops the loop early
        have hall : new.intList.entries.takeWhile (· ≠ labelTcb) = new.intList.entries := by
          apply List.takeWhile_eq_self_iff.2
          intro x hx
          exact decide_eq_true fun heq => htcb (heq ▸ hx)
        rcases hallowed.intAdds l (hall.symm ▸ hmem) with hold | hperm
        · exact absurd hold hl
        · exact .inr (.inl hperm)
      · exact .inl hmem

/-- The label of a new inode allows what its creator's does. -/
theorem admits_of_newInodeLabel {tsec : TaskSecurityStruct} {lbl : Option LabelStruct}
    {label : LabelStruct} (ht : tsec.label.Bounded) (hu : BoundedPtr lbl)
    (h : newInodeLabel tsk tsec lbl = .ok (some label)) (side : ListKind) :
    admits side (some tsec.label) ⊆ admits side (some label) := by
  unfold newInodeLabel at h
  split at h
  · obtain rfl := Option.some.inj (Except.ok.inj h)
    exact subset_rfl
  · rename_i input
    obtain ⟨a, ha, h⟩ := bind_eq_ok.mp h
    obtain ⟨b, -, h⟩ := bind_eq_ok.mp h
    have h := Except.ok.inj h
    split at h
    · rename_i hzero
      obtain rfl := Option.some.inj h
      rw [hzero.1] at ha
      exact admits_of_checkAllowed (fun lbl hlbl => Option.some.inj hlbl ▸ ht) hu ha side
    · cases h

end Changes

/-! ## Labels after a write -/

section Writes

variable (k : Kernel)

theorem holderLabel_modifySecurity (p : Pid) {f : TaskSecurityStruct → TaskSecurityStruct}
    (hf : ∀ tsec, (f tsec).label = tsec.label) (h : Holder) :
    holderLabel (k.modifySecurity p f) h = holderLabel k h := by
  cases h with
  | inode i => rfl
  | task q =>
      simp only [holderLabel, taskLabel, Kernel.security_modifySecurity]
      split
      · rw [Option.map_map]
        exact Option.map_congr fun tsec _ => hf tsec
      · rfl

theorem holderLabel_setLabel_of_ne (p : Pid) (lbl : LabelStruct) {h : Holder} (hne : h ≠ .task p) :
    holderLabel (k.setLabel p lbl) h = holderLabel k h := by
  cases h with
  | inode i => rfl
  | task q =>
      have hq : q ≠ p := fun heq => hne (heq ▸ rfl)
      simp only [holderLabel, taskLabel, Kernel.setLabel, Kernel.security_modifySecurity,
        if_neg hq]

theorem holderLabel_setInode_of_ne (i : Ino) (n : Inode) {h : Holder} (hne : h ≠ .inode i) :
    holderLabel (k.setInode i n) h = holderLabel k h := by
  cases h with
  | task q => rfl
  | inode j =>
      have hj : j ≠ i := fun heq => hne (heq ▸ rfl)
      simp only [holderLabel, Kernel.inodeLabel_setInode, if_neg hj]

theorem holderLabel_addTask_of_ne (p : Pid) (tsk : Task) {h : Holder} (hne : h ≠ .task p) :
    holderLabel (k.addTask p tsk) h = holderLabel k h := by
  cases h with
  | inode i => rfl
  | task q =>
      have hq : q ≠ p := fun heq => hne (heq ▸ rfl)
      simp only [holderLabel, taskLabel, Kernel.security_addTask, if_neg hq]

end Writes

theorem holderLabel_task {k : Kernel} {p : Pid} {tsk : Task} (h : k.task p = some tsk) :
    holderLabel k (.task p) = tsk.security.map TaskSecurityStruct.label := by
  rw [holderLabel, taskLabel, security_of_task h]

theorem holderLabel_inode {k : Kernel} {i : Ino} {inode : Inode} (h : k.inode i = some inode) :
    holderLabel k (.inode i) = inode.iSecurity.map ObjectSecurityStruct.label := by
  rw [holderLabel, Kernel.inodeLabel, h, Option.bind_some]

theorem boundedPtr_holderLabel {k : Kernel} (h : AllLabels LabelStruct.Bounded k) (x : Holder) :
    BoundedPtr (holderLabel k x) := by
  intro lbl hlbl
  cases x with
  | inode i => exact h.inode i lbl hlbl
  | task p =>
      obtain ⟨tsec, htsec, rfl⟩ := Option.map_eq_some_iff.1 hlbl
      exact h.task p tsec htsec

/-! ## One step -/

namespace Marked

section Steps

variable {s : Marked} {side : ListKind} {l : LabelT} (h : s.Keeps side l)

include h

/-- A mark moves as a permission with this mask lets it. -/
theorem keeps_moveData {p : Pid} {i : Ino} {mask : BitVec 32}
    (hread : maskReads mask = true → l ∈ s.marks side (.inode i) → l ∈ s.bound side (.task p))
    (hwrite : maskWrites mask = true → l ∈ s.marks side (.task p) →
      l ∈ s.bound side (.inode i)) :
    ContainedTag (moveData (s.marks side) p i mask) (s.bound side) l := by
  by_cases hreads : maskReads mask = true
  · have hafter := ContainedTag.flow h (hread hreads)
    by_cases hwrites : maskWrites mask = true
    · simp only [moveData, hreads, hwrites, if_true]
      refine hafter.flow fun hmem => ?_
      rw [flow, Function.update_self] at hmem
      -- what the task has just read from the inode may be written back
      exact hmem.elim (hwrite hwrites) (h (.inode i))
    · simp only [moveData, hreads, hwrites, if_true]
      exact hafter
  · by_cases hwrites : maskWrites mask = true
    · simp only [moveData, hreads, hwrites, if_true]
      exact ContainedTag.flow h (hwrite hwrites)
    · simp only [moveData, hreads, hwrites]
      exact h

/-- A call that leaves all labels and the marks alone. -/
theorem keeps_of_sameLabels {k' : Kernel}
    (hlabels : ∀ x, holderLabel k' x = holderLabel s.kernel x) :
    Keeps ⟨k', s.marks⟩ side l := by
  refine ContainedTag.mono h fun x hx => ?_
  rw [bound, hlabels x]
  exact hx

/-- A write to the label of one holder. -/
theorem keeps_of_relabel {k' : Kernel} {x : Holder}
    (hframe : ∀ y, y ≠ x → holderLabel k' y = holderLabel s.kernel y)
    (hx : l ∈ s.bound side x → l ∈ admits side (holderLabel k' x)) :
    Keeps ⟨k', s.marks⟩ side l := by
  refine ContainedTag.mono h fun y hy => ?_
  by_cases hyx : y = x
  · subst hyx
    exact hx hy
  · rw [bound, hframe y hyx]
    exact hy

theorem keeps_produce (p : Pid) :
    ContainedTag (Function.update (s.marks side) (.task p)
      (s.marks side (.task p) ∪ s.bound side (.task p))) (s.bound side) l :=
  ContainedTag.update h (fun _ _ => rfl) fun hmem => hmem.elim (h _) id

variable (hb : AllLabels LabelStruct.Bounded s.kernel) {p : Pid} {tsk : Task}
  (htask : s.kernel.task p = some tsk)

include hb htask

private theorem keeps_access {i : Ino} {inode : Inode} {mask : BitVec 32}
    (hinode : s.kernel.inode i = some inode)
    (hperm : difcInodePermission tsk inode.iSecurity mask = .ok 0) :
    ContainedTag (moveData (s.marks side) p i mask) (s.bound side) l := by
  have ht := boundedPtr_holderLabel hb (.task p)
  have hi := boundedPtr_holderLabel hb (.inode i)
  rw [holderLabel_task htask] at ht
  rw [holderLabel_inode hinode] at hi
  obtain ⟨hread, hwrite⟩ := admits_of_permission ht hi hperm side
  refine keeps_moveData h ?_ ?_
  · intro hmask hmem
    have hbound := h _ hmem
    rw [bound, holderLabel_inode hinode] at hbound
    rw [bound, holderLabel_task htask]
    exact hread hmask hbound
  · intro hmask hmem
    have hbound := h _ hmem
    rw [bound, holderLabel_task htask] at hbound
    rw [bound, holderLabel_inode hinode]
    exact hwrite hmask hbound

theorem keeps_fileAccess {file : File} {mask : BitVec 32} {ops : List (LockOp Ino)}
    (hperm : difcFilePermission s.kernel tsk file mask = .ok (0, ops))
    (hno : ¬ LetsOut side l s p (.fileAccess file mask)) :
    ContainedTag (moveData (s.marks side) p file.inode mask) (s.bound side) l := by
  unfold difcFilePermission at hperm
  split at hperm
  · rename_i hnone
    refine keeps_moveData h ?_ ?_
    · exact fun hmask hmem => absurd (.unchecked hnone (.inl ⟨hmask, hmem⟩)) hno
    · exact fun hmask hmem => absurd (.unchecked hnone (.inr ⟨hmask, hmem⟩)) hno
  · rename_i oss hoss
    obtain ⟨rv, hcheck, hret⟩ := bind_eq_ok.mp hperm
    obtain ⟨rfl, -⟩ := Prod.mk.inj (Except.ok.inj hret)
    obtain ⟨inode, hinode, hsec⟩ := Option.bind_eq_some_iff.1 hoss
    rw [← hsec] at hcheck
    exact keeps_access h hb htask hinode hcheck

/-! The calls.  What a call leaves is `⟨k', carry ..⟩`. -/

omit hb htask in
/-- `difc_alloc_label` writes capability lists only; with `REGION_GROUP` those of other
tasks too. -/
private theorem keeps_allocLabel {type : BitVec 32} {region : Int} {ret : LabelT} {k' : Kernel}
    (hcall : difcAllocLabel s.kernel p tsk type region = .ok (ret, k'))
    (hgroup : ∀ q ∈ s.kernel.recipients p tsk region, l ∈ s.marks side (.task p) →
      l ∈ s.bound side (.task q)) :
    Keeps ⟨k', fun side => carry s.kernel p tsk (s.marks side) (.allocLabel type region)
      (.label ret)⟩ side l := by
  have hlabels : ∀ x, holderLabel k' x = holderLabel s.kernel x := by
    obtain ⟨k₁, hfold, hret⟩ := bind_eq_ok.mp hcall
    obtain ⟨-, rfl⟩ := Prod.mk.inj (Except.ok.inj hret)
    refine foldlM_invariant
      (P := fun k₁ => ∀ x, holderLabel k₁ x = holderLabel s.kernel x) ?_ ?_ hfold
    · intro k₁ q _ k₂ ih hone x
      unfold difcAllocLabelTo at hone
      split at hone
      · obtain rfl := Except.ok.inj hone
        rw [← ih x]
        exact holderLabel_modifySecurity k₁ q (by intro; rfl) x
      · cases hone
    · rintro (_ | _) <;> rfl
  intro x hx
  rw [bound, hlabels x]
  dsimp only [carry] at hx
  split at hx
  · rename_i hmem
    obtain ⟨q, hq, rfl⟩ := List.mem_map.1 hmem
    exact hx.elim (h _) (hgroup q hq)
  · exact h x hx

omit hb htask in
private theorem keeps_dropCapabilities {buf : Option (List CapabilityT)} {type : BitVec 32}
    {flag n : Int} {k' : Kernel}
    (hcall : difcDropCapabilities s.kernel p tsk buf type flag = .ok (n, k')) :
    Keeps ⟨k', s.marks⟩ side l := by
  rcases difcDropCapabilities_eq_ok hcall with rfl | ⟨_, _, -, -, rfl⟩
  · exact h
  · exact keeps_of_sameLabels h (holderLabel_modifySecurity s.kernel p (by intro; rfl))

omit hb htask in
private theorem keeps_resumeCapabilities {buf : Option (List CapabilityT)} {type : BitVec 32}
    {n : Int} {k' : Kernel}
    (hcall : difcResumeCapabilities s.kernel p tsk buf type = .ok (n, k')) :
    Keeps ⟨k', s.marks⟩ side l := by
  rcases difcResumeCapabilities_eq_ok hcall with rfl | ⟨_, _, -, -, rfl⟩
  · exact h
  · exact keeps_of_sameLabels h (holderLabel_modifySecurity s.kernel p (by intro; rfl))

/-- Capabilities reach the receiver only if the sender may write to it. -/
private theorem keeps_sendCapabilities {pid : Pid} {buf : Option (List CapabilityT)}
    {type : BitVec 32} {n : Int} {k' : Kernel}
    (hcall : difcSendCapabilities s.kernel p tsk pid buf type = .ok (n, k')) :
    Keeps ⟨k', fun side => carry s.kernel p tsk (s.marks side) (.sendCapabilities pid buf type)
      (.rv n)⟩ side l := by
  have hlabels : ∀ x, holderLabel k' x = holderLabel s.kernel x := by
    intro x
    rcases difcSendCapabilities_eq_ok hcall with rfl | ⟨_, _, _, _, -, -, -, -, rfl⟩
    · rfl
    · exact (holderLabel_modifySecurity _ pid (by intro; rfl) x).trans
        (holderLabel_modifySecurity s.kernel p (by intro; rfl) x)
  have hcarried : ContainedTag
      (carry s.kernel p tsk (s.marks side) (.sendCapabilities pid buf type) (.rv n))
      (s.bound side) l := by
    dsimp only [carry]
    split
    · rename_i hn
      refine ContainedTag.flow h fun hmem => ?_
      have hbound := h _ hmem
      unfold difcSendCapabilities at hcall
      split at hcall
      · obtain ⟨rfl, -⟩ := Prod.mk.inj (Except.ok.inj hcall)
        exact absurd hn (by decide)
      rename_i dest hdest
      obtain ⟨refused, hcheck, hcall⟩ := bind_eq_ok.mp hcall
      split at hcall
      · obtain ⟨rfl, -⟩ := Prod.mk.inj (Except.ok.inj hcall)
        exact absurd hn (by decide)
      rename_i hzero
      obtain rfl := Decidable.not_not.1 hzero
      have ht := boundedPtr_holderLabel hb (.task p)
      have hd := boundedPtr_holderLabel hb (.task pid)
      rw [bound, holderLabel_task htask] at hbound
      rw [holderLabel_task htask] at ht
      rw [holderLabel_task hdest] at hd
      rw [bound, holderLabel_task hdest]
      exact admits_of_checkAllowed ht hd hcheck side hbound
    · exact h
  refine ContainedTag.mono hcarried fun x hx => ?_
  rw [bound, hlabels x]
  exact hx

omit hb in
/-- A label stored for the calling task, from one that is known if there is one. -/
private theorem keeps_setLabel {lbl : LabelStruct}
    (hlbl : ∀ tsec, tsk.security = some tsec → l ∈ admits side (some tsec.label) →
      l ∈ admits side (some lbl)) :
    Keeps ⟨s.kernel.setLabel p lbl, s.marks⟩ side l := by
  refine keeps_of_relabel h (x := .task p) (fun y hy =>
    holderLabel_setLabel_of_ne s.kernel p lbl hy) fun hold => ?_
  rw [bound, holderLabel_task htask] at hold
  have hnew : holderLabel (s.kernel.setLabel p lbl) (.task p) =
      tsk.security.map fun _ => lbl := by
    rw [holderLabel, taskLabel, Kernel.setLabel, Kernel.security_modifySecurity, if_pos rfl,
      security_of_task htask, Option.map_map]
    rfl
  rw [hnew]
  cases hsec : tsk.security with
  | none =>
      rw [hsec] at hold
      exact hold
  | some tsec =>
      rw [hsec] at hold
      exact hlbl tsec hsec hold

private theorem keeps_setTaskLabel {label : LabelT} {opType labelType n : Int}
    {bulkLabel : Option LabelStruct} {k' : Kernel}
    (hu : BoundedPtr (Call.setTaskLabel label opType labelType bulkLabel).userLabel)
    (hcall : difcSetTaskLabel s.kernel p tsk label opType labelType bulkLabel = .ok (n, k'))
    (hno : ¬ LetsOut side l s p (.call (.setTaskLabel label opType labelType bulkLabel))) :
    Keeps ⟨k', s.marks⟩ side l := by
  have hlabel : ∀ tsec, tsk.security = some tsec → tsec.label.Bounded := fun tsec htsec =>
    hb.task p tsec ((security_of_task htask).trans htsec)
  have hperm : permits tsk l (narrowing side) ≠ true := fun hperm =>
    hno (.relabel htask trivial hperm)
  rcases difcSetTaskLabel_cases hcall with
    ⟨rfl, -⟩ | ⟨ulabel, rfl, rfl, -, hcheck, rfl⟩ | ⟨lbl, hop, hset, rfl⟩
  · exact h
  · refine keeps_setLabel h htask fun tsec htsec hl => ?_
    rw [htsec] at hcheck
    rcases admits_of_replace (hlabel tsec htsec) (hu ulabel rfl) hcheck hl with
      hnew | hperm' | ⟨rfl, huid, htcb⟩
    · exact hnew
    · exact absurd hperm' hperm
    · exact absurd (.root rfl htask huid rfl htcb) hno
  · refine keeps_setLabel h htask fun tsec htsec hl => ?_
    rw [htsec] at hset
    obtain ⟨rv, out, hrun, hcase⟩ :=
      difcSetLabel_spec tsk (hlabel tsec htsec) label opType labelType
    rw [show (Option.map TaskSecurityStruct.label (some tsec)).getD .zero = tsec.label from rfl,
      hrun] at hset
    obtain ⟨-, rfl⟩ := Prod.mk.inj (Except.ok.inj hset)
    rcases hcase with ⟨-, rfl⟩ | ⟨-, kind, hchanged⟩
    · exact hl
    · exact (admits_of_changed hchanged hl).resolve_right hperm

omit hb in
private theorem keeps_replaceLabelTcb {label : Option LabelStruct} {n : Int} {k' : Kernel}
    (hcall : difcReplaceLabelTcb s.kernel p tsk label = .ok (n, k'))
    (hno : ¬ LetsOut side l s p (.call (.replaceLabelTcb label))) :
    Keeps ⟨k', s.marks⟩ side l := by
  rcases difcReplaceLabelTcb_cases hcall with ⟨rfl, -⟩ | ⟨tsec, ulabel, hsec, htcb, rfl, -, rfl⟩
  · exact h
  · exact absurd (.trusted ((security_of_task htask).trans hsec) htcb) hno

private theorem keeps_inodeSetLabel {i : Ino} {inode : Inode} {label : Option LabelStruct}
    {n : Int} {k' : Kernel} (hu : BoundedPtr label) (hinode : s.kernel.inode i = some inode)
    (hcall : difcInodeSetLabel s.kernel tsk i inode label = .ok (n, k'))
    (hno : ¬ LetsOut side l s p (.call (.inodeSetLabel i label))) :
    Keeps ⟨k', s.marks⟩ side l := by
  rcases difcInodeSetLabel_cases hcall with
    ⟨rfl, -⟩ | ⟨ulabel, oss, rfl, hoss, -, hcheck, -, -, rfl⟩
  · exact h
  · refine keeps_of_relabel h (x := .inode i) (fun y hy =>
      holderLabel_setInode_of_ne s.kernel i _ hy) fun hl => ?_
    have hold := boundedPtr_holderLabel hb (.inode i)
    rw [holderLabel_inode hinode, hoss] at hold
    rw [bound, holderLabel_inode hinode, hoss] at hl
    rw [holderLabel, Kernel.inodeLabel_setInode, if_pos rfl]
    rcases admits_of_replace (hold _ rfl) (hu ulabel rfl) hcheck hl with
      hnew | hperm | ⟨rfl, huid, htcb⟩
    · exact hnew
    · exact absurd (.relabel htask trivial hperm) hno
    · exact absurd (.root rfl htask huid rfl htcb) hno

/-- A new inode that its creator gets has a label that allows what the creator's does. -/
private theorem keeps_createInode {i dir : Ino} {lbl : Option LabelStruct} {req : XattrRequest}
    {n : Int} {k' : Kernel} (hu : BoundedPtr lbl)
    (hcall : createInodeFor s.kernel tsk i dir lbl req = .ok (n, k')) :
    Keeps ⟨k', fun side => carry s.kernel p tsk (s.marks side) (.createInode i dir lbl req)
      (.rv n)⟩ side l := by
  unfold createInodeFor at hcall
  split at hcall
  · rename_i hsome
    obtain ⟨-, rfl⟩ := Prod.mk.inj (Except.ok.inj hcall)
    simp only [carry, hsome, if_true]
    exact h
  rename_i hnone
  obtain ⟨⟨rv, out, value⟩, hinit, hret⟩ := bind_eq_ok.mp hcall
  obtain ⟨rfl, rfl⟩ := Prod.mk.inj (Except.ok.inj hret)
  simp only [carry, if_neg hnone]
  refine ContainedTag.update h (fun y hy => ?_) fun hmem => ?_
  · rw [bound, bound, holderLabel_setInode_of_ne s.kernel i _ hy]
  rw [bound, holderLabel, Kernel.inodeLabel_setInode, if_pos rfl]
  split at hmem
  · rename_i hrv
    have hcreator := h _ hmem
    rw [bound, holderLabel_task htask] at hcreator
    cases hsec : tsk.security with
    | none =>
        rw [hsec] at hcreator
        simp only [difcInodeInitSecurity, hsec] at hinit
        cases hinit
        rw [admits_congr (b := none) (by rintro (_ | _) <;> rfl)]
        exact hcreator
    | some tsec =>
        rw [hsec] at hcreator
        have htsec := hb.task p tsec ((security_of_task htask).trans hsec)
        rcases difcInodeInitSecurity_inv hsec hinit with ⟨-, rfl, -⟩ | ⟨label, hnew, rfl⟩
        · exact absurd hrv (by decide)
        · exact admits_of_newInodeLabel htsec hu hnew side hcreator
  · exact hmem.elim

omit hb htask in
/-- The integrity list of a child is empty, its secrecy list too. -/
private theorem keeps_fork {child : Pid} {thread outOfMemory : Bool} {n : Int} {k' : Kernel}
    (hcall : forkTask s.kernel tsk child thread outOfMemory = (n, k'))
    (hno : ¬ LetsOut side l s p (.call (.fork child thread outOfMemory))) :
    Keeps ⟨k', fun side => carry s.kernel p tsk (s.marks side) (.fork child thread outOfMemory)
      (.rv n)⟩ side l := by
  unfold forkTask at hcall
  split at hcall
  · obtain ⟨rfl, rfl⟩ := Prod.mk.inj hcall
    exact h
  split at hcall
  · obtain ⟨rfl, rfl⟩ := Prod.mk.inj hcall
    exact h
  obtain ⟨rfl, rfl⟩ := Prod.mk.inj hcall
  simp only [carry, if_true]
  refine ContainedTag.update h (fun y hy => ?_) fun hmem => ?_
  · rw [bound, bound, holderLabel_addTask_of_ne s.kernel child _ hy]
  have hchild : (difcTaskAllocSecurity tsk.security).label = .zero := by
    cases tsk.security <;> rfl
  rw [bound, holderLabel, taskLabel, Kernel.security_addTask, if_pos rfl, Option.map_some, hchild]
  cases side with
  | sec => exact absurd (.fork rfl hmem) hno
  | int => exact List.not_mem_nil

omit hb htask in
private theorem keeps_exec {i : Ino} {outOfMemory : Bool} {n : Int} {k' : Kernel}
    (hcall : execProgram s.kernel p tsk i outOfMemory = .ok (n, k')) :
    Keeps ⟨k', s.marks⟩ side l := by
  rcases execProgram_cases hcall with rfl | ⟨inode, ok, -, -, rfl⟩
  · exact h
  · exact keeps_of_sameLabels h (holderLabel_modifySecurity s.kernel p (by intro; rfl))

/-- A call keeps the mark within its bounds unless it is one that lets it out. -/
theorem keeps_call {c : Call} {ret : Ret} {k' : Kernel} (hu : BoundedPtr c.userLabel)
    (hcall : performAs s.kernel p tsk c = .ok (ret, k'))
    (hno : ¬ LetsOut side l s p (.call c)) :
    Keeps ⟨k', fun side => carry s.kernel p tsk (s.marks side) c ret⟩ side l := by
  cases c with
  | allocLabel type region =>
      obtain ⟨⟨label, k₁⟩, halloc, hret⟩ := bind_eq_ok.mp hcall
      obtain ⟨rfl, rfl⟩ := Prod.mk.inj (Except.ok.inj hret)
      refine keeps_allocLabel h halloc fun q hq hmem => ?_
      unfold Kernel.recipients at hq
      split at hq
      · exact List.mem_singleton.1 hq ▸ h _ hmem
      split at hq
      · rename_i hregion
        subst hregion
        rcases List.mem_cons.1 hq with rfl | hq
        · exact h _ hmem
        · exact absurd (.group htask hq hmem) hno
      · cases hq
  | dropCapabilities buf type flag =>
      obtain ⟨n, rfl, hhook⟩ := int_eq_ok hcall
      exact keeps_dropCapabilities h hhook
  | resumeCapabilities buf type =>
      obtain ⟨n, rfl, hhook⟩ := int_eq_ok hcall
      exact keeps_resumeCapabilities h hhook
  | sendCapabilities pid buf type =>
      obtain ⟨n, rfl, hhook⟩ := int_eq_ok hcall
      exact keeps_sendCapabilities h hb htask hhook
  | setTaskLabel label opType labelType bulkLabel =>
      obtain ⟨n, rfl, hhook⟩ := int_eq_ok hcall
      exact keeps_setTaskLabel h hb htask hu hhook hno
  | replaceLabelTcb label =>
      obtain ⟨n, rfl, hhook⟩ := int_eq_ok hcall
      exact keeps_replaceLabelTcb h htask hhook hno
  | inodeSetLabel i label =>
      simp only [performAs] at hcall
      split at hcall
      · obtain ⟨rfl, rfl⟩ := Prod.mk.inj (Except.ok.inj hcall)
        exact h
      · rename_i inode hinode
        obtain ⟨n, rfl, hhook⟩ := int_eq_ok hcall
        exact keeps_inodeSetLabel h hb htask hu hinode hhook hno
  | createInode i dir lbl req =>
      obtain ⟨n, rfl, hhook⟩ := int_eq_ok hcall
      exact keeps_createInode h hb htask hu hhook
  | fork child thread outOfMemory =>
      obtain ⟨n, rfl, hhook⟩ := int_eq_ok hcall
      exact keeps_fork h (Except.ok.inj hhook) hno
  | exec i outOfMemory =>
      obtain ⟨n, rfl, hhook⟩ := int_eq_ok hcall
      exact keeps_exec h hhook

end Steps

/-- What a step does. -/
theorem step_cases {s s' : Marked} {p : Pid} {m : Move} (hstep : s.step (p, m) = some s') :
    ∃ tsk, s.kernel.task p = some tsk ∧
      ((m = .produce ∧ s'.kernel = s.kernel ∧ ∀ side, s'.marks side =
          Function.update (s.marks side) (.task p)
            (s.marks side (.task p) ∪ s.bound side (.task p))) ∨
        (∃ i mask inode, m = .inodeAccess i mask ∧ s.kernel.inode i = some inode ∧
          difcInodePermission tsk inode.iSecurity mask = .ok 0 ∧ s'.kernel = s.kernel ∧
          ∀ side, s'.marks side = moveData (s.marks side) p i mask) ∨
        (∃ file mask ops, m = .fileAccess file mask ∧
          difcFilePermission s.kernel tsk file mask = .ok (0, ops) ∧ s'.kernel = s.kernel ∧
          ∀ side, s'.marks side = moveData (s.marks side) p file.inode mask) ∨
        (∃ c ret, m = .call c ∧ performAs s.kernel p tsk c = .ok (ret, s'.kernel) ∧
          ∀ side, s'.marks side = carry s.kernel p tsk (s.marks side) c ret) ∨
        (∃ src dest, m = .unhooked src dest ∧ s'.kernel = s.kernel ∧
          ∀ side, s'.marks side = flow (s.marks side) src dest) ∨
        (∃ i value inode rv isec, m = .setxattr i value ∧ s.kernel.inode i = some inode ∧
          difcInodeSetsecurity inode.iSecurity xattrDifcSuffix (some value.bytes) =
            .ok (rv, isec) ∧
          s'.kernel = s.kernel.setInode i { inode with iSecurity := isec } ∧
          ∀ side, s'.marks side = s.marks side) ∨
        ∃ i aliasParents, m = .readInode i aliasParents ∧
          s'.kernel = s.kernel.setInode i (allocInode aliasParents) ∧
          ∀ side, s'.marks side = s.marks side) := by
  unfold step at hstep
  split at hstep
  · rename_i tsk htask
    refine ⟨tsk, htask, ?_⟩
    cases m with
    | produce =>
        cases hstep
        exact .inl ⟨rfl, rfl, fun _ => rfl⟩
    | inodeAccess i mask =>
        simp only [stepAs] at hstep
        split at hstep
        · rename_i hcall
          obtain ⟨inode, hinode, hperm⟩ := Option.map_eq_some_iff.1 hcall
          cases hstep
          exact .inr (.inl ⟨i, mask, inode, rfl, hinode, hperm, rfl, fun _ => rfl⟩)
        · cases hstep
    | fileAccess file mask =>
        simp only [stepAs] at hstep
        split at hstep
        · rename_i ops hperm
          cases hstep
          exact .inr (.inr (.inl ⟨file, mask, ops, rfl, hperm, rfl, fun _ => rfl⟩))
        · cases hstep
    | call c =>
        simp only [stepAs] at hstep
        split at hstep
        · rename_i ret k' hcall
          cases hstep
          exact .inr (.inr (.inr (.inl ⟨c, ret, rfl, hcall, fun _ => rfl⟩)))
        · cases hstep
    | unhooked src dest =>
        cases hstep
        exact .inr (.inr (.inr (.inr (.inl ⟨src, dest, rfl, rfl, fun _ => rfl⟩))))
    | setxattr i value =>
        simp only [stepAs] at hstep
        split at hstep
        · rename_i inode hinode
          split at hstep
          · rename_i rv isec hset
            cases hstep
            exact .inr (.inr (.inr (.inr (.inr (.inl
              ⟨i, value, inode, rv, isec, rfl, hinode, hset, rfl, fun _ => rfl⟩)))))
          · cases hstep
        · cases hstep
    | readInode i aliasParents =>
        cases hstep
        exact .inr (.inr (.inr (.inr (.inr (.inr ⟨i, aliasParents, rfl, rfl, fun _ => rfl⟩)))))
  · cases hstep

/-- The calls among the steps run on the kernel as before, `setxattr` and `readInode` replace the
label of one inode, and the other steps leave the kernel alone. -/
theorem step_perform {s s' : Marked} {p : Pid} {m : Move} (hstep : s.step (p, m) = some s') :
    s'.kernel = s.kernel ∨
      (∃ c ret, m = .call c ∧ perform s.kernel p c = .ok (ret, s'.kernel)) ∨
      (∃ i value inode rv isec, m = .setxattr i value ∧ s.kernel.inode i = some inode ∧
        difcInodeSetsecurity inode.iSecurity xattrDifcSuffix (some value.bytes) =
          .ok (rv, isec) ∧
        s'.kernel = s.kernel.setInode i { inode with iSecurity := isec }) ∨
      ∃ i aliasParents, m = .readInode i aliasParents ∧
        s'.kernel = s.kernel.setInode i (allocInode aliasParents) := by
  obtain ⟨tsk, htask, ⟨-, hk, -⟩ | ⟨_, _, _, -, -, -, hk, -⟩ | ⟨_, _, _, -, -, hk, -⟩ |
    ⟨c, ret, rfl, hcall, -⟩ | ⟨_, _, -, hk, -⟩ | ⟨i, value, inode, rv, isec, hm, hinode, hset,
      hk, -⟩ | ⟨i, aliasParents, hm, hk, -⟩⟩ := step_cases hstep
  · exact .inl hk
  · exact .inl hk
  · exact .inl hk
  · refine .inr (.inl ⟨c, ret, rfl, ?_⟩)
    rw [perform, htask]
    exact hcall
  · exact .inl hk
  · exact .inr (.inr (.inl ⟨i, value, inode, rv, isec, hm, hinode, hset, hk⟩))
  · exact .inr (.inr (.inr ⟨i, aliasParents, hm, hk⟩))

/-- The empty label of an inode that is read allows every integrity mark. -/
theorem Keeps.readInode {s : Marked} {side : ListKind} {l : LabelT} (h : s.Keeps side l) {i : Ino}
    (aliasParents : List Ino) (hno : side = .sec → l ∉ s.marks side (.inode i)) :
    ContainedTag (s.marks side)
      (bound ⟨s.kernel.setInode i (allocInode aliasParents), s.marks⟩ side) l := by
  intro x hx
  by_cases hxi : x = .inode i
  · subst hxi
    cases side with
    | sec => exact absurd hx (hno rfl)
    | int =>
        show l ∉ listEntries .int (holderLabel _ _)
        rw [holderLabel, Kernel.inodeLabel_setInode, if_pos rfl]
        exact List.not_mem_nil
  · rw [bound, holderLabel_setInode_of_ne s.kernel i _ hxi]
    exact h x hx

/-- One step keeps a mark within its bounds unless it is one that lets it out. -/
theorem Keeps.step {s s' : Marked} {side : ListKind} {l : LabelT} {p : Pid} {m : Move}
    (h : s.Keeps side l) (hb : AllLabels LabelStruct.Bounded s.kernel)
    (hu : UserBounded s (p, m)) (hno : ¬ LetsOut side l s p m)
    (hstep : s.step (p, m) = some s') : s'.Keeps side l := by
  obtain ⟨k', marks'⟩ := s'
  unfold Keeps
  obtain ⟨tsk, htask, ⟨-, rfl, hmarks⟩ | ⟨i, mask, inode, -, hinode, hperm, rfl, hmarks⟩ |
    ⟨file, mask, ops, rfl, hperm, rfl, hmarks⟩ | ⟨c, ret, rfl, hcall, hmarks⟩ |
    ⟨src, dest, rfl, rfl, hmarks⟩ | ⟨i, value, inode, rv, isec, rfl, hinode, hset, rfl,
      hmarks⟩ | ⟨i, aliasParents, rfl, rfl, hmarks⟩⟩ := step_cases hstep
  · rw [hmarks side]
    exact keeps_produce h p
  · rw [hmarks side]
    exact keeps_access h hb htask hinode hperm
  · rw [hmarks side]
    exact keeps_fileAccess h hb htask hperm hno
  · rw [hmarks side]
    exact keeps_call h hb htask hu hcall hno
  · rw [hmarks side]
    exact ContainedTag.flow h fun hmem => Classical.not_not.1 fun hbound =>
      hno (.unhooked hmem hbound)
  · rw [hmarks side]
    intro x hx
    by_cases hxi : x = .inode i
    · exact absurd (.setxattr (hxi ▸ hx)) hno
    · rw [bound, holderLabel_setInode_of_ne s.kernel i _ hxi]
      exact h x hx
  · rw [hmarks side]
    exact h.readInode aliasParents fun hside hmark => hno (.readInode hside hmark)

/-- An inode that is read has the empty label. -/
theorem allLabels_readInode {P : LabelStruct → Prop} {k : Kernel} {i : Ino}
    {aliasParents : List Ino} (hk : AllLabels P k) (hzero : P .zero) :
    AllLabels P (k.setInode i (allocInode aliasParents)) := by
  refine hk.setInode i ?_
  rintro oss ⟨⟩
  exact hzero

/-- The counts of all labels go on to fit. -/
theorem bounded_step {s s' : Marked} {a : Pid × Move}
    (hb : AllLabels LabelStruct.Bounded s.kernel) (hu : UserBounded s a)
    (hstep : s.step a = some s') : AllLabels LabelStruct.Bounded s'.kernel := by
  obtain ⟨p, m⟩ := a
  rcases step_perform hstep with hk | ⟨c, ret, rfl, hcall⟩ |
    ⟨i, value, inode, rv, isec, rfl, hinode, hset, hk⟩ | ⟨i, aliasParents, rfl, hk⟩
  · rw [hk]
    exact hb
  · obtain ⟨tsk, htask, heffect⟩ := perform_effect hcall
    exact hb.effect htask heffect (by decide)
      (fun _ _ _ _ _ _ hlbl hset => Tracked.difcSetLabel_bounded hlbl hset)
      fun ulabel hulabel _ => hu ulabel hulabel
  · have hnew := bounded_of_setsecurity (fun oss hoss => hu inode oss hinode hoss) hset
    rw [hk]
    exact hb.setInode i hnew
  · rw [hk]
    exact allLabels_readInode hb noTcb_zero.1

/-! ## Runs -/

/-- **If at the end of a run a holder has a mark that its label does not allow, then in some
step of the run the mark left its bounds, and this step was one of those that let it out**: a
label change by a task whose capability for the tag has the sign, a replacement by the trusted
computing base or by root with `LABEL_TCB`, a fork, an allocation for the thread group, an access
without a check, a transfer without a hook, the attribute, or an inode that is read again. -/
theorem escape_has_cause {s₀ s : Marked} {side : ListKind} {l : LabelT}
    (h₀ : s₀.Keeps side l) (hb : AllLabels LabelStruct.Bounded s₀.kernel)
    {moves : List (Pid × Move)} (hrun : Run step UserBounded s₀ moves s) {x : Holder}
    (hmark : l ∈ s.marks side x) (hout : l ∉ admits side (holderLabel s.kernel x)) :
    ∃ before p m after s₁ s₂, moves = before ++ (p, m) :: after ∧
      Run step UserBounded s₀ before s₁ ∧ Breaks side l s₁ (p, m) s₂ ∧
      LetsOut side l s₁ p m := by
  let P (s : Marked) : Prop := s.Keeps side l ∧ AllLabels LabelStruct.Bounded s.kernel
  have hend : ¬ P s := fun hP => hout (hP.1 x hmark)
  obtain ⟨before, ⟨p, m⟩, after, s₁, s₂, hmoves, hrun₁, hP, hguard, hstep, hlost⟩ :=
    hrun.exists_breaking ⟨h₀, hb⟩ hend
  have hbreaks : ¬ s₂.Keeps side l :=
    fun hkeeps => hlost ⟨hkeeps, bounded_step hP.2 hguard hstep⟩
  refine ⟨before, p, m, after, s₁, s₂, hmoves, hrun₁, ⟨hP.1, hstep, hbreaks⟩, ?_⟩
  by_contra hno
  exact hbreaks (hP.1.step hP.2 hguard hno hstep)

/-- The kernel after `difc_init`, in which every holder has what its empty label allows. -/
def bootMarked (uid : Nat) : Marked where
  kernel := bootKernel uid
  marks side x := admits side (holderLabel (bootKernel uid) x)

theorem keeps_bootMarked (uid : Nat) (side : ListKind) (l : LabelT) :
    (bootMarked uid).Keeps side l :=
  fun _ hx => hx

theorem noTcb_bootMarked (uid : Nat) : AllLabels LabelStruct.NoTcb (bootMarked uid).kernel := by
  have hboot := allLabels_bootKernel uid
  exact ⟨fun q tsec h => hboot.task q tsec h ▸ noTcb_zero,
    fun i lbl h => hboot.inode i lbl h ▸ noTcb_zero⟩

/-- A task that holds both signs for label 2 takes the label, produces data and removes the
label again: the data is declassified, by the last step. -/
theorem escape_has_cause_remove : ∃ moves s, Run step UserBounded (bootMarked 1000) moves s ∧
    2#64 ∈ s.marks .sec (.task 1) ∧ listEntries .sec (holderLabel s.kernel (.task 1)) = [] ∧
    ∃ before p m after s₁ s₂, moves = before ++ (p, m) :: after ∧
      Run step UserBounded (bootMarked 1000) before s₁ ∧ Breaks .sec 2#64 s₁ (p, m) s₂ ∧
      LetsOut .sec 2#64 s₁ p m := by
  have hnone : BoundedPtr none := fun _ hlbl => by cases hlbl
  have hrun : Run step UserBounded (bootMarked 1000)
      ([] ++ [(1, .call (.allocLabel (capPlusMask ||| capMinusMask) regionSelf))] ++
        [(1, .call (.setTaskLabel 2#64 labelOpAdd 0 none))] ++ [(1, .produce)] ++
        [(1, .call (.setTaskLabel 2#64 labelOpRemove 0 none))]) _ :=
    .snoc (.snoc (.snoc (.snoc .nil hnone rfl) hnone rfl) trivial rfl) hnone rfl
  have hbounded : AllLabels LabelStruct.Bounded (bootMarked 1000).kernel :=
    ⟨fun q tsec h => ((noTcb_bootMarked 1000).task q tsec h).1,
      fun i lbl h => ((noTcb_bootMarked 1000).inode i lbl h).1⟩
  refine ⟨_, _, hrun, ?_, rfl,
    escape_has_cause (x := .task 1) (keeps_bootMarked 1000 .sec 2#64) hbounded hrun ?_
      List.not_mem_nil⟩
  · right
    exact List.mem_of_elem_eq_true rfl
  · right
    exact List.mem_of_elem_eq_true rfl

/-! ## Tags that nobody can take off -/

/-- The call gives nobody the sign to take the mark away: the label is not allocated with
it, and no word that is stored has it. -/
def Withholds (side : ListKind) (l : LabelT) (k : Kernel) : Call → Prop
  | .allocLabel type _ => labelPart (newCap (k.curMaxCapability + 1#32) type) = l →
      carries (newCap (k.curMaxCapability + 1#32) type) (narrowing side) = false
  | .dropCapabilities (some words) _ _ | .resumeCapabilities (some words) _
  | .sendCapabilities _ (some words) _ =>
      ∀ word ∈ words, labelPart word = l → carries word (narrowing side) = false
  | _ => True

/-- The call carries no mark past the labels. -/
def NoBypass (side : ListKind) (l : LabelT) (s : Marked) (p : Pid) : Call → Prop
  | .fork .. => side = .sec → l ∉ s.marks side (.task p)
  | .allocLabel _ region => region = regionGroup → l ∉ s.marks side (.task p)
  | _ => True

/-- The steps of users other than root that forge no capability for label 0, give nobody the
sign for the tag, and carry the mark neither past the labels nor through an unchecked file nor
by a transfer without a hook; nobody sets the attribute, and an inode with the secrecy mark stays
in memory. -/
def Mandatory (side : ListKind) (l : LabelT) (s : Marked) : Pid × Move → Prop
  | (p, .call c) =>
      NoForgedTcb s.kernel (p, c) ∧ Withholds side l s.kernel c ∧ NoBypass side l s p c
  | (p, .fileAccess file mask) => iSecurity s.kernel file = none →
      (maskReads mask = true → l ∉ s.marks side (.inode file.inode)) ∧
      (maskWrites mask = true → l ∉ s.marks side (.task p))
  | (_, .unhooked src dest) => l ∈ s.marks side src → l ∈ s.bound side dest
  | (_, .setxattr _ _) => False
  | (_, .readInode i _) => side = .sec → l ∉ s.marks side (.inode i)
  | _ => True

/-- Nobody is trusted, nobody holds the sign, and the mark is where it may be. -/
structure Sealed (side : ListKind) (l : LabelT) (s : Marked) : Prop where
  tcbFree : TcbFree s.kernel
  noSign : ∀ place, ¬ s.kernel.Grants place l (narrowing side)
  keeps : s.Keeps side l

section Sealed

variable {side : ListKind} {l : LabelT} {s s' : Marked} {p : Pid}

/-- No list comes to hold the sign. -/
theorem Sealed.noSign_step (h : Sealed side l s) {c : Call} {ret : Ret} {k' : Kernel}
    (hguard : Withholds side l s.kernel c) (hcall : perform s.kernel p c = .ok (ret, k'))
    (place : Place) : ¬ k'.Grants place l (narrowing side) := by
  have hword : ∀ {type : BitVec 32} {src : Place} {word : CapabilityT},
      (labelPart word = l → carries word (narrowing side) = false) →
      ¬ Brings type (s.kernel.listAt src) word l (narrowing side) := by
    rintro type src word hno ⟨hl, hs | ⟨-, hh⟩⟩
    · rw [hno hl] at hs
      cases hs
    · exact h.noSign src hh
  intro hg
  rcases perform_grants hcall hg with hold | hsource
  · exact h.noSign place hold
  · cases hsource with
    | alloc _ _ hlabel hs =>
        rw [hguard hlabel.symm] at hs
        cases hs
    | fork hh => exact h.noSign _ hh
    | drop hmem hb => exact hword (hguard _ hmem) hb
    | resume hmem hb => exact hword (hguard _ hmem) hb
    | send hmem hb => exact hword (hguard _ hmem) hb

/-- None of the ways out is open. -/
theorem Sealed.not_letsOut (h : Sealed side l s) {m : Move} (hguard : Mandatory side l s (p, m)) :
    ¬ LetsOut side l s p m := by
  intro hout
  cases hout with
  | relabel htask _ hperm =>
      obtain ⟨tsec, htsec, hholds⟩ := permits_holds hperm
      refine h.noSign (.capList p) ?_
      rw [Kernel.Grants, listAt_capList ((security_of_task htask).trans htsec)]
      exact hholds
  | root _ htask huid _ _ => exact hguard.1.1 _ htask huid
  | trusted hsec htcb =>
      rw [h.tcbFree.flags p _ hsec] at htcb
      cases htcb
  | fork hside hmark => exact hguard.2.2 hside hmark
  | group _ _ hmark => exact hguard.2.2 rfl hmark
  | unchecked hnone hmark =>
      obtain ⟨hread, hwrite⟩ := hguard hnone
      rcases hmark with ⟨hmask, hmark⟩ | ⟨hmask, hmark⟩
      · exact hread hmask hmark
      · exact hwrite hmask hmark
  | unhooked hmark hout => exact hout (hguard hmark)
  | setxattr _ => exact hguard
  | readInode hside hmark => exact hguard hside hmark

theorem Sealed.step (h : Sealed side l s) {m : Move} (hguard : Mandatory side l s (p, m))
    (hstep : s.step (p, m) = some s') : Sealed side l s' := by
  have hbounded : AllLabels LabelStruct.Bounded s.kernel :=
    ⟨fun q tsec hq => (h.tcbFree.labels.task q tsec hq).1,
      fun i lbl hi => (h.tcbFree.labels.inode i lbl hi).1⟩
  have hu : UserBounded s (p, m) := by
    cases m with
    | call c => exact hguard.1.2.1
    | setxattr i value => exact hguard.elim
    | _ => trivial
  have hkeeps := h.keeps.step hbounded hu (h.not_letsOut hguard) hstep
  rcases step_perform hstep with hk | ⟨c, ret, rfl, hcall⟩ | ⟨_, _, _, _, _, rfl, -⟩ |
    ⟨i, aliasParents, rfl, hk⟩
  · exact ⟨hk ▸ h.tcbFree, fun place => hk ▸ h.noSign place, hkeeps⟩
  · obtain ⟨tsk, htask, heffect⟩ := perform_effect hcall
    exact ⟨⟨h.tcbFree.labels_step hguard.1 htask heffect, h.tcbFree.caps_step hguard.1 hcall,
      h.tcbFree.flags_step htask heffect⟩, h.noSign_step hguard.2.1 hcall, hkeeps⟩
  · exact hguard.elim
  · refine ⟨⟨?_, ?_, ?_⟩, ?_, hkeeps⟩ <;> rw [hk]
    · exact allLabels_readInode h.tcbFree.labels noTcb_zero
    · exact h.tcbFree.caps
    · exact h.tcbFree.flags
    · exact h.noSign

end Sealed

/-- **Mandatory tags.**  From the booted kernel, as long as users other than root forge no
capability for label 0, nobody is given the sign for a tag, no unchecked way carries the mark to a
holder whose label does not allow it, nobody sets the attribute and no inode with the secrecy mark
is read again, no holder ever has the mark against its label: the tag is not declassified, or not
endorsed, by any sequence of calls that the hooks see. -/
theorem mandatory_of_run (uid : Nat) {side : ListKind} {l : LabelT} {moves : List (Pid × Move)}
    {s : Marked} (hrun : Run step (Mandatory side l) (bootMarked uid) moves s) (x : Holder)
    (hmark : l ∈ s.marks side x) : l ∈ admits side (holderLabel s.kernel x) := by
  have hgrants : ∀ place l s, ¬ (bootMarked uid).kernel.Grants place l s := by
    intro place l s hg
    rw [Kernel.Grants, show (bootMarked uid).kernel = bootKernel uid from rfl,
      listAt_bootKernel] at hg
    exact not_holds_nil l s hg
  have hinit : Sealed side l (bootMarked uid) :=
    ⟨⟨noTcb_bootMarked uid, fun place => hgrants place labelTcb .plus,
      fun q tsec h => by rw [security_bootKernel h]⟩, fun place => hgrants place l _,
      keeps_bootMarked uid side l⟩
  exact (hrun.invariant hinit fun s a s' h hguard hstep => h.step hguard hstep).keeps x hmark

/-- A user allocates label 2 with PLUS only, takes it, produces data and writes it to a file
that it creates.  The file has the mark, and label 2. -/
theorem mandatory_of_run_file :
    ∃ moves s, Run step (Mandatory .sec 2#64) (bootMarked 1000) moves s ∧
      2#64 ∈ s.marks .sec (.inode 10) ∧ 2#64 ∈ admits .sec (holderLabel s.kernel (.inode 10)) := by
  have huser : ∀ {k : Kernel}, (k.task 1).map Task.uid = some 1000 →
      ∀ tsk, k.task 1 = some tsk → tsk.uid ≠ 0 := by
    intro k hk tsk htask
    rw [htask, Option.map_some, Option.some.injEq] at hk
    omega
  have hnone : BoundedPtr none := fun _ hlbl => by cases hlbl
  have hrun : Run step (Mandatory .sec 2#64) (bootMarked 1000)
      ([] ++ [(1, .call (.allocLabel capPlusMask regionSelf))] ++
        [(1, .call (.setTaskLabel 2#64 labelOpAdd 0 none))] ++ [(1, .produce)] ++
        [(1, .call (.createInode 10 0 none ⟨false, true, false, true⟩))] ++
        [(1, .inodeAccess 10 mayWrite)]) _ :=
    .snoc (.snoc (.snoc (.snoc (.snoc .nil
      ⟨⟨huser rfl, hnone, by decide⟩, fun _ => rfl, fun h => absurd h (by decide)⟩ rfl)
      ⟨⟨huser rfl, hnone, trivial⟩, trivial, trivial⟩ rfl) trivial rfl)
      ⟨⟨huser rfl, hnone, trivial⟩, trivial, trivial⟩ rfl) trivial rfl
  refine ⟨_, _, hrun, (and_iff_left_of_imp (mandatory_of_run 1000 hrun (.inode 10))).2 ?_⟩
  left
  right
  exact List.mem_of_elem_eq_true rfl

end Marked

end Laminar.Vfs
