import Laminar.Kernel.Rights

/-!
# Where labels come from

`Effect` lists everything a call can do to the labels and `tcb` flags of the
system, with the checks that were passed; `perform_effect` is the inversion
lemma.  The calls that only work on capability lists are one case, `SameLabels`.
Invariants about labels are proved by cases on `Effect` and never look at a hook
again.
-/

namespace Laminar.Kernel

open Laminar.Lib

/-- Labels, flags and inodes are as before; every task is one that was there. -/
structure SameLabels (k k' : Kernel) : Prop where
  security : ∀ q tsec', k'.security q = some tsec' →
    ∃ tsec, k.security q = some tsec ∧ tsec'.label = tsec.label ∧ tsec'.tcb = tsec.tcb
  inode : k'.inode = k.inode

theorem SameLabels.refl (k : Kernel) : SameLabels k k :=
  ⟨fun _ tsec h => ⟨tsec, h, rfl, rfl⟩, rfl⟩

theorem SameLabels.trans {k₁ k₂ k₃ : Kernel} (h : SameLabels k₁ k₂)
    (h' : SameLabels k₂ k₃) : SameLabels k₁ k₃ := by
  refine ⟨fun q tsec₃ hsec => ?_, h'.inode.trans h.inode⟩
  obtain ⟨tsec₂, hsec₂, hlabel, htcb⟩ := h'.security q tsec₃ hsec
  obtain ⟨tsec₁, hsec₁, hlabel', htcb'⟩ := h.security q tsec₂ hsec₂
  exact ⟨tsec₁, hsec₁, hlabel.trans hlabel', htcb.trans htcb'⟩

theorem SameLabels.modifySecurity (k : Kernel) (p : Pid)
    {f : TaskSecurityStruct → TaskSecurityStruct}
    (hlabel : ∀ tsec, (f tsec).label = tsec.label)
    (htcb : ∀ tsec, (f tsec).tcb = tsec.tcb) : SameLabels k (k.modifySecurity p f) := by
  refine ⟨fun q tsec' hsec => ?_, rfl⟩
  rw [Kernel.security_modifySecurity] at hsec
  split at hsec
  · obtain ⟨tsec, hold, rfl⟩ := Option.map_eq_some_iff.1 hsec
    exact ⟨tsec, hold, hlabel tsec, htcb tsec⟩
  · exact ⟨tsec', hsec, rfl, rfl⟩

/-- What a call of task `p`, which is `tsk`, can do to labels and flags. -/
inductive Effect (k : Kernel) (p : Pid) (tsk : Task) : Call → Ret → Kernel → Prop
  | same {c : Call} {ret : Ret} {k' : Kernel} : SameLabels k k' → Effect k p tsk c ret k'
  | fork {child : Pid} {thread outOfMemory : Bool} {ret : Ret} {tgid : Nat} :
      Effect k p tsk (.fork child thread outOfMemory) ret
        (k.addTask child ⟨tsk.uid, tgid, some (difcTaskAllocSecurity tsk.security)⟩)
  | replace {label : LabelT} {labelType : Int} {ulabel : LabelStruct} :
      checkLabelReplace tsk (tsk.security.map TaskSecurityStruct.label) ulabel = .ok 0 →
      Effect k p tsk (.setTaskLabel label labelOpReplace labelType (some ulabel)) (.rv 0)
        (k.setLabel p ulabel)
  | single {label : LabelT} {opType labelType n : Int} {bulkLabel : Option LabelStruct}
      {lbl : LabelStruct} :
      opType ≠ labelOpReplace →
      difcSetLabel tsk ((tsk.security.map TaskSecurityStruct.label).getD .zero) label opType
        labelType false = .ok (n, lbl) →
      Effect k p tsk (.setTaskLabel label opType labelType bulkLabel) (.rv n)
        (k.setLabel p lbl)
  | replaceTcb {tsec : TaskSecurityStruct} {ulabel : LabelStruct} :
      tsk.security = some tsec → tsec.tcb = true →
      Effect k p tsk (.replaceLabelTcb (some ulabel)) (.rv 0) (k.setLabel p ulabel)
  | inodeSet {i : Ino} {inode : Inode} {oss : ObjectSecurityStruct} {ulabel : LabelStruct} :
      k.inode i = some inode → inode.iSecurity = some oss →
      checkLabelReplace tsk (some oss.label) ulabel = .ok 0 →
      Effect k p tsk (.inodeSetLabel i (some ulabel)) (.rv 0)
        (k.setInode i { inode with iSecurity := some { oss with label := ulabel } })
  | create {i dir : Ino} {lbl : Option LabelStruct} {req : XattrRequest} {ret : Ret}
      {label : LabelStruct} :
      (label = .zero ∨ ∃ tsec, tsk.security = some tsec ∧
        newInodeLabel tsk tsec lbl = .ok (some label)) →
      Effect k p tsk (.createInode i dir lbl req) ret
        (k.setInode i ⟨some ⟨label, 0⟩, [dir]⟩)
  | exec {i : Ino} {outOfMemory ok : Bool} {ret : Ret} {inode : Inode} :
      k.inode i = some inode →
      hasLabel (difcBprmAllocSecurity inode.iSecurity).intList labelTcb = .ok ok →
      Effect k p tsk (.exec i outOfMemory) ret (k.setTcb p ok)

/-! ## The hooks on capability lists -/

section Hooks

variable {k k' : Kernel} {p : Pid} {tsk : Task} {n : Int}

private theorem allocTo_sameLabels {cap : CapabilityT} {qs : List Pid}
    (h : qs.foldlM (difcAllocLabelTo cap) k = .ok k') : SameLabels k k' := by
  refine foldlM_invariant (P := SameLabels k) ?_ (.refl k) h
  intro k₁ q _ k₂ hsame hone
  unfold difcAllocLabelTo at hone
  split at hone
  · obtain rfl := Except.ok.inj hone
    exact hsame.trans (.modifySecurity k₁ q (by intro; rfl) (by intro; rfl))
  · simp at hone

private theorem difcAllocLabel_sameLabels {type : BitVec 32} {region : Int} {l : LabelT}
    (h : difcAllocLabel k p tsk type region = .ok (l, k')) : SameLabels k k' := by
  obtain ⟨k₁, hfold, hret⟩ := bind_eq_ok.mp h
  obtain ⟨-, rfl⟩ := Prod.mk.inj (Except.ok.inj hret)
  obtain ⟨hsec, hinode⟩ := allocTo_sameLabels hfold
  exact ⟨hsec, hinode⟩

private theorem difcDropCapabilities_sameLabels {buf : Option (List CapabilityT)}
    {type : BitVec 32} {flag : Int}
    (h : difcDropCapabilities k p tsk buf type flag = .ok (n, k')) : SameLabels k k' := by
  rcases difcDropCapabilities_eq_ok h with rfl | ⟨_, _, -, -, rfl⟩
  · exact .refl _
  · exact .modifySecurity k p (by intro; rfl) (by intro; rfl)

private theorem difcResumeCapabilities_sameLabels {buf : Option (List CapabilityT)}
    {type : BitVec 32} (h : difcResumeCapabilities k p tsk buf type = .ok (n, k')) :
    SameLabels k k' := by
  rcases difcResumeCapabilities_eq_ok h with rfl | ⟨_, _, -, -, rfl⟩
  · exact .refl _
  · exact .modifySecurity k p (by intro; rfl) (by intro; rfl)

private theorem difcSendCapabilities_sameLabels {pid : Pid}
    {buf : Option (List CapabilityT)} {type : BitVec 32}
    (h : difcSendCapabilities k p tsk pid buf type = .ok (n, k')) : SameLabels k k' := by
  rcases difcSendCapabilities_eq_ok h with rfl | ⟨_, _, _, _, -, -, -, -, rfl⟩
  · exact .refl _
  · refine .trans (.modifySecurity k p ?_ ?_) (.modifySecurity _ pid ?_ ?_)
    all_goals intro; rfl

end Hooks

/-! ## The inversion lemma -/

/-- Everything a call does to labels and flags is one of the effects. -/
theorem perform_effect {k k' : Kernel} {p : Pid} {c : Call} {ret : Ret}
    (h : perform k p c = .ok (ret, k')) :
    ∃ tsk, k.task p = some tsk ∧ Effect k p tsk c ret k' := by
  obtain ⟨tsk, htask, h⟩ := perform_eq_ok h
  refine ⟨tsk, htask, ?_⟩
  cases c with
  | allocLabel type region =>
      obtain ⟨⟨l, k₁⟩, halloc, hret⟩ := bind_eq_ok.mp h
      obtain ⟨rfl, rfl⟩ := Prod.mk.inj (Except.ok.inj hret)
      exact .same (difcAllocLabel_sameLabels halloc)
  | dropCapabilities buf type flag =>
      obtain ⟨n, rfl, hcall⟩ := int_eq_ok h
      exact .same (difcDropCapabilities_sameLabels hcall)
  | resumeCapabilities buf type =>
      obtain ⟨n, rfl, hcall⟩ := int_eq_ok h
      exact .same (difcResumeCapabilities_sameLabels hcall)
  | sendCapabilities pid buf type =>
      obtain ⟨n, rfl, hcall⟩ := int_eq_ok h
      exact .same (difcSendCapabilities_sameLabels hcall)
  | setTaskLabel label opType labelType bulkLabel =>
      obtain ⟨n, rfl, hcall⟩ := int_eq_ok h
      rcases difcSetTaskLabel_cases hcall with
        ⟨rfl, -⟩ | ⟨ulabel, rfl, rfl, rfl, hcheck, rfl⟩ | ⟨lbl, hop, hset, rfl⟩
      · exact .same (.refl _)
      · exact .replace hcheck
      · exact .single hop hset
  | replaceLabelTcb label =>
      obtain ⟨n, rfl, hcall⟩ := int_eq_ok h
      rcases difcReplaceLabelTcb_cases hcall with
        ⟨rfl, -⟩ | ⟨tsec, ulabel, hsec, htcb, rfl, rfl, rfl⟩
      · exact .same (.refl _)
      · exact .replaceTcb hsec htcb
  | inodeSetLabel i label =>
      simp only [performAs] at h
      split at h
      · obtain ⟨-, rfl⟩ := Prod.mk.inj (Except.ok.inj h)
        exact .same (.refl _)
      · rename_i inode hinode
        obtain ⟨n, rfl, hcall⟩ := int_eq_ok h
        rcases difcInodeSetLabel_cases hcall with
          ⟨rfl, -⟩ | ⟨ulabel, oss, rfl, hsec, -, hcheck, -, rfl, rfl⟩
        · exact .same (.refl _)
        · exact .inodeSet hinode hsec hcheck
  | createInode i dir lbl req =>
      obtain ⟨n, rfl, hcall⟩ := int_eq_ok h
      rcases createInodeFor_cases hcall with rfl | ⟨label, rfl, hlabel⟩
      · exact .same (.refl _)
      · exact .create hlabel
  | fork child thread outOfMemory =>
      obtain ⟨n, rfl, hcall⟩ := int_eq_ok h
      obtain hcall := Except.ok.inj hcall
      unfold forkTask at hcall
      split at hcall
      · obtain ⟨-, rfl⟩ := Prod.mk.inj hcall
        exact .same (.refl _)
      split at hcall
      · obtain ⟨-, rfl⟩ := Prod.mk.inj hcall
        exact .same (.refl _)
      · obtain ⟨-, rfl⟩ := Prod.mk.inj hcall
        exact .fork
  | exec i outOfMemory =>
      obtain ⟨n, rfl, hcall⟩ := int_eq_ok h
      rcases execProgram_cases hcall with rfl | ⟨inode, ok, hinode, hok, rfl⟩
      · exact .same (.refl _)
      · exact .exec hinode hok

/-! ## Invariants of all labels -/

/-- Every label of the system, of a task or of an inode, satisfies `P`. -/
structure AllLabels (P : LabelStruct → Prop) (k : Kernel) : Prop where
  task : ∀ q tsec, k.security q = some tsec → P tsec.label
  inode : ∀ i lbl, k.inodeLabel i = some lbl → P lbl

/-- The label a call takes from a user buffer. -/
def Call.userLabel : Call → Option LabelStruct
  | .setTaskLabel _ opType _ bulkLabel => if opType = labelOpReplace then bulkLabel else none
  | .replaceLabelTcb label => label
  | .inodeSetLabel _ label => label
  | .createInode _ _ label _ => label
  | _ => none

/-- What a user label has passed when it is stored: the replacement check against
a label of the system, or the `tcb` flag. -/
def Accepted (P : LabelStruct → Prop) (tsk : Task) (ulabel : LabelStruct) : Prop :=
  (∃ old, P old ∧ checkLabelReplace tsk (some old) ulabel = .ok 0) ∨
    ∃ tsec, tsk.security = some tsec ∧ tsec.tcb = true

theorem AllLabels.setLabel {P : LabelStruct → Prop} {k : Kernel} (hk : AllLabels P k)
    (p : Pid) {lbl : LabelStruct} (h : (k.security p).isSome → P lbl) :
    AllLabels P (k.setLabel p lbl) := by
  refine ⟨fun q tsec hsec => ?_, hk.inode⟩
  rw [Kernel.setLabel, Kernel.security_modifySecurity] at hsec
  split at hsec
  · rename_i hq
    subst hq
    obtain ⟨tsec', hold, rfl⟩ := Option.map_eq_some_iff.1 hsec
    exact h (by rw [hold]; rfl)
  · exact hk.task q tsec hsec

theorem AllLabels.setInode {P : LabelStruct → Prop} {k : Kernel} (hk : AllLabels P k)
    (i : Ino) {inode : Inode} (h : ∀ oss ∈ inode.iSecurity, P oss.label) :
    AllLabels P (k.setInode i inode) := by
  refine ⟨hk.task, fun j lbl hlbl => ?_⟩
  rw [Kernel.inodeLabel_setInode] at hlbl
  split at hlbl
  · obtain ⟨oss, hoss, rfl⟩ := Option.map_eq_some_iff.1 hlbl
    exact h oss hoss
  · exact hk.inode j lbl hlbl

theorem newInodeLabel_some {tsk : Task} {tsec : TaskSecurityStruct}
    {lbl : Option LabelStruct} {label : LabelStruct}
    (h : newInodeLabel tsk tsec lbl = .ok (some label)) :
    lbl = none ∧ label = tsec.label ∨
      lbl = some label ∧ checkLabelReplace tsk (some tsec.label) label = .ok 0 := by
  unfold newInodeLabel at h
  split at h
  · exact Or.inl ⟨rfl, (Option.some.inj (Except.ok.inj h)).symm⟩
  · rw [bind_eq_ok] at h
    obtain ⟨a, -, h⟩ := h
    rw [bind_eq_ok] at h
    obtain ⟨b, hb, h⟩ := h
    have h := Except.ok.inj h
    split at h
    · rename_i hzero
      obtain rfl := Option.some.inj h
      exact Or.inr ⟨rfl, hzero.2 ▸ hb⟩
    · simp at h

/-- A property of labels that the zero label has, that single changes keep and that
accepted user labels have, is kept by every call. -/
theorem AllLabels.effect {P : LabelStruct → Prop} {k k' : Kernel} {p : Pid} {tsk : Task}
    {c : Call} {ret : Ret} (hk : AllLabels P k) (htask : k.task p = some tsk)
    (heffect : Effect k p tsk c ret k') (hzero : P .zero)
    (hsingle : ∀ lbl label opType labelType n lbl', P lbl →
      difcSetLabel tsk lbl label opType labelType false = .ok (n, lbl') → P lbl')
    (huser : ∀ ulabel, c.userLabel = some ulabel → Accepted P tsk ulabel → P ulabel) :
    AllLabels P k' := by
  have hsec := security_of_task htask
  cases heffect with
  | same h =>
      refine ⟨fun q tsec' hq => ?_, fun i lbl hi => hk.inode i lbl ?_⟩
      · obtain ⟨tsec, hold, hlabel, -⟩ := h.security q tsec' hq
        exact hlabel ▸ hk.task q tsec hold
      · rw [← hi, Kernel.inodeLabel, Kernel.inodeLabel, h.inode]
  | fork =>
      refine ⟨fun q tsec hq => ?_, hk.inode⟩
      rw [Kernel.security_addTask] at hq
      split at hq
      · obtain rfl := Option.some.inj hq
        cases tsk.security <;> exact hzero
      · exact hk.task q tsec hq
  | replace hcheck =>
      refine hk.setLabel p fun hsome => huser _ rfl (Or.inl ?_)
      obtain ⟨tsec, htsec⟩ := Option.isSome_iff_exists.1 hsome
      rw [← hsec, htsec] at hcheck
      exact ⟨tsec.label, hk.task p tsec htsec, hcheck⟩
  | single _ hset =>
      refine hk.setLabel p fun hsome => ?_
      obtain ⟨tsec, htsec⟩ := Option.isSome_iff_exists.1 hsome
      rw [← hsec, htsec] at hset
      exact hsingle _ _ _ _ _ _ (hk.task p tsec htsec) hset
  | replaceTcb htsec htcb =>
      exact hk.setLabel p fun _ => huser _ rfl (Or.inr ⟨_, htsec, htcb⟩)
  | @inodeSet i inode oss ulabel hinode hoss hcheck =>
      have hold : k.inodeLabel i = some oss.label := by
        rw [Kernel.inodeLabel, hinode, Option.bind_some, hoss]
        rfl
      refine hk.setInode i ?_
      rintro _ ⟨⟩
      exact huser ulabel rfl (Or.inl ⟨_, hk.inode i _ hold, hcheck⟩)
  | create hlabel =>
      refine hk.setInode _ ?_
      rintro _ ⟨⟩
      rcases hlabel with rfl | ⟨tsec, htsec, hnew⟩
      · exact hzero
      have hold := hk.task p tsec (hsec.trans htsec)
      rcases newInodeLabel_some hnew with ⟨-, rfl⟩ | ⟨rfl, hcheck⟩
      · exact hold
      · exact huser _ rfl (Or.inl ⟨tsec.label, hold, hcheck⟩)
  | exec _ _ =>
      refine ⟨fun q tsec hq => ?_, hk.inode⟩
      rw [Kernel.setTcb, Kernel.security_modifySecurity] at hq
      split at hq
      · obtain ⟨tsec', hold, rfl⟩ := Option.map_eq_some_iff.1 hq
        exact hk.task q tsec' hold
      · exact hk.task q tsec hq

theorem allLabels_bootKernel (uid : Nat) : AllLabels (· = .zero) (bootKernel uid) := by
  refine ⟨fun q tsec hsec => ?_, fun i lbl hlbl => ?_⟩
  · rw [security_bootKernel hsec]
  · simp [Kernel.inodeLabel, bootKernel] at hlbl

end Laminar.Kernel
