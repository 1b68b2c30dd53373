import Laminar.Kernel.System

/-!
# Where rights come from

A right is a label and a sign.  The state grants it at a place, one of the two
capability lists of a task.  `perform_grants` is the inversion lemma of the
kernel for rights: whatever a call adds to any list of any task has one of the
five sources of `Source`.  Every invariant about capabilities follows from it.
-/

namespace Laminar.Kernel

open Laminar.Lib

/-- One of the two capability lists of a task. -/
inductive Place
  | capList (p : Pid)
  | capSuspendList (p : Pid)
  deriving DecidableEq

/-- The list at a place; a task without a security structure has none. -/
def Kernel.listAt (k : Kernel) : Place → CapList
  | .capList p => ((k.security p).map TaskSecurityStruct.capList).getD []
  | .capSuspendList p => ((k.security p).map TaskSecurityStruct.capSuspendList).getD []

/-- The right is granted at the place. -/
def Kernel.Grants (k : Kernel) (place : Place) (label : LabelT) (s : Sign) : Prop :=
  Holds (k.listAt place) label s

/-- How a call of task `p` in state `k` can add a right to a list. -/
inductive Source (k : Kernel) (p : Pid) :
    Call → Ret → Place → LabelT → Sign → Prop
  | alloc {type : BitVec 32} {region : Int} {tsk : Task} {q : Pid} {label : LabelT}
      {s : Sign} :
      k.task p = some tsk → q ∈ k.recipients p tsk region →
      label = labelPart (newCap (k.curMaxCapability + 1#32) type) →
      carries (newCap (k.curMaxCapability + 1#32) type) s = true →
      Source k p (.allocLabel type region) (.label label) (.capList q) label s
  | fork {child : Pid} {thread : Bool} {label : LabelT} {s : Sign} :
      k.Grants (.capList p) label s →
      Source k p (.fork child thread false) (.rv 0) (.capList child) label s
  | drop {words : List CapabilityT} {type : BitVec 32} {n : Int} {word : CapabilityT}
      {label : LabelT} {s : Sign} :
      word ∈ words → Brings type (k.listAt (.capList p)) word label s →
      Source k p (.dropCapabilities (some words) type capOpFlagTemporary) (.rv n)
        (.capSuspendList p) label s
  | resume {words : List CapabilityT} {type : BitVec 32} {n : Int} {word : CapabilityT}
      {label : LabelT} {s : Sign} :
      word ∈ words → Brings type (k.listAt (.capSuspendList p)) word label s →
      Source k p (.resumeCapabilities (some words) type) (.rv n) (.capList p) label s
  | send {pid : Pid} {words : List CapabilityT} {type : BitVec 32} {n : Int}
      {word : CapabilityT} {label : LabelT} {s : Sign} :
      word ∈ words → Brings type (k.listAt (.capList p)) word label s →
      Source k p (.sendCapabilities pid (some words) type) (.rv n) (.capSuspendList pid)
        label s

/-! ## Frames -/

/-- Writes that leave both lists of a security structure alone leave every list
of the system alone. -/
theorem listAt_modifySecurity_frame (k : Kernel) (p : Pid)
    {f : TaskSecurityStruct → TaskSecurityStruct}
    (hcap : ∀ tsec, (f tsec).capList = tsec.capList)
    (hsusp : ∀ tsec, (f tsec).capSuspendList = tsec.capSuspendList) (place : Place) :
    (k.modifySecurity p f).listAt place = k.listAt place := by
  cases place with
  | capList q =>
      simp only [Kernel.listAt, Kernel.security_modifySecurity]
      split
      · cases k.security q <;> simp [hcap]
      · rfl
  | capSuspendList q =>
      simp only [Kernel.listAt, Kernel.security_modifySecurity]
      split
      · cases k.security q <;> simp [hsusp]
      · rfl

theorem listAt_setLabel (k : Kernel) (p : Pid) (lbl : LabelStruct) (place : Place) :
    (k.setLabel p lbl).listAt place = k.listAt place := by
  unfold Kernel.setLabel
  exact listAt_modifySecurity_frame k p (by intro; rfl) (by intro; rfl) place

theorem listAt_setTcb (k : Kernel) (p : Pid) (tcb : Bool) (place : Place) :
    (k.setTcb p tcb).listAt place = k.listAt place := by
  unfold Kernel.setTcb
  exact listAt_modifySecurity_frame k p (by intro; rfl) (by intro; rfl) place

theorem listAt_setInode (k : Kernel) (i : Ino) (n : Inode) (place : Place) :
    (k.setInode i n).listAt place = k.listAt place := by
  cases place <;> rfl

theorem grants_frame {k k' : Kernel} (h : ∀ place, k'.listAt place = k.listAt place)
    {place : Place} {label : LabelT} {s : Sign} (hg : k'.Grants place label s) :
    k.Grants place label s := by
  rw [Kernel.Grants, h] at hg
  exact hg

/-- A right granted after a write to one security structure was granted before,
or it is in one of the two lists written. -/
theorem grants_modifySecurity {k : Kernel} {p : Pid}
    {f : TaskSecurityStruct → TaskSecurityStruct} {place : Place} {label : LabelT}
    {s : Sign} (h : (k.modifySecurity p f).Grants place label s) :
    k.Grants place label s ∨ ∃ tsec, k.security p = some tsec ∧
      (place = .capList p ∧ Holds (f tsec).capList label s ∨
        place = .capSuspendList p ∧ Holds (f tsec).capSuspendList label s) := by
  unfold Kernel.Grants at h ⊢
  cases place with
  | capList q =>
      simp only [Kernel.listAt, Kernel.security_modifySecurity] at h ⊢
      split at h
      · rename_i hq
        subst hq
        cases hsec : k.security q with
        | none => exact absurd (by simpa [hsec] using h) (not_holds_nil label s)
        | some tsec => exact Or.inr ⟨tsec, rfl, Or.inl ⟨rfl, by simpa [hsec] using h⟩⟩
      · exact Or.inl h
  | capSuspendList q =>
      simp only [Kernel.listAt, Kernel.security_modifySecurity] at h ⊢
      split at h
      · rename_i hq
        subst hq
        cases hsec : k.security q with
        | none => exact absurd (by simpa [hsec] using h) (not_holds_nil label s)
        | some tsec => exact Or.inr ⟨tsec, rfl, Or.inr ⟨rfl, by simpa [hsec] using h⟩⟩
      · exact Or.inl h

theorem listAt_capList {k : Kernel} {p : Pid} {tsec : TaskSecurityStruct}
    (h : k.security p = some tsec) : k.listAt (.capList p) = tsec.capList := by
  simp [Kernel.listAt, h]

theorem listAt_capSuspendList {k : Kernel} {p : Pid} {tsec : TaskSecurityStruct}
    (h : k.security p = some tsec) :
    k.listAt (.capSuspendList p) = tsec.capSuspendList := by
  simp [Kernel.listAt, h]

theorem security_of_task {k : Kernel} {p : Pid} {tsk : Task} (h : k.task p = some tsk) :
    k.security p = tsk.security := by
  simp [Kernel.security, h]

theorem listAt_bootKernel (uid : Nat) (place : Place) :
    (bootKernel uid).listAt place = [] := by
  cases place with
  | capList p =>
      cases hsec : (bootKernel uid).security p with
      | none => simp [Kernel.listAt, hsec]
      | some tsec => rw [listAt_capList hsec, security_bootKernel hsec]
  | capSuspendList p =>
      cases hsec : (bootKernel uid).security p with
      | none => simp [Kernel.listAt, hsec]
      | some tsec => rw [listAt_capSuspendList hsec, security_bootKernel hsec]

/-! ## The hooks that change a capability list -/

section Hooks

variable {k k' : Kernel} {p : Pid} {tsk : Task} {n : Int} {place : Place}
  {label : LabelT} {s : Sign}

/-- Handing one capability to a list of tasks. -/
theorem allocTo_grants {cap : CapabilityT} {qs : List Pid}
    (h : qs.foldlM (difcAllocLabelTo cap) k = .ok k')
    (hg : k'.Grants place label s) :
    k.Grants place label s ∨
      ∃ q ∈ qs, place = .capList q ∧ labelPart cap = label ∧ carries cap s = true := by
  refine foldlM_invariant (P := fun k₁ => k₁.Grants place label s → k.Grants place label s ∨
    ∃ q ∈ qs, place = .capList q ∧ labelPart cap = label ∧ carries cap s = true) ?_ Or.inl h hg
  intro k₁ q hq k₂ ih hone hg₂
  unfold difcAllocLabelTo at hone
  split at hone
  · obtain rfl := Except.ok.inj hone
    rcases grants_modifySecurity hg₂ with hg₁ | ⟨tsec, hsec, hnew⟩
    · exact ih hg₁
    · rcases hnew with ⟨hpl, hh⟩ | ⟨hpl, hh⟩
      · rcases holds_pushCap.mp hh with hh | hcap
        · apply ih
          rw [hpl, Kernel.Grants, listAt_capList hsec]
          exact hh
        · exact Or.inr ⟨q, hq, hpl, hcap⟩
      · apply ih
        rw [hpl, Kernel.Grants, listAt_capSuspendList hsec]
        exact hh
  · simp at hone

theorem difcAllocLabel_grants {type : BitVec 32} {region : Int} {l : LabelT}
    (htask : k.task p = some tsk)
    (h : difcAllocLabel k p tsk type region = .ok (l, k'))
    (hg : k'.Grants place label s) :
    k.Grants place label s ∨
      Source k p (.allocLabel type region) (.label l) place label s := by
  unfold difcAllocLabel at h
  obtain ⟨k₁, hfold, hret⟩ := bind_eq_ok.mp h
  obtain ⟨rfl, rfl⟩ := Prod.mk.inj (Except.ok.inj hret)
  rcases allocTo_grants hfold hg with hg | ⟨q, hq, rfl, rfl, hs⟩
  · exact Or.inl hg
  · exact Or.inr (.alloc htask hq rfl hs)

theorem difcDropCapabilities_grants {buf : Option (List CapabilityT)} {type : BitVec 32}
    {flag : Int} (htask : k.task p = some tsk)
    (h : difcDropCapabilities k p tsk buf type flag = .ok (n, k'))
    (hg : k'.Grants place label s) :
    k.Grants place label s ∨
      Source k p (.dropCapabilities buf type flag) (.rv n) place label s := by
  rcases difcDropCapabilities_eq_ok h with rfl | ⟨words, tsec, rfl, hsec, rfl⟩
  · exact Or.inl hg
  · rw [← security_of_task htask] at hsec
    obtain ⟨hsrc, hdst⟩ := moveWords_spec type (flag = capOpFlagTemporary) words
      tsec.capList tsec.capSuspendList 0 label s
    rcases grants_modifySecurity hg with hg | ⟨tsec', hsec', hnew⟩
    · exact Or.inl hg
    obtain rfl : tsec = tsec' := Option.some.inj (hsec.symm.trans hsec')
    rcases hnew with ⟨rfl, hh⟩ | ⟨rfl, hh⟩
    · left
      rw [Kernel.Grants, listAt_capList hsec]
      exact hsrc hh
    · rw [Kernel.Grants, listAt_capSuspendList hsec]
      refine (hdst hh).imp_right fun ⟨hflag, word, hmem, hb⟩ => ?_
      obtain rfl := of_decide_eq_true hflag
      rw [← listAt_capList hsec] at hb
      exact .drop hmem hb

theorem difcResumeCapabilities_grants {buf : Option (List CapabilityT)}
    {type : BitVec 32} (htask : k.task p = some tsk)
    (h : difcResumeCapabilities k p tsk buf type = .ok (n, k'))
    (hg : k'.Grants place label s) :
    k.Grants place label s ∨
      Source k p (.resumeCapabilities buf type) (.rv n) place label s := by
  rcases difcResumeCapabilities_eq_ok h with rfl | ⟨words, tsec, rfl, hsec, rfl⟩
  · exact Or.inl hg
  · rw [← security_of_task htask] at hsec
    obtain ⟨hsrc, hdst⟩ := moveWords_spec type true words tsec.capSuspendList
      tsec.capList 0 label s
    rcases grants_modifySecurity hg with hg | ⟨tsec', hsec', hnew⟩
    · exact Or.inl hg
    obtain rfl : tsec = tsec' := Option.some.inj (hsec.symm.trans hsec')
    rcases hnew with ⟨rfl, hh⟩ | ⟨rfl, hh⟩
    · rw [Kernel.Grants, listAt_capList hsec]
      refine (hdst hh).imp_right fun ⟨_, word, hmem, hb⟩ => ?_
      rw [← listAt_capSuspendList hsec] at hb
      exact .resume hmem hb
    · left
      rw [Kernel.Grants, listAt_capSuspendList hsec]
      exact hsrc hh

/-- The sender's list is written first; when a task sends to itself the second
write goes to the other list of the same structure. -/
theorem difcSendCapabilities_grants {pid : Pid} {buf : Option (List CapabilityT)}
    {type : BitVec 32} (htask : k.task p = some tsk)
    (h : difcSendCapabilities k p tsk pid buf type = .ok (n, k'))
    (hg : k'.Grants place label s) :
    k.Grants place label s ∨
      Source k p (.sendCapabilities pid buf type) (.rv n) place label s := by
  rcases difcSendCapabilities_eq_ok h with
    rfl | ⟨dest, words, tsec, rsec, hdest, rfl, hsec, hrsec, rfl⟩
  · exact Or.inl hg
  · rw [← security_of_task htask] at hsec
    rw [← security_of_task hdest] at hrsec
    obtain ⟨hsrc, hdst⟩ := moveWords_spec type true words tsec.capList
      rsec.capSuspendList 0 label s
    have hsender : ∀ pl, (k.modifySecurity p fun t => { t with
        capList := (moveWords type true words tsec.capList rsec.capSuspendList 0).1 }).Grants
          pl label s → k.Grants pl label s := by
      intro pl hpl
      rcases grants_modifySecurity hpl with hpl | ⟨tsec', hsec', hnew⟩
      · exact hpl
      obtain rfl : tsec = tsec' := Option.some.inj (hsec.symm.trans hsec')
      rcases hnew with ⟨rfl, hh⟩ | ⟨rfl, hh⟩
      · rw [Kernel.Grants, listAt_capList hsec]
        exact hsrc hh
      · rw [Kernel.Grants, listAt_capSuspendList hsec]
        exact hh
    rcases grants_modifySecurity hg with hg | ⟨rsec', hrsec', hnew⟩
    · exact Or.inl (hsender place hg)
    rcases hnew with ⟨rfl, hh⟩ | ⟨rfl, hh⟩
    · left
      apply hsender
      rw [Kernel.Grants, listAt_capList hrsec']
      exact hh
    · rw [Kernel.Grants, listAt_capSuspendList hrsec]
      refine (hdst hh).imp_right fun ⟨_, word, hmem, hb⟩ => ?_
      rw [← listAt_capList hsec] at hb
      exact .send hmem hb

theorem forkTask_grants {child : Pid} {thread outOfMemory : Bool}
    (htask : k.task p = some tsk)
    (h : forkTask k tsk child thread outOfMemory = (n, k'))
    (hg : k'.Grants place label s) :
    k.Grants place label s ∨
      Source k p (.fork child thread outOfMemory) (.rv n) place label s := by
  unfold forkTask at h
  split at h
  · obtain ⟨-, rfl⟩ := Prod.mk.inj h
    exact Or.inl hg
  rename_i hmem
  split at h
  · obtain ⟨-, rfl⟩ := Prod.mk.inj h
    exact Or.inl hg
  obtain ⟨rfl, rfl⟩ := Prod.mk.inj h
  obtain rfl : outOfMemory = false := by simpa using hmem
  have hparent := security_of_task htask
  unfold Kernel.Grants at hg ⊢
  cases place with
  | capList q =>
      simp only [Kernel.listAt, Kernel.security_addTask] at hg ⊢
      split at hg
      · rename_i hq
        subst hq
        right
        apply Source.fork
        cases hsec : tsk.security with
        | none =>
            exact absurd (by simpa [hsec, difcTaskAllocSecurity] using hg)
              (not_holds_nil label s)
        | some tsec =>
            rw [Kernel.Grants, listAt_capList (hparent.trans hsec)]
            simpa [hsec, difcTaskAllocSecurity] using hg
      · exact Or.inl hg
  | capSuspendList q =>
      simp only [Kernel.listAt, Kernel.security_addTask] at hg ⊢
      split at hg
      · refine absurd ?_ (not_holds_nil label s)
        cases hsec : tsk.security <;> simpa [hsec, difcTaskAllocSecurity] using hg
      · exact Or.inl hg

end Hooks

/-! ## The inversion lemma -/

/-- Whatever a call adds to a capability list of any task has a `Source`. -/
theorem perform_grants {k k' : Kernel} {p : Pid} {c : Call} {ret : Ret}
    (h : perform k p c = .ok (ret, k')) {place : Place} {label : LabelT} {s : Sign}
    (hg : k'.Grants place label s) :
    k.Grants place label s ∨ Source k p c ret place label s := by
  obtain ⟨tsk, htask, h⟩ := perform_eq_ok h
  cases c with
  | allocLabel type region =>
      obtain ⟨⟨l, k₁⟩, halloc, hret⟩ := bind_eq_ok.mp h
      obtain ⟨rfl, rfl⟩ := Prod.mk.inj (Except.ok.inj hret)
      exact difcAllocLabel_grants htask halloc hg
  | dropCapabilities buf type flag =>
      obtain ⟨n, rfl, hcall⟩ := int_eq_ok h
      exact difcDropCapabilities_grants htask hcall hg
  | resumeCapabilities buf type =>
      obtain ⟨n, rfl, hcall⟩ := int_eq_ok h
      exact difcResumeCapabilities_grants htask hcall hg
  | sendCapabilities pid buf type =>
      obtain ⟨n, rfl, hcall⟩ := int_eq_ok h
      exact difcSendCapabilities_grants htask hcall hg
  | fork child thread outOfMemory =>
      obtain ⟨n, rfl, hcall⟩ := int_eq_ok h
      exact forkTask_grants htask (Except.ok.inj hcall) hg
  | setTaskLabel label opType labelType bulkLabel =>
      obtain ⟨n, rfl, hcall⟩ := int_eq_ok h
      rcases difcSetTaskLabel_cases hcall with ⟨rfl, -⟩ | ⟨_, -, -, -, -, rfl⟩ | ⟨_, -, -, rfl⟩
      · exact Or.inl hg
      · exact Or.inl (grants_frame (listAt_setLabel k p _) hg)
      · exact Or.inl (grants_frame (listAt_setLabel k p _) hg)
  | replaceLabelTcb label =>
      obtain ⟨n, rfl, hcall⟩ := int_eq_ok h
      rcases difcReplaceLabelTcb_cases hcall with ⟨rfl, -⟩ | ⟨_, _, -, -, -, -, rfl⟩
      · exact Or.inl hg
      · exact Or.inl (grants_frame (listAt_setLabel k p _) hg)
  | inodeSetLabel i label =>
      simp only [performAs] at h
      split at h
      · obtain ⟨-, rfl⟩ := Prod.mk.inj (Except.ok.inj h)
        exact Or.inl hg
      · obtain ⟨n, rfl, hcall⟩ := int_eq_ok h
        rcases difcInodeSetLabel_cases hcall with ⟨rfl, -⟩ | ⟨_, _, -, -, -, -, -, -, rfl⟩
        · exact Or.inl hg
        · exact Or.inl (grants_frame (listAt_setInode k i _) hg)
  | createInode i dir lbl req =>
      obtain ⟨n, rfl, hcall⟩ := int_eq_ok h
      rcases createInodeFor_cases hcall with rfl | ⟨_, rfl, -⟩
      · exact Or.inl hg
      · exact Or.inl (grants_frame (listAt_setInode k i _) hg)
  | exec i outOfMemory =>
      obtain ⟨n, rfl, hcall⟩ := int_eq_ok h
      rcases execProgram_cases hcall with rfl | ⟨_, _, -, -, rfl⟩
      · exact Or.inl hg
      · exact Or.inl (grants_frame (listAt_setTcb k p _) hg)

end Laminar.Kernel
