import Laminar.Kernel.InBounds

/-!
# Entering the trusted computing base

A program runs in the trusted computing base when the file it was loaded from has
`LABEL_TCB` in its integrity list.  The chain is: a capability for the label, the
label on the task, the label on a file the task creates, and `exec`.  The root
check stands in bulk replacement only; adding the single label needs nothing but
a PLUS capability for label 0, and such a capability can be forged: by a stored
user word, or by a counter that has run through `2 ^ 30`.

The invariant `TcbFree` cuts the chain at every link.  Calls by tasks other than
root that forge no capability for label 0 keep it.
-/

namespace Laminar.Kernel

open Laminar.Lib

/-- The counts fit and `LABEL_TCB` is in neither list. -/
def LabelStruct.NoTcb (lbl : LabelStruct) : Prop :=
  lbl.Bounded ∧ ∀ k, labelTcb ∉ (lbl.list k).entries

/-- No link of the chain is there. -/
structure TcbFree (k : Kernel) : Prop where
  labels : AllLabels LabelStruct.NoTcb k
  caps : ∀ place, ¬ k.Grants place labelTcb .plus
  flags : ∀ q tsec, k.security q = some tsec → tsec.tcb = false

/-- Calls by tasks other than root that hand the kernel no capability for label 0:
no stored word is one, the counter does not wrap to label 0, and the counts of
user labels fit. -/
def NoForgedTcb (k : Kernel) (c : Pid × Call) : Prop :=
  (∀ tsk, k.task c.1 = some tsk → tsk.uid ≠ 0) ∧ BoundedPtr c.2.userLabel ∧
    match c.2 with
    | .allocLabel _ _ => (k.curMaxCapability + 1#32).toNat % 2 ^ 30 ≠ 0
    | .dropCapabilities (some words) _ _ | .resumeCapabilities (some words) _
    | .sendCapabilities _ (some words) _ =>
        ∀ word ∈ words, labelPart word = labelTcb → carries word .plus = false
    | _ => True

section Step

variable {k k' : Kernel} {p : Pid} {c : Call} {ret : Ret}

/-- No call adds a PLUS capability for label 0. -/
theorem TcbFree.caps_step (hk : TcbFree k) (hguard : NoForgedTcb k (p, c))
    (h : perform k p c = .ok (ret, k')) (place : Place) :
    ¬ k'.Grants place labelTcb .plus := by
  have hword : ∀ {type : BitVec 32} {src : Place} {word : CapabilityT},
      (labelPart word = labelTcb → carries word .plus = false) →
      ¬ Brings type (k.listAt src) word labelTcb .plus := by
    rintro type src word hno ⟨hl, hs | ⟨-, hh⟩⟩
    · rw [hno hl] at hs
      simp at hs
    · exact hk.caps src hh
  intro hg
  rcases perform_grants h hg with hold | hsource
  · exact hk.caps place hold
  · cases hsource with
    | alloc _ _ hlabel _ =>
        refine hguard.2.2 ?_
        rw [← toNat_labelPart_newCap, ← hlabel]
        rfl
    | fork hh => exact hk.caps _ hh
    | drop hmem hb => exact hword (hguard.2.2 _ hmem) hb
    | resume hmem hb => exact hword (hguard.2.2 _ hmem) hb
    | send hmem hb => exact hword (hguard.2.2 _ hmem) hb

/-- A single change cannot add `LABEL_TCB` without a PLUS capability for it. -/
theorem difcSetLabel_noTcb {tsk : Task} {lbl lbl' : LabelStruct} {label : LabelT}
    {opType labelType n : Int} (hlbl : lbl.NoTcb)
    (hcap : permits tsk labelTcb .plus = false)
    (h : difcSetLabel tsk lbl label opType labelType false = .ok (n, lbl')) :
    lbl'.NoTcb := by
  obtain ⟨rv, out, hrun, hcase⟩ := difcSetLabel_spec tsk hlbl.1 label opType labelType
  rw [hrun] at h
  obtain ⟨rfl, rfl⟩ := Prod.mk.inj (Except.ok.inj h)
  rcases hcase with ⟨-, rfl⟩ | ⟨-, kind, hchanged⟩
  · exact hlbl
  refine ⟨hchanged.bounded_all hlbl.1, fun kind' hmem => ?_⟩
  by_cases hk : kind' = kind
  · subst hk
    rcases hchanged.entries with ⟨-, hperm, -, hent⟩ | ⟨-, -, -, hent⟩
    · rw [hent, List.mem_append, List.mem_singleton] at hmem
      rcases hmem with hmem | rfl
      · exact hlbl.2 kind' hmem
      · rw [hcap] at hperm
        simp at hperm
    · rw [hent] at hmem
      exact hlbl.2 kind' (List.mem_of_mem_erase hmem)
  · rw [hchanged.frame kind' hk] at hmem
    exact hlbl.2 kind' hmem

/-- Bulk replacement by a task other than root never brings `LABEL_TCB`. -/
theorem noTcb_of_checkLabelReplace {tsk : Task} (huid : tsk.uid ≠ 0)
    {old new : LabelStruct} (ho : old.Bounded) (hn : new.Bounded)
    (h : checkLabelReplace tsk (some old) new = .ok 0) : new.NoTcb := by
  obtain ⟨rv, hrun, hiff⟩ := checkLabelReplace_spec tsk ho hn
  rw [hrun] at h
  have hallowed := hiff.1 (Except.ok.inj h)
  refine ⟨hn, ?_⟩
  rintro (_ | _) hmem
  · exact huid ((hallowed.secAdds _ hmem).1 rfl)
  · exact huid (hallowed.tcbAdd hmem)

theorem noTcb_zero : LabelStruct.zero.NoTcb :=
  ⟨by decide, by rintro (_ | _) <;> decide⟩

theorem TcbFree.labels_step (hk : TcbFree k) (hguard : NoForgedTcb k (p, c))
    {tsk : Task} (htask : k.task p = some tsk) (heffect : Effect k p tsk c ret k') :
    AllLabels LabelStruct.NoTcb k' := by
  have hsec := security_of_task htask
  have huid := hguard.1 tsk htask
  have hcap : permits tsk labelTcb .plus = false := by
    refine Bool.eq_false_iff.2 fun hperm => ?_
    obtain ⟨tsec, htsec, hholds⟩ := permits_holds hperm
    refine hk.caps (.capList p) ?_
    rw [Kernel.Grants, listAt_capList (hsec.trans htsec)]
    exact hholds
  refine hk.labels.effect htask heffect noTcb_zero
    (fun _ _ _ _ _ _ hlbl hset => difcSetLabel_noTcb hlbl hcap hset) ?_
  rintro ulabel hu (⟨old, hold, hcheck⟩ | ⟨tsec, htsec, htcb⟩)
  · exact noTcb_of_checkLabelReplace huid hold.1 (hguard.2.1 ulabel hu) hcheck
  · rw [hk.flags p tsec (hsec.trans htsec)] at htcb
    simp at htcb

theorem TcbFree.flags_step (hk : TcbFree k) {tsk : Task} (htask : k.task p = some tsk)
    (heffect : Effect k p tsk c ret k') (q : Pid) (tsec : TaskSecurityStruct)
    (hq : k'.security q = some tsec) : tsec.tcb = false := by
  have hsec := security_of_task htask
  have hlabel : ∀ lbl, (k.setLabel p lbl).security q = some tsec → tsec.tcb = false := by
    intro lbl hset
    rw [Kernel.setLabel, Kernel.security_modifySecurity] at hset
    split at hset
    · obtain ⟨old, hold, rfl⟩ := Option.map_eq_some_iff.1 hset
      exact hk.flags q old hold
    · exact hk.flags q tsec hset
  cases heffect with
  | same h =>
      obtain ⟨old, hold, -, htcb⟩ := h.security q tsec hq
      exact htcb.trans (hk.flags q old hold)
  | fork =>
      rw [Kernel.security_addTask] at hq
      split at hq
      · obtain rfl := Option.some.inj hq
        cases htsec : tsk.security with
        | none => rfl
        | some parent => exact hk.flags p parent (hsec.trans htsec)
      · exact hk.flags q tsec hq
  | replace _ => exact hlabel _ hq
  | single _ _ => exact hlabel _ hq
  | replaceTcb _ _ => exact hlabel _ hq
  | inodeSet _ _ _ => exact hk.flags q tsec hq
  | create _ => exact hk.flags q tsec hq
  | @exec i _ ok _ inode hinode hok =>
      rw [Kernel.setTcb, Kernel.security_modifySecurity] at hq
      split at hq
      · obtain ⟨old, -, rfl⟩ := Option.map_eq_some_iff.1 hq
        have hprog : (difcBprmAllocSecurity inode.iSecurity).NoTcb := by
          unfold difcBprmAllocSecurity
          cases hoss : inode.iSecurity with
          | none => exact noTcb_zero
          | some oss =>
              refine hk.labels.inode i oss.label ?_
              rw [Kernel.inodeLabel, hinode, Option.bind_some, hoss]
              rfl
        rw [hasLabel_eq hprog.1.2] at hok
        exact (Except.ok.inj hok).symm.trans (decide_eq_false (hprog.2 .int))
      · exact hk.flags q tsec hq

end Step

/-- In every run by tasks other than root that forges no capability for label 0,
no task is ever in the trusted computing base and `difc_replace_label_tcb` succeeds
for none. -/
theorem no_tcb_of_noForgedTcb (k₀ : Kernel) (hlabels : AllLabels LabelStruct.NoTcb k₀)
    (hcaps : ∀ place, ∀ cap ∈ (k₀.listAt place).caps, labelPart cap ≠ labelTcb)
    (hflags : ∀ q tsec, k₀.security q = some tsec → tsec.tcb = false)
    (calls : List (Pid × Call)) (k : Kernel)
    (hrun : Run Kernel.step NoForgedTcb k₀ calls k) :
    (∀ q tsec, k.security q = some tsec → tsec.tcb = false) ∧
      ∀ p label k', perform k p (.replaceLabelTcb label) ≠ .ok (.rv 0, k') := by
  have hinit : TcbFree k₀ :=
    ⟨hlabels, fun place ⟨cap, hmem, hl, _⟩ => hcaps place cap hmem hl, hflags⟩
  have hfree : TcbFree k := by
    refine Run.invariant hinit (fun k c k' hk hguard hstep => ?_) hrun
    obtain ⟨ret, hperform⟩ := Kernel.step_eq_some hstep
    obtain ⟨tsk, htask, heffect⟩ := perform_effect hperform
    exact ⟨hk.labels_step hguard htask heffect, hk.caps_step hguard hperform,
      hk.flags_step htask heffect⟩
  refine ⟨hfree.flags, fun p label k' h => ?_⟩
  obtain ⟨tsk, htask, h⟩ := perform_eq_ok h
  obtain ⟨n, hn, hcall⟩ := int_eq_ok h
  obtain rfl := Ret.rv.inj hn
  rcases difcReplaceLabelTcb_cases hcall with ⟨-, hne⟩ | ⟨tsec, _, htsec, htcb, -⟩
  · exact hne rfl
  · rw [hfree.flags p tsec ((security_of_task htask).trans htsec)] at htcb
    simp at htcb

/-- Task 1 of the user 1000 is not root. -/
private theorem uid_ne_zero {k : Kernel} {tsk : Task} (htask : k.task 1 = some tsk)
    (huser : (k.task 1).map Task.uid = some 1000) : tsk.uid ≠ 0 := by
  rw [htask, Option.map_some, Option.some.injEq] at huser
  omega

/-- A user allocates label 2, puts it on itself as an integrity label, creates a
file and runs it: the file is labeled 2 and the task is not trusted. -/
theorem exec_own_label_not_tcb :
    ∃ calls k, Run Kernel.step NoForgedTcb (bootKernel 1000) calls k ∧
      (k.inodeLabel 10).map (fun lbl => lbl.intList.entries) = some [2#64] ∧
      ∀ q tsec, k.security q = some tsec → tsec.tcb = false := by
  have hno : ∀ c : Call, c.userLabel = none → BoundedPtr c.userLabel := by
    intro c hc l hl
    rw [hc] at hl
    simp at hl
  have hrun : Run Kernel.step NoForgedTcb (bootKernel 1000)
      ([] ++ [(1, .allocLabel capPlusMask regionSelf)] ++
        [(1, .setTaskLabel 2#64 labelOpAdd 1 none)] ++
        [(1, .createInode 10 0 none ⟨false, true, false, true⟩)] ++
        [(1, .exec 10 false)]) _ :=
    .snoc (.snoc (.snoc (.snoc .nil
      ⟨fun _ h => uid_ne_zero h rfl, hno _ rfl, by decide⟩ rfl)
      ⟨fun _ h => uid_ne_zero h rfl, hno _ rfl, trivial⟩ rfl)
      ⟨fun _ h => uid_ne_zero h rfl, hno _ rfl, trivial⟩ rfl)
      ⟨fun _ h => uid_ne_zero h rfl, hno _ rfl, trivial⟩ rfl
  have hboot := allLabels_bootKernel 1000
  refine ⟨_, _, hrun, rfl, (no_tcb_of_noForgedTcb _ ⟨?_, ?_⟩ ?_ ?_ _ _ hrun).1⟩
  · exact fun q tsec h => hboot.task q tsec h ▸ noTcb_zero
  · exact fun i lbl h => hboot.inode i lbl h ▸ noTcb_zero
  · intro place cap hmem
    rw [listAt_bootKernel] at hmem
    simp [CapList.caps] at hmem
  · exact fun q tsec h => by rw [security_bootKernel h]

/-- A user resumes the word `CAP_PLUS_MASK`, a PLUS capability for label 0, adds
`LABEL_TCB` to its integrity label, creates a file and runs it.  The task is
trusted and may replace its label at will. -/
theorem user_enters_tcb :
    ∃ calls k k', Run Kernel.step
        (fun k c => ∀ tsk, k.task c.1 = some tsk → tsk.uid ≠ 0) (bootKernel 1000) calls k ∧
      (k.security 1).map TaskSecurityStruct.tcb = some true ∧
      perform k 1 (.replaceLabelTcb (some .zero)) = .ok (.rv 0, k') := by
  refine ⟨[] ++ [(1, .resumeCapabilities (some [Sign.plus.wide]) 0#32)] ++
    [(1, .setTaskLabel labelTcb labelOpAdd 1 none)] ++
    [(1, .createInode 10 0 none ⟨false, true, false, true⟩)] ++ [(1, .exec 10 false)], _, _,
    .snoc (.snoc (.snoc (.snoc .nil (fun _ h => uid_ne_zero h rfl) rfl)
      (fun _ h => uid_ne_zero h rfl) rfl) (fun _ h => uid_ne_zero h rfl) rfl)
      (fun _ h => uid_ne_zero h rfl) rfl, rfl, rfl⟩

end Laminar.Kernel
