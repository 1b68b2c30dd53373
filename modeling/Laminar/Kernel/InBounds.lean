import Laminar.Kernel.Labels

/-!
# Accesses stay in bounds

A call on labels whose counts fit their arrays, with a user label whose counts fit
its arrays, never indexes outside a list, a `label_struct` or a buffer.  It may
still fail to return for the other reasons: a missing security structure, a
`BUG_ON`, a semaphore.
-/

namespace Laminar.Kernel

open Laminar.Lib

/-- The faults that are accesses out of bounds. -/
def Fault.outOfBounds : Fault → Bool
  | .outOfList | .outOfStruct | .outOfBuffer => true
  | .nullDeref | .bugOn | .wouldBlock => false

/-- The computation makes no access out of bounds. -/
def InBounds {α : Type} (x : Except Fault α) : Prop :=
  ∀ e, x = .error e → e.outOfBounds = false

section Rules

variable {α β : Type}

theorem InBounds.ok (a : α) : InBounds (.ok a : Except Fault α) := by
  intro e h
  simp at h

theorem InBounds.of_eq_ok {x : Except Fault α} {a : α} (h : x = .ok a) : InBounds x :=
  h ▸ .ok a

theorem InBounds.error {e : Fault} (he : e.outOfBounds = false) :
    InBounds (.error e : Except Fault α) := by
  intro e' h
  exact Except.error.inj h ▸ he

theorem InBounds.bind {x : Except Fault α} {f : α → Except Fault β} (hx : InBounds x)
    (hf : ∀ a, x = .ok a → InBounds (f a)) : InBounds (x >>= f) := by
  cases x with
  | error e => exact fun e' h => hx e' (by rw [← Except.error.inj h])
  | ok a => exact hf a rfl

theorem InBounds.listForEachLabel {head : LabelList} (h : head.Bounded)
    {body : Nat → LabelT → Except Fault (Option α)}
    (hbody : ∀ i, ∀ l ∈ head.entries, InBounds (body i l)) :
    InBounds (listForEachLabel head body) := by
  intro e he
  rw [listForEachLabel_eq h] at he
  obtain ⟨i, l, hmem, hl⟩ := forEach_error he
  exact hbody i l hmem e hl

end Rules

theorem inBounds_deref (lbl : Option LabelStruct) : InBounds (deref lbl) := by
  cases lbl with
  | none => exact .error rfl
  | some l => exact .ok l

theorem inBounds_hasLabel {head : LabelList} (h : head.Bounded) (label : LabelT) :
    InBounds (hasLabel head label) :=
  .of_eq_ok (hasLabel_eq h label)

/-- Counts that fit, for a pointer that may be `NULL`. -/
def BoundedPtr (lbl : Option LabelStruct) : Prop := ∀ l, lbl = some l → l.Bounded

private theorem bounded_of_deref {lbl : Option LabelStruct} (h : BoundedPtr lbl)
    {l : LabelStruct} (hl : deref lbl = .ok l) : l.Bounded := by
  cases lbl with
  | none => simp [deref] at hl
  | some l' => exact Except.ok.inj hl ▸ h l' rfl

private theorem inBounds_anyLabel {head : LabelList} (h : head.Bounded)
    {body : LabelT → Except Fault Bool} (hbody : ∀ l, InBounds (body l)) :
    InBounds (anyLabel head body) :=
  .bind (.listForEachLabel h fun _ l _ => .bind (hbody l) fun _ _ => .ok _) fun _ _ => .ok _

theorem inBounds_checkAllowed {src dest : Option LabelStruct} (hs : BoundedPtr src)
    (hd : BoundedPtr dest) : InBounds (checkAllowed src dest) := by
  have hsec : InBounds (leaksSecrecy src dest) := by
    cases src with
    | none => exact .ok false
    | some s =>
        exact inBounds_anyLabel (hs s rfl).1 fun l =>
          .bind (inBounds_deref dest) fun d hd' =>
            .bind (inBounds_hasLabel (bounded_of_deref hd hd').1 l) fun _ _ => .ok _
  have hint : InBounds (lacksIntegrity src dest) := by
    cases dest with
    | none => exact .ok false
    | some d =>
        exact inBounds_anyLabel (hd d rfl).2 fun l =>
          .bind (inBounds_deref src) fun s hs' =>
            .bind (inBounds_hasLabel (bounded_of_deref hs hs').2 l) fun _ _ => .ok _
  unfold checkAllowed
  refine .bind hsec fun leaked _ => ?_
  split
  · exact .ok _
  · refine .bind hint fun tainted _ => ?_
    split <;> exact .ok _

private theorem inBounds_checkIf {cond : Bool} {check : Except Fault Int}
    (h : InBounds check) : InBounds (checkIf cond check) := by
  unfold checkIf
  split
  · exact h
  · exact .ok 0

theorem inBounds_difcInodePermission {current : Task} {isec : Option ObjectSecurityStruct}
    (ht : BoundedPtr (current.security.map TaskSecurityStruct.label))
    (hi : BoundedPtr (isec.map ObjectSecurityStruct.label)) (mask : BitVec 32) :
    InBounds (difcInodePermission current isec mask) := by
  unfold difcInodePermission
  dsimp only
  split
  · exact .ok 0
  · exact .bind (inBounds_checkIf (inBounds_checkAllowed hi ht)) fun r _ =>
      .bind (inBounds_checkIf (inBounds_checkAllowed ht hi)) fun w _ => .ok _

theorem inBounds_checkLabelReplace (tsk : Task) {old : Option LabelStruct}
    {new : LabelStruct} (ho : BoundedPtr old) (hn : new.Bounded) :
    InBounds (checkLabelReplace tsk old new) := by
  cases old with
  | some old =>
      obtain ⟨rv, h, -⟩ := checkLabelReplace_spec tsk (ho old rfl) hn
      exact .of_eq_ok h
  | none =>
      -- the first loop stops at an entry it has to look up, the second one at once
      have hadds : InBounds (checkSecAdds tsk none new) :=
        .listForEachLabel hn.1 fun _ l _ => by
          split
          · exact .ok _
          · exact .error rfl
      unfold checkLabelReplace
      refine .bind hadds fun v _ => ?_
      cases v with
      | some rv => exact .ok rv
      | none => exact .error rfl

/-! ## The hooks -/

section Hooks

variable {k : Kernel} {p : Pid} {tsk : Task}

private theorem inBounds_allocTo (cap : CapabilityT) (qs : List Pid) :
    InBounds (qs.foldlM (difcAllocLabelTo cap) k) := by
  induction qs generalizing k with
  | nil => exact .ok k
  | cons q qs ih =>
      rw [List.foldlM_cons]
      refine .bind ?_ fun _ _ => ih
      unfold difcAllocLabelTo
      split
      · exact .ok _
      · exact .error rfl

private theorem inBounds_difcSendCapabilities (hk : AllLabels LabelStruct.Bounded k)
    (ht : BoundedPtr (tsk.security.map TaskSecurityStruct.label)) (pid : Pid)
    (buf : Option (List CapabilityT)) (type : BitVec 32) :
    InBounds (difcSendCapabilities k p tsk pid buf type) := by
  unfold difcSendCapabilities
  split
  · exact .ok _
  rename_i dest hdest
  have hd : BoundedPtr (dest.security.map TaskSecurityStruct.label) := by
    intro l hl
    obtain ⟨rsec, hrsec, rfl⟩ := Option.map_eq_some_iff.1 hl
    exact hk.task pid rsec ((security_of_task hdest).trans hrsec)
  refine .bind (inBounds_checkAllowed ht hd) fun refused _ => ?_
  split
  · exact .ok _
  split
  · exact .ok _
  · exact .ok _
  · exact .error rfl

private theorem inBounds_difcSetTaskLabel
    (ht : BoundedPtr (tsk.security.map TaskSecurityStruct.label)) (label : LabelT)
    (opType labelType : Int) {bulkLabel : Option LabelStruct}
    (hu : opType = labelOpReplace → BoundedPtr bulkLabel) :
    InBounds (difcSetTaskLabel k p tsk label opType labelType bulkLabel) := by
  unfold difcSetTaskLabel
  dsimp only
  split
  · rename_i hop
    split
    · exact .ok _
    · rename_i ulabel
      refine .bind (inBounds_checkLabelReplace tsk ht (hu hop ulabel rfl)) fun rv _ => ?_
      split <;> exact .ok _
  · have hold : ((tsk.security.map TaskSecurityStruct.label).getD .zero).Bounded := by
      cases hsec : tsk.security with
      | none => decide
      | some tsec => exact ht tsec.label (by rw [hsec]; rfl)
    obtain ⟨rv, lbl, hset, -⟩ := difcSetLabel_spec tsk hold label opType labelType
    exact .bind (.of_eq_ok hset) fun _ _ => .ok _

private theorem inBounds_checkParents (hk : AllLabels LabelStruct.Bounded k)
    (ht : BoundedPtr (tsk.security.map TaskSecurityStruct.label)) (parents : List Ino) :
    InBounds (checkParents k tsk parents) := by
  induction parents with
  | nil => exact .ok 0
  | cons i rest ih =>
      rw [checkParents]
      split
      · exact .error rfl
      · rename_i parent hparent
        have hi : BoundedPtr (parent.iSecurity.map ObjectSecurityStruct.label) := by
          intro l hl
          refine hk.inode i l ?_
          rw [Kernel.inodeLabel, hparent]
          exact hl
        refine .bind (inBounds_difcInodePermission ht hi mayWrite) fun rv _ => ?_
        split
        · exact .ok rv
        · exact ih

private theorem inBounds_downWrite (readers : Nat) : InBounds (downWrite readers) := by
  unfold downWrite
  split
  · exact .error rfl
  · exact .ok ()

private theorem inBounds_difcInodeSetLabel (hk : AllLabels LabelStruct.Bounded k)
    (ht : BoundedPtr (tsk.security.map TaskSecurityStruct.label)) {i : Ino} {inode : Inode}
    (hinode : k.inode i = some inode) {newLabel : Option LabelStruct}
    (hu : BoundedPtr newLabel) : InBounds (difcInodeSetLabel k tsk i inode newLabel) := by
  unfold difcInodeSetLabel
  split
  · exact .ok _
  · exact .error rfl
  · rename_i ulabel oss hoss
    have hold : oss.label.Bounded := by
      refine hk.inode i _ ?_
      rw [Kernel.inodeLabel, hinode, Option.bind_some, hoss]
      rfl
    refine .bind (inBounds_downWrite _) fun _ _ => ?_
    refine .bind (.bind ?_ fun rv _ => ?_) fun rv _ => ?_
    · exact inBounds_checkLabelReplace tsk (fun l hl => Option.some.inj hl ▸ hold)
        (hu ulabel rfl)
    · split
      · exact inBounds_checkParents hk ht inode.aliasParents
      · exact .ok rv
    · split <;> exact .ok _

/-- The attribute of a new inode is packed into a buffer of its exact size. -/
theorem packDifcInodeXattr_returns {label : LabelStruct} (h : label.Bounded) :
    ∃ out, packDifcInodeXattr (List.replicate
      (((label.secList.countWord + label.intList.countWord).setWidth 32 + 2#32) * 8#32).toNat 0#8)
      label = .ok out := by
  have hs : label.secList.countWord.toNat = label.secList.count := rfl
  have hi : label.intList.countWord.toNat = label.intList.count := rfl
  have hsb : label.secList.count ≤ 31 := h.1
  have hib : label.intList.count ≤ 31 := h.2
  refine ⟨_, packDifcInodeXattr_eq h ?_⟩
  rw [List.length_replicate]
  simp only [BitVec.toNat_mul, BitVec.toNat_setWidth, BitVec.toNat_add,
    BitVec.toNat_ofNat, hs, hi]
  omega

private theorem inBounds_createInodeFor
    (ht : BoundedPtr (tsk.security.map TaskSecurityStruct.label)) (i dir : Ino)
    {lbl : Option LabelStruct} (hu : BoundedPtr lbl) (req : XattrRequest) :
    InBounds (createInodeFor k tsk i dir lbl req) := by
  unfold createInodeFor
  split
  · exact .ok _
  refine .bind ?_ fun _ _ => .ok _
  unfold difcInodeInitSecurity
  cases hsec : tsk.security with
  | none => exact .ok _
  | some tsec =>
      have hold : tsec.label.Bounded := ht tsec.label (by rw [hsec]; rfl)
      have hptr : BoundedPtr (some tsec.label) := fun l hl => Option.some.inj hl ▸ hold
      have hnew : InBounds (newInodeLabel tsk tsec lbl) := by
        unfold newInodeLabel
        split
        · exact .ok _
        · rename_i input
          exact .bind (inBounds_checkAllowed hptr hu) fun a _ =>
            .bind (inBounds_checkLabelReplace tsk hptr (hu input rfl)) fun b _ => .ok _
      refine .bind hnew fun accepted hacc => ?_
      cases accepted with
      | none => exact .ok _
      | some label =>
          have hb : label.Bounded := by
            rcases newInodeLabel_some hacc with ⟨-, rfl⟩ | ⟨rfl, -⟩
            · exact hold
            · exact hu label rfl
          dsimp only
          split
          · exact .ok _
          split
          · exact .ok _
          split
          · exact .ok _
          split
          · obtain ⟨_, hpack⟩ := packDifcInodeXattr_returns hb
            exact .bind (.of_eq_ok hpack) fun _ _ => .ok _
          · exact .ok _

private theorem inBounds_execProgram (hk : AllLabels LabelStruct.Bounded k) (i : Ino)
    (outOfMemory : Bool) : InBounds (execProgram k p tsk i outOfMemory) := by
  unfold execProgram
  split
  · exact .ok _
  rename_i inode hinode
  split
  · exact .ok _
  have hb : (difcBprmAllocSecurity inode.iSecurity).Bounded := by
    unfold difcBprmAllocSecurity
    cases hoss : inode.iSecurity with
    | none => decide
    | some oss =>
        refine hk.inode i oss.label ?_
        rw [Kernel.inodeLabel, hinode, Option.bind_some, hoss]
        rfl
  refine .bind (inBounds_hasLabel hb.2 labelTcb) fun ok _ => ?_
  split
  · exact .error rfl
  · exact .ok _

end Hooks

/-- On labels whose counts fit, a call whose user label fits stays in bounds. -/
theorem inBounds_perform {k : Kernel} (hk : AllLabels LabelStruct.Bounded k) (p : Pid)
    {c : Call} (hu : BoundedPtr c.userLabel) : InBounds (perform k p c) := by
  unfold perform
  cases htask : k.task p with
  | none => exact .error rfl
  | some tsk =>
  have ht : BoundedPtr (tsk.security.map TaskSecurityStruct.label) := by
    intro l hl
    obtain ⟨tsec, htsec, rfl⟩ := Option.map_eq_some_iff.1 hl
    exact hk.task p tsec ((security_of_task htask).trans htsec)
  have hint : ∀ {r : Except Fault (Int × Kernel)}, InBounds r →
      InBounds (performAs.int r) := fun hr => .bind hr fun _ _ => .ok _
  cases c with
  | allocLabel type region =>
      exact .bind (.bind (inBounds_allocTo _ _) fun _ _ => .ok _) fun _ _ => .ok _
  | dropCapabilities buf type flag =>
      refine hint ?_
      unfold difcDropCapabilities
      split
      · exact .ok _
      · exact .error rfl
      · exact .ok _
  | resumeCapabilities buf type =>
      refine hint ?_
      unfold difcResumeCapabilities
      split
      · exact .ok _
      · exact .error rfl
      · exact .ok _
  | sendCapabilities pid buf type =>
      exact hint (inBounds_difcSendCapabilities hk ht pid buf type)
  | setTaskLabel label opType labelType bulkLabel =>
      refine hint (inBounds_difcSetTaskLabel ht label opType labelType fun hop l hl => ?_)
      exact hu l ((if_pos hop).trans hl)
  | replaceLabelTcb label =>
      refine hint ?_
      unfold difcReplaceLabelTcb
      split
      · exact .error rfl
      split
      · exact .ok _
      split <;> exact .ok _
  | inodeSetLabel i label =>
      simp only [performAs]
      split
      · exact .ok _
      · rename_i inode hinode
        exact hint (inBounds_difcInodeSetLabel hk ht hinode hu)
  | createInode i dir lbl req => exact hint (inBounds_createInodeFor ht i dir hu req)
  | fork child thread outOfMemory => exact hint (.ok _)
  | exec i outOfMemory => exact hint (inBounds_execProgram hk i outOfMemory)

end Laminar.Kernel
