import Laminar.Kernel.Groups
import Laminar.Kernel.Rights
import Laminar.Kernel.WellFormed

/-!
# Does every capability authorise?

`__difc_set_label` asks `task_find_capability` for the task's capability for a label.  It gets
the first entry with the label, and looks for the sign in that entry only.  A list can have
several entries for one label: a capability that is resumed becomes an entry of its own, with the
signs that were asked for.  A right that only a later entry carries is not seen.

New entries go to the first segment with room.  Where an earlier segment has lost an entry, a
resumed capability can come to stand in front of the entry that was found before.
-/

namespace Laminar.Kernel

open Laminar.Lib

/-- The change of `label` in `lbl` that needs the sign `s` is refused with `-EPERM`. -/
def Refuses (tsk : Task) (lbl : LabelStruct) (label : LabelT) (s : Sign) (labelType : Int)
    (checkOnly : Bool) : Prop :=
  ∃ lbl', difcSetLabel tsk lbl label s.opType labelType checkOnly = .ok (-ePerm, lbl')

/-- The first entry for `label` carries `s`, or no other does. -/
def FirstDecides (list : CapList) (label : LabelT) (s : Sign) : Prop :=
  ∀ cap rest, (list.caps.filter fun cap => label == labelPart cap) = cap :: rest →
    carries cap s = true ∨ ∀ other ∈ rest, carries other s = false

/-! ## What is refused -/

private theorem addLabel_ne_ePerm {lbl lbl' : LabelStruct} (hb : lbl.Bounded) (label : LabelT)
    (labelType : Int) : addLabel lbl label labelType ≠ .ok (-ePerm, lbl') := by
  rw [addLabel]
  cases listOfType labelType with
  | none => exact fun h => absurd (Prod.mk.inj (Except.ok.inj h)).1 (by decide)
  | some k =>
      obtain ⟨rv, list, hrun, hcase⟩ := addToList_spec (LabelStruct.bounded_iff.1 hb k) label
      have hrv : rv ≠ -ePerm := by
        rcases hcase with ⟨-, rfl, -⟩ | ⟨-, -, rfl, -⟩ | ⟨-, rfl, -⟩ <;> decide
      simp only [hrun]
      exact fun h => hrv (Prod.mk.inj (Except.ok.inj h)).1

private theorem removeLabel_ne_ePerm {lbl lbl' : LabelStruct} (hb : lbl.Bounded) (label : LabelT)
    (labelType : Int) : removeLabel lbl label labelType ≠ .ok (-ePerm, lbl') := by
  rw [removeLabel]
  cases listOfType labelType with
  | none => exact fun h => absurd (Prod.mk.inj (Except.ok.inj h)).1 (by decide)
  | some k =>
      obtain ⟨rv, list, hrun, hcase⟩ := removeFromList_spec (LabelStruct.bounded_iff.1 hb k) label
      have hrv : rv ≠ -ePerm := by
        rcases hcase with ⟨-, rfl, -⟩ | ⟨-, rfl, -⟩ <;> decide
      simp only [hrun]
      exact fun h => hrv (Prod.mk.inj (Except.ok.inj h)).1

section Refuses

variable {tsk : Task} {tsec : TaskSecurityStruct} {lbl : LabelStruct} {label : LabelT} {s : Sign}
  {labelType : Int} {checkOnly : Bool}

/-- The sign is looked for in one entry. -/
theorem refuses_iff (hsec : tsk.security = some tsec) (hb : lbl.Bounded) :
    Refuses tsk lbl label s labelType checkOnly ↔
      carries (taskFindCapability tsec.capList label) s = false := by
  have hrun : difcSetLabel tsk lbl label s.opType labelType checkOnly =
      if carries (taskFindCapability tsec.capList label) s then
        if checkOnly then .ok (0, lbl)
        else if s = .plus then addLabel lbl label labelType
        else removeLabel lbl label labelType
      else .ok (-ePerm, lbl) := by
    rw [difcSetLabel, hsec]
    dsimp only
    by_cases hcap : taskFindCapability tsec.capList label = 0#64
    · rw [hcap, if_pos rfl]
      cases s <;> rfl
    · rw [if_neg hcap]
      cases s <;> rfl
  rw [Refuses, hrun]
  cases carries (taskFindCapability tsec.capList label) s with
  | false => exact iff_of_true ⟨lbl, rfl⟩ rfl
  | true =>
      refine iff_of_false ?_ (Ne.symm Bool.false_ne_true)
      rintro ⟨lbl', h⟩
      cases checkOnly with
      | true => exact absurd (Prod.mk.inj (Except.ok.inj h)).1 (by decide)
      | false =>
          -- a change that the capability allows may fail, but not like this
          cases s with
          | plus => exact addLabel_ne_ePerm hb label labelType h
          | minus => exact removeLabel_ne_ePerm hb label labelType h

/-- The first entry decides for all of them exactly if it has the sign that any has. -/
theorem firstDecides_iff {list : CapList} :
    FirstDecides list label s ↔
      (Holds list label s → carries (taskFindCapability list label) s = true) := by
  rw [FirstDecides, taskFindCapability_eq, holds_iff_groups, flatten_groups]
  cases list.caps.filter fun cap => label == labelPart cap with
  | nil => simp
  | cons cap rest =>
      rw [List.head?_cons, Option.getD_some]
      constructor
      · rintro h ⟨other, hother, hs⟩
        refine (h cap rest rfl).elim id fun hrest => ?_
        rcases List.mem_cons.1 hother with rfl | hother
        · exact hs
        · exact absurd hs (by rw [hrest other hother]; decide)
      · intro h first others heq
        obtain ⟨rfl, rfl⟩ := List.cons.inj heq
        refine or_iff_not_imp_left.2 fun hfirst other hother => ?_
        refine Bool.eq_false_iff.2 fun hs => hfirst (h ⟨other, ?_, hs⟩)
        exact List.mem_cons_of_mem cap hother

end Refuses

/-! ## Receiving capabilities -/

/-- Calls that give a task capabilities, or give them to others, and take none from it. -/
def Receives (p : Pid) : Pid × Call → Prop
  | (_, .allocLabel _ _) => True
  | (_, .resumeCapabilities _ _) => True
  | (q, .sendCapabilities _ _ _) => q ≠ p
  | _ => False

/-- The list that words are stored in keeps its rights. -/
theorem holds_moveWords {type : BitVec 32} {store : Bool} {words : List CapabilityT}
    {src dst : CapList} {rv : Int} {label : LabelT} {s : Sign} (h : Holds dst label s) :
    Holds (moveWords type store words src dst rv).2.1 label s := by
  induction words generalizing src dst rv with
  | nil => exact h
  | cons word words ih =>
      rw [moveWords_cons, moveWord_eq]
      refine ih ?_
      dsimp only
      split
      · exact holds_pushCap.2 (.inl h)
      · exact h

section Receives

variable {k k' : Kernel} {p q : Pid} {label : LabelT} {s : Sign}

/-- A write that keeps the rights of the task's list keeps what is granted there. -/
theorem grants_modifySecurity_mono {f : TaskSecurityStruct → TaskSecurityStruct}
    (hf : ∀ tsec, q = p → k.security p = some tsec → Holds tsec.capList label s →
      Holds (f tsec).capList label s)
    (h : k.Grants (.capList p) label s) :
    (k.modifySecurity q f).Grants (.capList p) label s := by
  unfold Kernel.Grants at h ⊢
  simp only [Kernel.listAt, Kernel.security_modifySecurity] at h ⊢
  split
  · rename_i hq
    cases hsec : k.security p with
    | none => rwa [hsec] at h
    | some tsec =>
        rw [hsec] at h
        exact hf tsec hq.symm hsec h
  · exact h

/-- What a task's list grants, it grants after a call that takes nothing from the task. -/
theorem receives_grants {c : Pid × Call} (hstep : k.step c = some k') (hc : Receives p c)
    (h : k.Grants (.capList p) label s) : k'.Grants (.capList p) label s := by
  obtain ⟨q, call⟩ := c
  obtain ⟨ret, hperform⟩ := Kernel.step_eq_some hstep
  obtain ⟨tsk, htask, hrun⟩ := perform_eq_ok hperform
  cases call with
  | allocLabel type region =>
      obtain ⟨⟨l, k₁⟩, halloc, hret⟩ := bind_eq_ok.1 hrun
      obtain ⟨-, rfl⟩ := Prod.mk.inj (Except.ok.inj hret)
      unfold difcAllocLabel at halloc
      obtain ⟨k₂, hfold, hret⟩ := bind_eq_ok.1 halloc
      obtain ⟨-, rfl⟩ := Prod.mk.inj (Except.ok.inj hret)
      refine foldlM_invariant (P := fun k => k.Grants (.capList p) label s) ?_ h hfold
      intro k₁ r _ k₂ hgrants hone
      unfold difcAllocLabelTo at hone
      split at hone
      · obtain rfl := Except.ok.inj hone
        exact grants_modifySecurity_mono (fun _ _ _ hh => holds_pushCap.2 (.inl hh)) hgrants
      · simp at hone
  | resumeCapabilities buf type =>
      obtain ⟨n, -, hcall⟩ := int_eq_ok hrun
      rcases difcResumeCapabilities_eq_ok hcall with rfl | ⟨words, tsec, -, hsec, rfl⟩
      · exact h
      · refine grants_modifySecurity_mono (fun tsec' hq hsec' hh => ?_) h
        subst hq
        rw [security_of_task htask, hsec] at hsec'
        obtain rfl := Option.some.inj hsec'
        exact holds_moveWords hh
  | sendCapabilities pid buf type =>
      obtain ⟨n, -, hcall⟩ := int_eq_ok hrun
      rcases difcSendCapabilities_eq_ok hcall with rfl | ⟨_, _, _, _, -, -, -, -, rfl⟩
      · exact h
      · -- the sender is another task, and the receiver's other list is written
        refine grants_modifySecurity_mono (fun _ _ _ hh => hh) ?_
        exact grants_modifySecurity_mono (fun _ hq => absurd hq hc) h
  | _ => exact hc.elim

end Receives

/-! ## The verdict -/

/-- Any capability that the task holds authorises the change, and it is still authorised after
calls that take nothing from the task. -/
structure AnyAuthorises (k : Kernel) (p : Pid) (tsk : Task) (tsec : TaskSecurityStruct)
    (lbl : LabelStruct) (label : LabelT) (s : Sign) (labelType : Int) (checkOnly : Bool) :
    Prop where
  exact : Refuses tsk lbl label s labelType checkOnly ↔ ¬ Holds tsec.capList label s
  kept : ∀ (before : Kernel) tsk₀ c, before.task p = some tsk₀ → tsk₀.security.isSome →
    before.step c = some k → Receives p c → ¬ Refuses tsk₀ lbl label s labelType checkOnly →
    ¬ Refuses tsk lbl label s labelType checkOnly

/-- **When any capability authorises.**  The first entry for the label has to carry the sign, or
no entry for it may. -/
theorem anyAuthorises_iff {k : Kernel} {p : Pid} {tsk : Task} {tsec : TaskSecurityStruct}
    (htask : k.task p = some tsk) (hsec : tsk.security = some tsec) (label : LabelT) (s : Sign)
    {lbl : LabelStruct} (hlbl : lbl.WellFormed) (labelType : Int) (checkOnly : Bool) :
    AnyAuthorises k p tsk tsec lbl label s labelType checkOnly ↔
      FirstDecides tsec.capList label s := by
  rw [firstDecides_iff]
  constructor
  · intro h hholds
    have hallowed := mt h.exact.1 (not_not_intro hholds)
    rwa [refuses_iff hsec hlbl.1, Bool.not_eq_false] at hallowed
  · intro h
    have hexact : Refuses tsk lbl label s labelType checkOnly ↔ ¬ Holds tsec.capList label s := by
      rw [refuses_iff hsec hlbl.1, ← Bool.not_eq_true]
      exact not_congr ⟨holds_of_taskFindCapability, h⟩
    refine ⟨hexact, fun before tsk₀ c htask₀ hsome hstep hc hallowed => ?_⟩
    obtain ⟨tsec₀, hsec₀⟩ := Option.isSome_iff_exists.1 hsome
    rw [refuses_iff hsec₀ hlbl.1, Bool.not_eq_false] at hallowed
    have hbefore : before.Grants (.capList p) label s := by
      rw [Kernel.Grants, listAt_capList ((security_of_task htask₀).trans hsec₀)]
      exact holds_of_taskFindCapability hallowed
    have hafter := receives_grants hstep hc hbefore
    rw [Kernel.Grants, listAt_capList ((security_of_task htask).trans hsec)] at hafter
    exact fun hrefuses => hexact.1 hrefuses hafter

/-- A task that has allocated a label may add it. -/
theorem allocated_authorises :
    ∃ k tsk tsec, (bootKernel 1000).step (1, .allocLabel capPlusMask regionSelf) = some k ∧
      k.task 1 = some tsk ∧ tsk.security = some tsec ∧
      AnyAuthorises k 1 tsk tsec .zero 2#64 .plus 0 false := by
  refine ⟨_, _, _, rfl, rfl, rfl, ?_⟩
  refine (anyAuthorises_iff rfl rfl 2#64 .plus wellFormed_zero 0 false).2 ?_
  intro cap rest heq
  obtain ⟨rfl, -⟩ := List.cons.inj heq
  exact .inl rfl

/-! ## Capabilities that do not authorise -/

/-- The 31 words that fill a segment. -/
def fillers : List CapabilityT :=
  (List.range 31).map fun i => BitVec.ofNat 64 (100 + i) ||| Sign.plus.wide

/-- Two ways to lose an authority.  A task is sent the capability for a label in two parts and
resumes first the MINUS, then the PLUS: it holds the PLUS capability, and may not add the label.
And a task has a full segment and, behind it, the PLUS capability for label 5.  It drops an entry
of the segment and resumes a MINUS capability for the label, which takes the place: the addition
that was authorised before is refused. -/
theorem capability_unseen :
    (∃ k tsk tsec, Run Kernel.step (fun _ _ => True) (bootKernel 1000)
        ([] ++ [(1, .fork 2 false false)] ++
          [(1, .allocLabel (capPlusMask ||| capMinusMask) regionSelf)] ++
          [(1, .sendCapabilities 2 (some [2#64]) capMinusMask)] ++
          [(2, .resumeCapabilities (some [2#64]) capMinusMask)] ++
          [(1, .sendCapabilities 2 (some [2#64]) capPlusMask)] ++
          [(2, .resumeCapabilities (some [2#64]) capPlusMask)]) k ∧
      k.task 2 = some tsk ∧ tsk.security = some tsec ∧ Holds tsec.capList 2#64 .plus ∧
      Refuses tsk .zero 2#64 .plus 0 false) ∧
    ∃ k k' tsk tsk', Run Kernel.step (fun _ _ => True) (bootKernel 1000)
        ([] ++ [(1, .resumeCapabilities (some fillers) 0#32)] ++
          [(1, .resumeCapabilities (some [5#64 ||| Sign.plus.wide]) 0#32)] ++
          [(1, .dropCapabilities (some [100#64]) capPlusMask capOpFlagPermanent)]) k ∧
      k.step (1, .resumeCapabilities (some [5#64 ||| Sign.minus.wide]) 0#32) = some k' ∧
      k.task 1 = some tsk ∧ k'.task 1 = some tsk' ∧
      ¬ Refuses tsk .zero 5#64 .plus 0 true ∧ Refuses tsk' .zero 5#64 .plus 0 true := by
  constructor
  · refine ⟨_, _, _, .snoc (.snoc (.snoc (.snoc (.snoc (.snoc .nil trivial rfl) trivial rfl)
      trivial rfl) trivial rfl) trivial rfl) trivial rfl, rfl, rfl, ?_, ⟨_, rfl⟩⟩
    exact ⟨2#64 ||| Sign.plus.wide, List.mem_of_elem_eq_true rfl, rfl, rfl⟩
  · refine ⟨_, _, _, _, .snoc (.snoc (.snoc .nil trivial rfl) trivial rfl) trivial rfl, rfl, rfl,
      rfl, ?_, ⟨_, rfl⟩⟩
    rintro ⟨lbl', h⟩
    exact absurd (Prod.mk.inj (Except.ok.inj h)).1 (by decide)

end Laminar.Kernel
