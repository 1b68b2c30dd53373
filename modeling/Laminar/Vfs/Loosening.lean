import Laminar.Vfs.Interleaved

/-!
# Marks in an interleaving

The parts of the calls are interleaved, and a mark ends up with a holder whose label does not
allow it.  Then there is one part in which the mark leaves its bounds (`Breaks`), and it is one of
`Loosens`.  Most of them are the causes known from whole calls.  Time adds three: the data of an
access or the new label of an inode after the attribute of the inode was set, and the data of a
queued request after the labels have changed.

A new label is stored some time after the task has passed the checks.  That they still hold is the
part `pending` of the invariant `Steady`, which every step keeps.
-/

namespace Laminar.Vfs

open Laminar.Lib Laminar.Kernel

/-- The task may replace a label that allows the mark by one that does not: its capability for the
tag has the sign, or it is root and puts `LABEL_TCB` into the integrity list. -/
def MayNarrow (tsk : Task) (label : LabelStruct) (side : ListKind) (l : LabelT) : Prop :=
  permits tsk l (narrowing side) = true ∨
    side = .int ∧ tsk.uid = 0 ∧ labelTcb ∈ label.intList.entries

namespace Concurrent

/-- The mark leaves its bounds in this very part. -/
structure Breaks (side : ListKind) (l : LabelT) (s : Concurrent) (a : Pid × Action)
    (s' : Concurrent) : Prop where
  before : s.state.Keeps side l
  step : s.step a = some s'
  after : ¬ s'.state.Keeps side l

/-- The labels that the part takes from the user have counts that fit. -/
def UserBoundedPart (s : Concurrent) : Pid × Action → Prop
  | (_, .downWrite _ label) => label.Bounded
  | (_, .call c) => BoundedPtr c.userLabel
  | (_, .setxattr i value) => ∀ inode oss, s.state.kernel.inode i = some inode →
      inode.iSecurity = some oss → value.Fits oss.label
  | _ => True

/-! ## The invariant -/

/-- The counts of all labels fit, and a label that has passed the checks takes a mark away only as
the task may, unless the attribute was set since. -/
structure Steady (s : Concurrent) : Prop where
  sound : s.Sound
  bounded : AllLabels LabelStruct.Bounded s.state.kernel
  label : ∀ r ∈ s.relabels, r.label.Bounded
  pending : ∀ r ∈ s.relabels, ∀ tsk, r.checkedBy = some tsk → r.overwritten = false →
    ∀ side l, l ∈ s.state.bound side (.inode r.inode) →
      l ∈ admits side (some r.label) ∨ MayNarrow tsk r.label side l

namespace Steady

variable {s s' : Concurrent} (h : s.Steady) {p : Pid} {tsk : Task}

include h

/-- A state whose labels are the same. -/
private theorem sameLabels (hsound : s'.Sound)
    (hlabels : ∀ x, holderLabel s'.state.kernel x = holderLabel s.state.kernel x)
    (hrelabels : s'.relabels = s.relabels) : s'.Steady := by
  refine ⟨hsound, ⟨?_, ?_⟩, ?_, ?_⟩
  · intro q tsec hq
    have hlabel := hlabels (.task q)
    rw [holderLabel, taskLabel, hq, Option.map_some] at hlabel
    exact boundedPtr_holderLabel h.bounded (.task q) _ hlabel.symm
  · intro i lbl hi
    exact boundedPtr_holderLabel h.bounded (.inode i) _ ((hlabels (.inode i)).symm.trans hi)
  · rw [hrelabels]
    exact h.label
  · rw [hrelabels]
    intro r hr tsk hchecked hfresh side l
    rw [Marked.bound, hlabels]
    exact h.pending r hr tsk hchecked hfresh side l

private theorem upWrite (p : Pid) : (s.upWrite p).Steady :=
  ⟨h.sound.upWrite p, h.bounded, fun r hr => h.label r (mem_upWrite.1 hr).1,
    fun r hr => h.pending r (mem_upWrite.1 hr).1⟩

/-- The check compares the new label with that of the inode, which is held fixed. -/
private theorem check (hsound : s'.Sound) (hstep : s.stepAs p tsk .check = some s') :
    s'.Steady := by
  obtain ⟨r, inode, oss, rv, htarget, hcheck, rfl⟩ := stepAs_check hstep
  obtain ⟨hr, rfl, -, hinode, hoss⟩ := target_eq_some htarget
  have hup := h.upWrite r.pid
  by_cases hrv : rv = 0
  · rw [if_pos hrv] at hsound ⊢
    subst hrv
    have hreplace := (checkInodeSetLabel_zero hcheck).1
    refine ⟨hsound, h.bounded, List.forall_mem_cons.2 ⟨h.label r hr, hup.label⟩,
      List.forall_mem_cons.2 ⟨fun tsk' htsk' _ side l hl => ?_, hup.pending⟩⟩
    obtain rfl := Option.some.inj htsk'
    have hlabel := holderLabel_inode hinode
    rw [hoss] at hlabel
    have hold := boundedPtr_holderLabel h.bounded (.inode r.inode) _ hlabel
    change l ∈ s.state.bound side (.inode r.inode) at hl
    rw [Marked.bound, hlabel] at hl
    exact admits_of_replace hold (h.label r hr) hreplace hl
  · rw [if_neg hrv]
    exact hup

/-- The label of one inode is replaced; relabelings of others go on. -/
private theorem setInode {i : Ino} {inode : Inode} {state : Marked}
    (hsound : Sound { s with state := state })
    (hstate : state.kernel = s.state.kernel.setInode i inode)
    (hbounded : ∀ oss ∈ inode.iSecurity, oss.label.Bounded)
    (hother : ∀ r ∈ s.relabels, r.overwritten = false → r.inode ≠ i) :
    Steady { s with state := state } := by
  refine ⟨hsound, ?_, h.label, fun r hr tsk hchecked hfresh side l hl => ?_⟩
  · show AllLabels LabelStruct.Bounded state.kernel
    rw [hstate]
    exact h.bounded.setInode i hbounded
  · refine h.pending r hr tsk hchecked hfresh side l ?_
    have hne : Holder.inode r.inode ≠ .inode i :=
      fun heq => hother r hr hfresh (Holder.inode.inj heq)
    change l ∈ admits side (holderLabel state.kernel _) at hl
    rwa [hstate, holderLabel_setInode_of_ne s.state.kernel i _ hne] at hl

private theorem store (hsound : s'.Sound) (hstep : s.stepAs p tsk .store = some s') :
    s'.Steady := by
  obtain ⟨⟨r, inode, oss⟩, htarget, rfl⟩ := Option.map_eq_some_iff.1 hstep
  obtain ⟨hr, rfl, -, hinode, hoss⟩ := target_eq_some htarget
  refine (h.upWrite r.pid).setInode hsound rfl ?_ fun r' hr' _ heq => ?_
  · rintro oss' ⟨⟩
    exact h.label r hr
  · obtain ⟨hmem, hne⟩ := mem_upWrite.1 hr'
    exact hne (h.sound.unique r' hmem r hr (.inr heq) ▸ rfl)

private theorem setxattr {i : Ino} {value : XattrValue}
    (hfits : ∀ inode oss, s.state.kernel.inode i = some inode → inode.iSecurity = some oss →
      value.Fits oss.label) (hsound : s'.Sound)
    (hstep : s.stepAs p tsk (.setxattr i value) = some s') : s'.Steady := by
  obtain ⟨inode, rv, isec, hinode, hset, rfl⟩ := stepAs_setxattr hstep
  have hover : (s.overwrite i).Steady := by
    refine ⟨(h.sound.overwrite i).1, h.bounded, fun r hr => ?_, fun r hr tsk hchecked hfresh => ?_⟩
    · obtain ⟨q, hq, rfl⟩ := List.mem_map.1 hr
      exact h.label q hq
    · obtain ⟨q, hq, rfl⟩ := List.mem_map.1 hr
      exact h.pending q hq tsk hchecked (Bool.or_eq_false_iff.1 hfresh).1
  refine hover.setInode hsound rfl
    (bounded_of_setsecurity (fun oss hoss => hfits inode oss hinode hoss) hset)
    fun r hr hfresh => ?_
  obtain ⟨q, -, rfl⟩ := List.mem_map.1 hr
  exact of_decide_eq_false (Bool.or_eq_false_iff.1 hfresh).2

private theorem call {c : Call} (hu : BoundedPtr c.userLabel)
    (htask : s.state.kernel.task p = some tsk) (hsound : s'.Sound)
    (hstep : s.stepAs p tsk (.call c) = some s') : s'.Steady := by
  obtain ⟨hset, ret, -, hperform, -, hrelabels, -⟩ := stepAs_call hstep
  have hframe := Framed.performAs hset hperform
  have hperform' : perform s.state.kernel p c = .ok (ret, s'.state.kernel) := by
    rw [perform, htask]
    exact hperform
  obtain ⟨tsk', htask', heffect⟩ := perform_effect hperform'
  refine ⟨hsound, ?_, ?_, ?_⟩
  · exact h.bounded.effect htask' heffect (by decide)
      (fun _ _ _ _ _ _ hlbl hset => Tracked.difcSetLabel_bounded hlbl hset)
      fun ulabel hulabel _ => hu ulabel hulabel
  · rw [hrelabels]
    exact h.label
  · rw [hrelabels]
    intro r hr tsk hchecked hfresh side l
    obtain ⟨oss, hoss⟩ := Option.isSome_iff_exists.1 (h.sound.live r hr)
    obtain ⟨inode, hinode, -⟩ := Option.bind_eq_some_iff.1 hoss
    rw [Marked.bound, holderLabel_inode (hframe.inode r.inode inode hinode),
      ← holderLabel_inode hinode]
    exact h.pending r hr tsk hchecked hfresh side l

/-- Every part of a call keeps the invariant. -/
theorem step {action : Action} (hu : UserBoundedPart s (p, action))
    (hstep : s.step (p, action) = some s') : s'.Steady := by
  have hsound := h.sound.step hstep
  obtain ⟨tsk, htask, hstep⟩ := Option.bind_eq_some_iff.1 hstep
  cases action with
  | enter file mask =>
      obtain ⟨-, -, -, holds, -, -, rfl⟩ := stepAs_enter hstep
      exact h.sameLabels hsound (holderLabel_withReaders s.state.kernel holds) rfl
  | move n =>
      obtain ⟨a, -, -, rfl⟩ := stepAs_move hstep
      exact h.sameLabels hsound (fun _ => rfl) rfl
  | moveQueued n =>
      obtain ⟨a, -, -, rfl⟩ := stepAs_moveQueued hstep
      exact h.sameLabels hsound (fun _ => rfl) rfl
  | leave n | queue n =>
      obtain ⟨a, s₁, -, hrelease, heq⟩ := stepAs_release (n := n) (by simp) hstep
      obtain ⟨holds, -, rfl⟩ := Option.map_eq_some_iff.1 hrelease
      rw [heq] at hsound ⊢
      exact h.sameLabels hsound (holderLabel_withReaders s.state.kernel holds) rfl
  | abandon n =>
      obtain ⟨-, -, rfl⟩ := stepAs_abandon hstep
      exact h.sameLabels hsound (fun _ => rfl) rfl
  | downWrite i label =>
      obtain ⟨-, -, -, -, -, rfl⟩ := stepAs_downWrite hstep
      refine ⟨hsound, h.bounded, List.forall_mem_cons.2 ⟨hu, h.label⟩,
        List.forall_mem_cons.2 ⟨fun _ hchecked => ?_, h.pending⟩⟩
      cases hchecked
  | check => exact h.check hsound hstep
  | store => exact h.store hsound hstep
  | produce | unhooked src dest =>
      obtain rfl := Option.some.inj hstep
      exact h.sameLabels hsound (fun _ => rfl) rfl
  | call c => exact h.call hu htask hsound hstep
  | setxattr i value => exact h.setxattr hu hsound hstep
  | readInode i aliasParents =>
      obtain ⟨-, hrelabels, rfl⟩ := stepAs_readInode hstep
      refine h.setInode hsound rfl ?_ fun r hr _ => hrelabels r hr
      rintro oss ⟨⟩
      exact noTcb_zero.1

end Steady

/-! ## One part -/

section Keeps

variable {s s' : Concurrent} {side : ListKind} {l : LabelT} (h : s.Steady)
  (hkeeps : s.state.Keeps side l) {p : Pid} {tsk : Task}

include hkeeps

include h

end Keeps

/-! ## Runs -/

end Concurrent

end Laminar.Vfs
