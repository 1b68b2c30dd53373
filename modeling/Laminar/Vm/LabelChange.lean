import Laminar.Lib.Run
import Laminar.Vm.Effects

/-!
# Label changes need capabilities

Apart from `endSecureRegion` a call may add a label to the current region only with
its plus capability and remove one only with its minus capability.  All calls keep
this law but one: a start that is refused moves the thread to a dummy region with
empty labels, whatever the thread may remove.
-/

namespace Laminar.Vm

open Laminar.Lib

/-- A call of a thread. -/
inductive ThreadCall
  | start (s : Start)
  | endSecureRegion
  | labels (c : LabelCall)

namespace GreenThread

/-- Make a call. -/
def call (th : GreenThread) : ThreadCall → Outcome × GreenThread
  | .start s => th.start s
  | .endSecureRegion => th.endSecureRegion
  | .labels c => th.labelCall c

/-- One step of a thread: a call, whether it returns or throws. -/
def step (th : GreenThread) (c : ThreadCall) : Option GreenThread := some (th.call c).2

/-- From one state to the next labels were added with plus capabilities and removed
with minus capabilities. -/
structure LawfulChange (th th' : GreenThread) : Prop where
  added : ∀ kind, ∀ l ∈ th'.currentSRState.set kind, l ∉ th.currentSRState.set kind →
    l ∈ th.plusCap
  removed : ∀ kind, ∀ l ∈ th.currentSRState.set kind, l ∉ th'.currentSRState.set kind →
    l ∈ th.minusCap

/-- The call is a start that is refused. -/
def Refuses (th : GreenThread) : ThreadCall → Prop
  | .start s => th.startAllowed s = false
  | _ => False

theorem LawfulChange.of_set_eq {th th' : GreenThread}
    (h : ∀ kind, th'.currentSRState.set kind = th.currentSRState.set kind) :
    LawfulChange th th' :=
  ⟨fun kind _ hl hnot => absurd (h kind ▸ hl) hnot,
    fun kind _ hl hnot => absurd ((h kind).symm ▸ hl) hnot⟩

private theorem set_assign (s : SRState) (kind kind' : LabelKind) (labels : LabelSet) :
    (s.assign kind labels).set kind' = labels ∧ kind' = kind ∨
      (s.assign kind labels).set kind' = s.set kind' := by
  cases kind <;> cases kind'
  · exact Or.inl ⟨rfl, rfl⟩
  · exact Or.inr rfl
  · exact Or.inr rfl
  · exact Or.inl ⟨rfl, rfl⟩

/-- The current state with one of its two sets changed. -/
private theorem LawfulChange.assign {th : GreenThread} (kind : LabelKind) {labels : LabelSet}
    (hadd : ∀ l ∈ labels, l ∉ th.currentSRState.set kind → l ∈ th.plusCap)
    (hremove : ∀ l ∈ th.currentSRState.set kind, l ∉ labels → l ∈ th.minusCap) :
    LawfulChange th (th.modify fun cur => cur.assign kind labels) := by
  refine ⟨fun kind' l hl hnot => ?_, fun kind' l hl hnot => ?_⟩
  · rcases set_assign th.currentSRState kind kind' labels with ⟨hset, rfl⟩ | hset
    · exact hadd l (hset ▸ hl) hnot
    · exact absurd (hset ▸ hl) hnot
  · rcases set_assign th.currentSRState kind kind' labels with ⟨hset, rfl⟩ | hset
    · exact hremove l hl (hset ▸ hnot)
    · exact absurd (hset.symm ▸ hl) hnot

theorem LawfulChange.of_effect {th th' : GreenThread} (h : LabelEffect th th') :
    LawfulChange th th' := by
  cases h with
  | same _ hset => exact .of_set_eq hset
  | @add kind label hin hsub =>
      refine .assign kind (fun l hl hnot => ?_) fun l hl hnot => ?_
      · rw [plusCap, if_pos hin]
        exact LabelSet.isSubsetOf_iff.1 hsub l ((LabelSet.mem_union.1 hl).resolve_left hnot)
      · exact absurd (LabelSet.mem_union.2 (Or.inl hl)) hnot
  | @remove kind label hin hsub =>
      refine .assign kind (fun l hl hnot => ?_) fun l hl hnot => ?_
      · exact absurd (LabelSet.mem_minus.1 hl).1 hnot
      · rw [minusCap, if_pos hin]
        have hlabel : l ∈ label :=
          Classical.byContradiction fun h => hnot (LabelSet.mem_minus.2 ⟨hl, h⟩)
        exact LabelSet.isSubsetOf_iff.1 hsub l hlabel

/-- A start that is allowed changes labels as its checks say. -/
theorem LawfulChange.start_allowed {th : GreenThread} {s : Start}
    (h : th.startAllowed s = true) : LawfulChange th (th.start s).2 := by
  obtain ⟨child, hchild⟩ := th.currentSRState_enterChild s.args.fill
  have hset : ∀ kind, (th.start s).2.currentSRState.set kind = s.args.set kind := by
    intro kind
    rw [GreenThread.start_allowed h]
    dsimp only
    rw [hchild]
    cases kind <;> rfl
  refine ⟨fun kind l hl hnot => ?_, fun kind l hl hnot => ?_⟩
  · rw [hset] at hl
    exact ((startAllowed_set h kind).1 l hl).resolve_right hnot
  · rw [hset] at hnot
    exact ((startAllowed_set h kind).2 l hl).resolve_right hnot

/-- After a refused start the labels are empty. -/
theorem set_start_refused {th : GreenThread} {s : Start} (h : th.startAllowed s = false)
    (kind : LabelKind) : (th.start s).2.currentSRState.set kind = .empty := by
  obtain ⟨error, hstart⟩ := start_refused h
  obtain ⟨child, hchild⟩ := th.currentSRState_enterChild SRState.clearState
  rw [hstart]
  dsimp only
  rw [hchild]
  cases kind <;> rfl

/-- A call other than `endSecureRegion` changes labels with capabilities only, if
and only if it is not a refused start or the thread may remove all its labels. -/
theorem lawfulChange_iff (th : GreenThread) (c : ThreadCall) (hc : c ≠ .endSecureRegion) :
    LawfulChange th (th.call c).2 ↔
      (th.Refuses c → ∀ kind, ∀ l ∈ th.currentSRState.set kind, l ∈ th.minusCap) := by
  cases c with
  | start s =>
      cases h : th.startAllowed s with
      | true =>
          refine iff_of_true (.start_allowed h) fun hrefused => ?_
          exact absurd (h.symm.trans hrefused) (by decide)
      | false =>
          have hempty := set_start_refused h
          refine ⟨fun hlaw _ kind l hl => ?_, fun hall => ⟨fun kind l hl => ?_, ?_⟩⟩
          · refine hlaw.removed kind l hl fun hmem => ?_
            exact LabelSet.not_mem_empty l (hempty kind ▸ hmem)
          · exact absurd (hempty kind ▸ hl) (LabelSet.not_mem_empty l)
          · exact fun kind l hl _ => hall h kind l hl
  | endSecureRegion => exact absurd rfl hc
  | labels c => exact iff_of_true (.of_effect (labelCall_effect th c)) False.elim

/-- The thread is given the plus capability of label 5, hands it to a region, and the
region adds the label. -/
theorem lawfulChange_add_five :
    ∃ calls th th', Run step (fun _ _ => True) new calls th ∧
      th.call (.labels (.addSecrecyLabel (some (.getLabelSet 5)))) = (.returned, th') ∧
      th.currentSRState.secrecySet.labels = [] ∧ th'.currentSRState.secrecySet.labels = [5] ∧
      LawfulChange th th' := by
  refine ⟨[] ++ [.labels (.initializeThreadCapability (.getLabelSet 5) plusCapability)] ++
    [.start (.startSecureRegionDecEnd none none (some (.getLabelSet 5)) none)], _, _,
    .snoc (.snoc .nil trivial rfl) trivial rfl, Prod.ext (by decide +kernel) rfl,
    by decide +kernel, by decide +kernel, ?_⟩
  exact (lawfulChange_iff _ (.labels (.addSecrecyLabel (some (.getLabelSet 5))))
    (by simp)).2 False.elim

/-- The thread is given the plus capability of label 5 and starts a region with that
secrecy label.  A nested region with label 7 is refused, and the thread goes on
without the secrecy label, which it could not remove. -/
theorem refused_start_drops_secrecy :
    ∃ calls th, Run step (fun _ _ => True) new calls th ∧
      th.currentSRState.secrecySet.labels = [5] ∧ th.minusCap.labels = [] ∧
      ¬ LawfulChange th (th.call (.start (.startSecureRegion (some (.getLabelSet 7)) none))).2 := by
  refine ⟨[] ++ [.labels (.initializeThreadCapability (.getLabelSet 5) plusCapability)] ++
    [.start (.startSecureRegion (some (.getLabelSet 5)) none)], _,
    .snoc (.snoc .nil trivial rfl) trivial rfl, by decide +kernel, by decide +kernel, ?_⟩
  intro hlaw
  exact absurd (hlaw.removed .secrecy 5 (by decide +kernel) (by decide +kernel))
    (by decide +kernel)

end GreenThread

end Laminar.Vm
