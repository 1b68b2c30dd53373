import Laminar.Vm.Chain

/-!
# What can be seen of a thread

A program sees how its calls end and, through them, the flag, the common capabilities and
what the states from the current one to the state of the thread itself hold.  It does not
see which object holds a state, what hangs below the current state, or how many states
have been allocated.  `observe` erases those.

The calls on labels read even less, the current state and its parent (`labelCall_near`),
and no call lets the program see more than it could before (`call_observe`): what is left
attached to a parent never shows in a later region.
-/

namespace Laminar.Vm

/-- What a state holds, whichever object it is. -/
def SRState.content (s : SRState) : SRState := { s with id := 0 }

theorem RegionArgs.content_fill (args : RegionArgs) (s s' : SRState) :
    (args.fill s).content = (args.fill s').content := rfl

theorem SRState.content_clearState (s s' : SRState) :
    s.clearState.content = s'.clearState.content := rfl

namespace GreenThread

/-- What a program can see. -/
def observe (th : GreenThread) : GreenThread :=
  { th with
    currentSRState := th.currentSRState.content
    parents := th.parents.map SRState.content
    children := []
    nextId := 0 }

/-- What a call on labels reads. -/
def near (th : GreenThread) : GreenThread :=
  { th.observe with parents := (th.parents.take 1).map SRState.content }

theorem near_ext {th v : GreenThread}
    (hcurrent : th.currentSRState.content = v.currentSRState.content)
    (hparents : (th.parents.take 1).map SRState.content = (v.parents.take 1).map SRState.content)
    (hregion : th.inSecureRegion = v.inSecureRegion)
    (hplus : th.commonPlusCapabilitySet = v.commonPlusCapabilitySet)
    (hminus : th.commonMinusCapabilitySet = v.commonMinusCapabilitySet) : th.near = v.near := by
  rw [near, near, observe, observe, hcurrent, hparents, hregion, hplus, hminus]

/-- What is near and what is behind the parent is all that can be seen. -/
theorem observe_of_near {th v : GreenThread} (hnear : th.near = v.near)
    (htail : th.parents.tail.map SRState.content = v.parents.tail.map SRState.content) :
    th.observe = v.observe := by
  have hparents : th.parents.map SRState.content = v.parents.map SRState.content := by
    have htake : (th.parents.take 1).map SRState.content = (v.parents.take 1).map SRState.content :=
      congrArg parents hnear
    rw [← List.take_append_drop 1 th.parents, ← List.take_append_drop 1 v.parents,
      List.map_append, List.map_append, htake, List.drop_one, List.drop_one, htail]
  calc th.observe
      = { th.near with parents := th.parents.map SRState.content } := rfl
    _ = { v.near with parents := v.parents.map SRState.content } := by rw [hnear, hparents]
    _ = v.observe := rfl

theorem map_content (states : List SRState) :
    (states.map SRState.content).map SRState.content = states.map SRState.content := by
  rw [List.map_map]
  rfl

theorem observe_observe (th : GreenThread) : th.observe.observe = th.observe := by
  rw [observe, observe, map_content]
  rfl

theorem near_observe (th : GreenThread) : th.observe.near = th.near := by
  obtain ⟨cur, parents, _⟩ := th
  cases parents <;> rfl

/-! ## Calls on labels -/

section Near

variable (th : GreenThread)

/-- How a call ends, and what is near afterwards. -/
def ending (r : Outcome × GreenThread) : Outcome × GreenThread := (r.1, r.2.near)

private theorem addLabel_near (kind : LabelKind) (lacks outside : String)
    (label : Option LabelSet) :
    ending (addLabel kind lacks outside th label) =
      ending (addLabel kind lacks outside th.near label) := by
  obtain ⟨cur, parents, _⟩ := th
  cases label with
  | none => cases parents <;> rfl
  | some label =>
      simp only [addLabel, apply_ite ending]
      cases parents <;> cases kind <;> rfl

private theorem removeLabel_near (kind : LabelKind) (message : String)
    (label : Option LabelSet) :
    ending (removeLabel kind message th label) =
      ending (removeLabel kind message th.near label) := by
  obtain ⟨cur, parents, _⟩ := th
  cases label with
  | none =>
      simp only [removeLabel, apply_ite ending]
      cases parents <;> rfl
  | some label =>
      simp only [removeLabel, apply_ite ending]
      cases parents <;> cases kind <;> rfl

private theorem dropFrom_content (s : SRState) (label : Option LabelSet) (type : Int) :
    dropFrom s.content label type = (dropFrom s label type).map SRState.content := by
  unfold dropFrom
  show (minusIf _ s.plusCapabilitySet _ >>= _) = _
  cases minusIf (hasPlus type) s.plusCapabilitySet label with
  | none => rfl
  | some plus =>
      show (minusIf _ s.minusCapabilitySet _ >>= _) = _
      cases minusIf (hasMinus type) s.minusCapabilitySet label with
      | none => rfl
      | some minus => rfl

private theorem dropCapability_near (label : Option LabelSet) (type : Int) :
    ending (th.dropCapability label type) = ending (th.near.dropCapability label type) := by
  obtain ⟨cur, parents, _⟩ := th
  simp only [dropCapability, apply_ite ending, near, observe, dropFrom_content]
  cases dropFrom cur label type <;> cases parents <;> rfl

private theorem dropFromParent_near (label : Option LabelSet) (type : Int) :
    ending (th.dropFromParent label type) = ending (th.near.dropFromParent label type) := by
  obtain ⟨cur, parents, _⟩ := th
  cases parents with
  | nil => rfl
  | cons parent above =>
      show ending (dropFromParent ⟨cur, parent :: above, _, _, _, _, _⟩ label type) =
        ending (dropFromParent ⟨cur.content, [parent.content], _, _, _, _, _⟩ label type)
      simp only [dropFromParent, dropFrom_content]
      cases dropFrom parent label type <;> rfl

private theorem dropThreadCapability_near (label : Option LabelSet) (type : Int) :
    ending (th.dropThreadCapability label type) =
      ending (th.near.dropThreadCapability label type) := by
  have hparent := fun cur => dropFromParent_near { th with currentSRState := cur } label type
  obtain ⟨cur, parents, children, inside, _⟩ := th
  simp only [dropThreadCapability, dropCapability, apply_ite ending, near, observe,
    dropFrom_content]
  cases validType type with
  | false => cases parents <;> rfl
  | true =>
      cases dropFrom cur label type with
      | none => cases parents <;> rfl
      | some cur' =>
          cases inside with
          | false => cases parents <;> rfl
          | true => exact ite_congr rfl (fun _ => by cases parents <;> rfl) fun _ => hparent cur'

private theorem createCapability_near (type region : Int) (osLabel : Label) :
    ending (th.createCapability type region osLabel) =
      ending (th.near.createCapability type region osLabel) := by
  obtain ⟨cur, parents, children, inside, _⟩ := th
  simp only [createCapability, apply_ite ending]
  -- the region decides which other sets get the capability
  by_cases hgroup : region = regionGroup
  · subst hgroup
    cases inside <;> cases parents <;> rfl
  · simp only [if_neg hgroup]
    by_cases hself : region = regionSelf
    · subst hself
      cases inside <;> cases parents <;> rfl
    · simp only [decide_eq_false hself]
      cases inside <;> cases parents <;> rfl

/-- How a call on labels ends depends on what is near, and so does what is near
afterwards. -/
theorem labelCall_near (c : LabelCall) :
    ending (th.labelCall c) = ending (th.near.labelCall c) := by
  cases c with
  | addSecrecyLabel label => exact addLabel_near th _ _ _ label
  | addIntegrityLabel label => exact addLabel_near th _ _ _ label
  | removeSecrecyLabel label => exact removeLabel_near th _ _ label
  | removeIntegrityLabel label => exact removeLabel_near th _ _ label
  | dropCapability label type => exact dropCapability_near th label type
  | dropThreadCapability label type => exact dropThreadCapability_near th label type
  | createCapability type region osLabel => exact createCapability_near th type region osLabel
  | initializeThreadCapability capability type =>
      obtain ⟨cur, parents, _⟩ := th
      simp only [labelCall, initializeThreadCapability, apply_ite ending]
      cases parents <;> rfl
  | setAllocationLabels sSet iSet =>
      obtain ⟨cur, parents, _⟩ := th
      cases parents <;> rfl
  | resetAllocationLabels =>
      obtain ⟨cur, parents, _⟩ := th
      cases parents <;> rfl
  | osPassCurrentLabels err =>
      obtain ⟨cur, parents, children, inside, _⟩ := th
      simp only [labelCall, osPassCurrentLabels]
      show ending (_, if inside && decide (err ≥ 0) then _ else _) =
        ending (_, if inside && decide (err ≥ 0) then _ else _)
      cases inside && decide (err ≥ 0) <;> cases parents <;> rfl

end Near

/-- Calls on labels leave alone what is behind the parent. -/
theorem tail_labelCall (th : GreenThread) (c : LabelCall) :
    (th.labelCall c).2.parents.tail = th.parents.tail := by
  have heffect := th.labelCall_chain c
  generalize (th.labelCall c).2 = th' at heffect
  cases heffect with
  | dropBoth _ hparents =>
      rw [hparents]
      rfl
  | createSelf _ _ hparents =>
      rw [hparents]
      rfl
  | _ => rfl

theorem labelCall_congr {th v : GreenThread} (h : th.near = v.near) (c : LabelCall) :
    (th.labelCall c).1 = (v.labelCall c).1 ∧ (th.labelCall c).2.near = (v.labelCall c).2.near := by
  have hending : ending (th.labelCall c) = ending (v.labelCall c) := by
    rw [th.labelCall_near c, v.labelCall_near c, h]
  exact Prod.mk.inj hending

/-! ## All calls -/

/-- What can be seen once the child that holds `s` is entered. -/
def entered (th : GreenThread) (s : SRState) : GreenThread :=
  { th with currentSRState := s.content, parents := th.chain }

theorem observe_enterChild (th : GreenThread) {fill : SRState → SRState}
    (hfill : ∀ s s', (fill s).content = (fill s').content) (s : SRState) :
    (th.enterChild fill).observe = th.observe.entered (fill s) := by
  unfold enterChild
  split
  · rename_i child _ _
    rw [entered, hfill s child]
    rfl
  · rw [entered, hfill s (.allocate th.nextId)]
    rfl

/-- How a start ends and what can be seen afterwards.  The child it found does not
matter. -/
def startShows (th : GreenThread) (s : Start) : Outcome × GreenThread :=
  match th.startError s.args.plusCapabilitySet s.args.minusCapabilitySet s.args.secrecySet
      s.args.integritySet with
  | some error => (.difcException error, th.entered th.currentSRState.clearState)
  | none => (.returned, { th.entered (s.args.fill th.currentSRState) with inSecureRegion := true })

theorem start_shows (th : GreenThread) (s : Start) :
    (th.start s).1 = (th.observe.startShows s).1 ∧
      (th.start s).2.observe = (th.observe.startShows s).2 := by
  have herror : th.observe.startError s.args.plusCapabilitySet s.args.minusCapabilitySet
      s.args.secrecySet s.args.integritySet = th.startError s.args.plusCapabilitySet
      s.args.minusCapabilitySet s.args.secrecySet s.args.integritySet := rfl
  rw [start_eq_helper, startSecureRegionHelper, startShows, herror]
  cases th.startError s.args.plusCapabilitySet s.args.minusCapabilitySet s.args.secrecySet
    s.args.integritySet with
  | some error => exact ⟨rfl, th.observe_enterChild SRState.content_clearState _⟩
  | none =>
      refine ⟨rfl, ?_⟩
      show ({ (th.enterChild s.args.fill).observe with inSecureRegion := true } : GreenThread) = _
      rw [th.observe_enterChild s.args.content_fill th.observe.currentSRState]

theorem end_observe (th : GreenThread) :
    th.endSecureRegion.1 = th.observe.endSecureRegion.1 ∧
      th.endSecureRegion.2.observe = th.observe.endSecureRegion.2.observe := by
  obtain ⟨cur, parents, children, inside, _⟩ := th
  cases inside with
  | false => exact ⟨rfl, (observe_observe _).symm⟩
  | true =>
      cases parents with
      | nil => exact ⟨rfl, rfl⟩
      | cons parent above =>
          refine ⟨rfl, ?_⟩
          have hempty : (above.map SRState.content).isEmpty = above.isEmpty := List.isEmpty_map
          show observe ⟨parent, above, _, !above.isEmpty, _, _, _⟩ =
            observe ⟨parent.content, above.map _, _, !(above.map SRState.content).isEmpty, _, _, _⟩
          rw [hempty, observe, observe, map_content]
          rfl

/-- **No call lets a program see more of the thread than it could see before.** -/
theorem call_observe (th : GreenThread) (c : ThreadCall) :
    (th.call c).1 = (th.observe.call c).1 ∧
      (th.call c).2.observe = (th.observe.call c).2.observe := by
  cases c with
  | start s =>
      obtain ⟨hout, hseen⟩ := th.start_shows s
      obtain ⟨hout', hseen'⟩ := th.observe.start_shows s
      rw [observe_observe] at hout' hseen'
      exact ⟨hout.trans hout'.symm, hseen.trans hseen'.symm⟩
  | endSecureRegion => exact th.end_observe
  | labels c =>
      obtain ⟨hout, hnear⟩ := labelCall_congr th.near_observe.symm c
      refine ⟨hout, observe_of_near hnear ?_⟩
      show (th.labelCall c).2.parents.tail.map SRState.content =
        (th.observe.labelCall c).2.parents.tail.map SRState.content
      rw [tail_labelCall, tail_labelCall]
      rw [observe, ← List.map_tail, map_content]

end GreenThread

end Laminar.Vm
