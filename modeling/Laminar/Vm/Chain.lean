import Laminar.Vm.LabelChange

/-!
# What the calls do to the chain of states

The chain of a thread runs from its current state to the state of the thread itself.
A start puts a state in front of it, an end takes one away, and every other call works
on the front state, on the one behind it, or on the common sets.  `ChainEffect` lists
everything such a call can do, and `labelCall_chain` says that there is nothing else.
The proofs about capabilities, restore flags and recycled states use these lemmas and
not the code.
-/

namespace Laminar.Vm

namespace GreenThread

/-- The states from the current one to the state of the thread itself. -/
def chain (th : GreenThread) : List SRState := th.currentSRState :: th.parents

/-- Inside a region there is a parent. -/
def Nested (th : GreenThread) : Prop := th.inSecureRegion = true → th.parents ≠ []

/-! ## Starts and ends -/

theorem chain_enterChild (th : GreenThread) (fill : SRState → SRState) :
    ∃ child, (th.enterChild fill).chain = fill child :: th.chain := by
  obtain ⟨child, hchild⟩ := th.currentSRState_enterChild fill
  refine ⟨child, ?_⟩
  rw [chain, hchild, parents_enterChild]
  rfl

@[simp] theorem common_enterChild (th : GreenThread) (fill : SRState → SRState) :
    (th.enterChild fill).commonPlusCapabilitySet = th.commonPlusCapabilitySet ∧
      (th.enterChild fill).commonMinusCapabilitySet = th.commonMinusCapabilitySet := by
  unfold enterChild
  split <;> exact ⟨rfl, rfl⟩

/-- Inside a region an end takes away the front. -/
theorem end_inside {th : GreenThread} {parent : SRState} {above : List SRState}
    (hin : th.inSecureRegion = true) (hparents : th.parents = parent :: above) :
    th.endSecureRegion = (.returned,
      { th with
        currentSRState := parent
        parents := above
        children := th.currentSRState :: th.children
        inSecureRegion := !above.isEmpty }) := by
  unfold endSecureRegion
  rw [hin, hparents]
  rfl

/-- Outside every region an end does nothing, and inside it takes away the front. -/
theorem end_chain {th : GreenThread} (h : th.Nested) :
    (th.inSecureRegion = false ∧ th.endSecureRegion = (.returned, th)) ∨
      (th.inSecureRegion = true ∧ ∃ parent above, th.parents = parent :: above ∧
        th.endSecureRegion = (.returned,
          { th with
            currentSRState := parent
            parents := above
            children := th.currentSRState :: th.children
            inSecureRegion := !above.isEmpty })) := by
  cases hin : th.inSecureRegion with
  | false =>
      refine .inl ⟨rfl, ?_⟩
      rw [endSecureRegion, hin]
      rfl
  | true =>
      obtain ⟨parent, above, hparents⟩ := List.exists_cons_of_ne_nil (h hin)
      exact .inr ⟨rfl, parent, above, hparents, end_inside hin hparents⟩

/-! ## The other calls -/

/-- Everything a call other than a start and an end can do. -/
inductive ChainEffect (th : GreenThread) (c : LabelCall) : GreenThread → Prop
  | refl : ChainEffect th c th
  /-- labels are added or removed -/
  | assign (kind : LabelKind) (labels : LabelSet) : th.inSecureRegion = true →
      ChainEffect th c (th.modify fun cur => cur.assign kind labels)
  /-- capabilities of the current state are dropped -/
  | drop {label : Option LabelSet} {type : Int} {cur : SRState} :
      dropFrom th.currentSRState label type = some cur →
      ChainEffect th c { th with currentSRState := cur }
  /-- and those of its parent -/
  | dropBoth {label : Option LabelSet} {type : Int} {cur parent parent' : SRState}
      {above : List SRState} : th.currentSRState.secrecySet = .empty →
      th.parents = parent :: above → dropFrom th.currentSRState label type = some cur →
      dropFrom parent label type = some parent' →
      ChainEffect th c { th with currentSRState := cur, parents := parent' :: above }
  /-- a capability is created, for the current state -/
  | create {type region : Int} {osLabel : Label} :
      c = .createCapability type region osLabel → th.currentSRState.secrecySet = .empty →
      ChainEffect th c (th.modify (addTo · type osLabel))
  /-- or also for its parent -/
  | createSelf {type : Int} {osLabel : Label} {parent : SRState} {above : List SRState} :
      c = .createCapability type regionSelf osLabel → th.currentSRState.secrecySet = .empty →
      th.parents = parent :: above →
      ChainEffect th c
        { th.modify (addTo · type osLabel) with parents := addTo parent type osLabel :: above }
  /-- or also for all threads -/
  | createGroup {type : Int} {osLabel : Label} :
      c = .createCapability type regionGroup osLabel → th.currentSRState.secrecySet = .empty →
      ChainEffect th c ((th.modify (addTo · type osLabel)).addCommon type osLabel)
  /-- the thread is given capabilities -/
  | grant {capability : LabelSet} {type : Int} :
      c = .initializeThreadCapability capability type → th.inSecureRegion = false →
      ChainEffect th c (th.modify fun cur =>
        { cur with
          plusCapabilitySet := if hasPlus type then capability else cur.plusCapabilitySet
          minusCapabilitySet := if hasMinus type then capability else cur.minusCapabilitySet })
  /-- allocation labels are set -/
  | allocation (sSet iSet : Option LabelSet) :
      ChainEffect th c (th.setAllocationLabelsInternal sSet iSet)
  /-- the labels are passed to the operating system -/
  | pass {err : Int} : c = .osPassCurrentLabels err → th.inSecureRegion = true →
      ChainEffect th c (th.modify fun cur => { cur with restoreLabels := true })

/-- A drop changes nothing but the two capability sets, and takes out of each what its
type says. -/
theorem dropFrom_spec {s s' : SRState} {label : Option LabelSet} {type : Int}
    (h : dropFrom s label type = some s') :
    ∃ plus minus, s' = { s with plusCapabilitySet := plus, minusCapabilitySet := minus } ∧
      (∀ l, l ∈ plus ↔ l ∈ s.plusCapabilitySet ∧
        ¬ (hasPlus type = true ∧ ∃ dropped ∈ label, l ∈ dropped)) ∧
      (∀ l, l ∈ minus ↔ l ∈ s.minusCapabilitySet ∧
        ¬ (hasMinus type = true ∧ ∃ dropped ∈ label, l ∈ dropped)) := by
  have hset : ∀ {cond : Bool} {old new : LabelSet}, minusIf cond old label = some new →
      ∀ l, l ∈ new ↔ l ∈ old ∧ ¬ (cond = true ∧ ∃ dropped ∈ label, l ∈ dropped) := by
    intro cond old new hnew l
    cases cond with
    | false =>
        cases hnew
        simp
    | true =>
        cases label with
        | none =>
            rw [minusIf, if_pos rfl, minusOrNull] at hnew
            split at hnew
            · cases hnew
              simp
            · cases hnew
        | some dropped =>
            cases hnew
            simp [LabelSet.mem_minus]
  obtain ⟨plus, hplus, h⟩ := Option.bind_eq_some_iff.1 h
  obtain ⟨minus, hminus, h⟩ := Option.bind_eq_some_iff.1 h
  cases h
  exact ⟨plus, minus, rfl, hset hplus, hset hminus⟩

section Cases

variable (th : GreenThread) (c : LabelCall)

private theorem addLabel_chain (kind : LabelKind) (lacks outside : String)
    (label : Option LabelSet) : ChainEffect th c (addLabel kind lacks outside th label).2 := by
  cases label with
  | none => exact .refl
  | some label =>
      rw [addLabel]
      split
      · rename_i hin
        split
        · exact .refl
        · exact .assign kind _ hin
      · exact .refl

private theorem removeLabel_chain (kind : LabelKind) (message : String)
    (label : Option LabelSet) : ChainEffect th c (removeLabel kind message th label).2 := by
  unfold removeLabel
  split
  · rename_i hin
    cases label with
    | none => exact .refl
    | some label =>
        dsimp only
        split
        · exact .assign kind _ hin
        · exact .refl
  · exact .refl

/-- A drop from the current state changes nothing unless it returns. -/
theorem dropCapability_cases (label : Option LabelSet) (type : Int) :
    (∃ cur, dropFrom th.currentSRState label type = some cur ∧
        th.dropCapability label type = (.returned, { th with currentSRState := cur })) ∨
      ((th.dropCapability label type).1 ≠ .returned ∧ (th.dropCapability label type).2 = th) := by
  unfold dropCapability
  split
  · exact .inr ⟨by simp, rfl⟩
  split
  · exact .inr ⟨by simp, rfl⟩
  · rename_i cur hcur
    exact .inl ⟨cur, hcur, rfl⟩

private theorem dropThreadCapability_chain (label : Option LabelSet) (type : Int) :
    ChainEffect th c (th.dropThreadCapability label type).2 := by
  unfold dropThreadCapability
  split
  · exact .refl
  rename_i hsecret
  have hempty : th.currentSRState.secrecySet = .empty := Decidable.not_not.1 hsecret
  rcases th.dropCapability_cases label type with ⟨cur, hcur, hdrop⟩ | ⟨hthrown, hsame⟩
  · rw [hdrop]
    dsimp only
    split
    · unfold dropFromParent
      dsimp only
      split
      · exact .drop hcur
      rename_i parent above hparents
      split
      · exact .drop hcur
      · rename_i parent' hparent
        exact .dropBoth hempty hparents hcur hparent
    · exact .drop hcur
  · split
    · rename_i th' hdrop
      rw [hdrop] at hthrown
      exact absurd rfl hthrown
    · rw [hsame]
      exact .refl

private theorem createCapability_chain (type region : Int) (osLabel : Label) :
    ChainEffect th (.createCapability type region osLabel)
      (th.createCapability type region osLabel).2 := by
  unfold createCapability
  split
  · exact .refl
  rename_i hsecret
  have hempty : th.currentSRState.secrecySet = .empty := Decidable.not_not.1 hsecret
  split
  · exact .refl
  split
  · exact .refl
  dsimp only
  split
  · exact .create rfl hempty
  rename_i th' hself
  split at hself
  · rename_i hregion
    obtain rfl : region = regionSelf := of_decide_eq_true (Bool.and_eq_true_iff.1 hregion).2
    unfold addToParent at hself
    split at hself
    · cases hself
    · rename_i parent above hparents
      cases hself
      rw [if_neg (by decide)]
      exact .createSelf rfl hempty hparents
  · cases hself
    split
    · rename_i hregion
      subst hregion
      exact .createGroup rfl hempty
    · exact .create rfl hempty

/-- There is nothing else that a call does. -/
theorem labelCall_chain : ChainEffect th c (th.labelCall c).2 := by
  cases c with
  | addSecrecyLabel label => exact addLabel_chain th _ _ _ _ label
  | addIntegrityLabel label => exact addLabel_chain th _ _ _ _ label
  | removeSecrecyLabel label => exact removeLabel_chain th _ _ _ label
  | removeIntegrityLabel label => exact removeLabel_chain th _ _ _ label
  | dropCapability label type =>
      rw [labelCall]
      rcases th.dropCapability_cases label type with ⟨cur, hcur, hdrop⟩ | ⟨_, hsame⟩
      · rw [hdrop]
        exact .drop hcur
      · rw [hsame]
        exact .refl
  | dropThreadCapability label type => exact dropThreadCapability_chain th _ label type
  | createCapability type region osLabel => exact createCapability_chain th type region osLabel
  | initializeThreadCapability capability type =>
      rw [labelCall, initializeThreadCapability]
      split
      · rename_i hin
        exact .grant rfl (by simpa using hin)
      · exact .refl
  | setAllocationLabels sSet iSet => exact .allocation sSet iSet
  | resetAllocationLabels => exact .allocation none none
  | osPassCurrentLabels err =>
      rw [labelCall, osPassCurrentLabels]
      split
      · rename_i hin
        exact .pass rfl (Bool.and_eq_true_iff.1 hin).1
      · exact .refl

end Cases

/-! ## Nesting -/

theorem nested_new : new.Nested := by
  intro hin
  cases hin

/-- Whatever a thread calls, inside a region there is a parent. -/
theorem nested_call {th : GreenThread} (h : th.Nested) (c : ThreadCall) :
    (th.call c).2.Nested := by
  cases c with
  | start s =>
      have hparents : (th.start s).2.parents ≠ [] := by
        cases hallowed : th.startAllowed s with
        | true =>
            rw [start_allowed hallowed]
            simp
        | false =>
            obtain ⟨error, hstart⟩ := start_refused hallowed
            rw [hstart]
            simp
      exact fun _ => hparents
  | endSecureRegion =>
      rcases end_chain h with ⟨_, hend⟩ | ⟨_, parent, above, hparents, hend⟩
      · rw [call, hend]
        exact h
      · rw [call, hend]
        intro hin
        simpa using hin
  | labels c =>
      have hsame := th.labelCall_sameRegion c
      intro hin
      show (th.labelCall c).2.parents ≠ []
      intro hnil
      have hids := hsame.parents
      rw [hnil, List.map_nil] at hids
      exact h (hsame.inRegion.symm.trans hin) (List.map_eq_nil_iff.1 hids.symm)

end GreenThread

/-! ## Several threads -/

section Threads

variable {ι : Type} [DecidableEq ι]

/-- Store thread `t`; its common sets are the common sets of all threads. -/
def setThread (threads : ι → GreenThread) (t : ι) (th : GreenThread) (u : ι) : GreenThread :=
  if u = t then th
  else { threads u with
    commonPlusCapabilitySet := th.commonPlusCapabilitySet
    commonMinusCapabilitySet := th.commonMinusCapabilitySet }

@[simp] theorem setThread_self (threads : ι → GreenThread) (t : ι) (th : GreenThread) :
    setThread threads t th t = th := if_pos rfl

/-- The regions of the other threads are left alone. -/
theorem setThread_ne (threads : ι → GreenThread) {t u : ι} (th : GreenThread) (h : u ≠ t) :
    (setThread threads t th u).chain = (threads u).chain ∧
      (setThread threads t th u).inSecureRegion = (threads u).inSecureRegion := by
  rw [setThread, if_neg h]
  exact ⟨rfl, rfl⟩

end Threads

end Laminar.Vm
