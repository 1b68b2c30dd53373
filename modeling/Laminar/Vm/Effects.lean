import Laminar.Vm.Difc

/-!
# What the calls of a thread do

A start enters a child, with the labels asked for or with empty ones.  Every other
call leaves the chain of states and the flag alone and changes the labels of the
current state only by adding labels of the plus set or removing labels of the minus
set (`labelCall_effect`).  The proofs about runs use these lemmas and not the code.
-/

namespace Laminar.Vm

/-! ## Starts -/

/-- The labels and capabilities a start asks for. -/
structure RegionArgs where
  plusCapabilitySet : LabelSet
  minusCapabilitySet : LabelSet
  secrecySet : LabelSet
  integritySet : LabelSet

def Start.args : Start → RegionArgs
  | .startSecureRegion secrecySet integritySet =>
      ⟨.empty, .empty, GreenThread.orEmpty secrecySet, GreenThread.orEmpty integritySet⟩
  | .startSecureRegionDecEnd secrecySet integritySet plusCapabilitySet minusCapabilitySet =>
      ⟨GreenThread.orEmpty plusCapabilitySet, GreenThread.orEmpty minusCapabilitySet,
        GreenThread.orEmpty secrecySet, GreenThread.orEmpty integritySet⟩

/-- The labels of one kind a start asks for. -/
def RegionArgs.set (args : RegionArgs) : LabelKind → LabelSet
  | .secrecy => args.secrecySet
  | .integrity => args.integritySet

/-- The state of the region a start asks for. -/
def RegionArgs.fill (args : RegionArgs) (child : SRState) : SRState :=
  child.setState args.plusCapabilitySet args.minusCapabilitySet args.secrecySet
    args.integritySet false none none

namespace GreenThread

/-- The start passes the six checks. -/
def startAllowed (th : GreenThread) (s : Start) : Bool :=
  (th.startError s.args.plusCapabilitySet s.args.minusCapabilitySet s.args.secrecySet
    s.args.integritySet).isNone

theorem start_eq_helper (th : GreenThread) (s : Start) :
    th.start s = th.startSecureRegionHelper s.args.plusCapabilitySet
      s.args.minusCapabilitySet s.args.secrecySet s.args.integritySet := by
  cases s <;> rfl

/-- An allowed start. -/
theorem start_allowed {th : GreenThread} {s : Start} (h : th.startAllowed s = true) :
    th.start s = (.returned, { th.enterChild s.args.fill with inSecureRegion := true }) := by
  rw [start_eq_helper, startSecureRegionHelper, Option.isNone_iff_eq_none.1 h]
  rfl

/-- A refused start. -/
theorem start_refused {th : GreenThread} {s : Start} (h : th.startAllowed s = false) :
    ∃ error, th.start s = (.difcException error, th.enterChild SRState.clearState) := by
  rw [start_eq_helper, startSecureRegionHelper]
  unfold startAllowed at h
  split
  · rename_i error _
    exact ⟨error, rfl⟩
  · rename_i herror
    simp [herror] at h

/-- What the six checks say. -/
private theorem startAllowed_checks {th : GreenThread} {s : Start} (h : th.startAllowed s = true) :
    ((∀ l ∈ s.args.secrecySet, l ∈ th.plusCap ∨ l ∈ th.currentSRState.secrecySet) ∧
      ∀ l ∈ th.currentSRState.secrecySet, l ∈ th.minusCap ∨ l ∈ s.args.secrecySet) ∧
    ((∀ l ∈ s.args.integritySet, l ∈ th.plusCap ∨ l ∈ th.currentSRState.integritySet) ∧
      ∀ l ∈ th.currentSRState.integritySet, l ∈ th.minusCap ∨ l ∈ s.args.integritySet) ∧
    (∀ l ∈ s.args.plusCapabilitySet, l ∈ th.plusCap) ∧
      ∀ l ∈ s.args.minusCapabilitySet, l ∈ th.minusCap := by
  simp only [startAllowed, startError, Option.isNone_iff_eq_none] at h
  iterate 6
    split at h
    · simp at h
  rename_i hsecAdd hsecRemove hintAdd hintRemove hplus hminus
  simp only [Bool.not_eq_true', Bool.not_eq_false, LabelSet.checkInUnion_iff,
    LabelSet.isSubsetOf_iff] at hsecAdd hsecRemove hintAdd hintRemove hplus hminus
  exact ⟨⟨hsecAdd, hsecRemove⟩, ⟨hintAdd, hintRemove⟩, hplus, hminus⟩

/-- What the checks on labels say. -/
theorem startAllowed_set {th : GreenThread} {s : Start} (h : th.startAllowed s = true)
    (kind : LabelKind) :
    (∀ l ∈ s.args.set kind, l ∈ th.plusCap ∨ l ∈ th.currentSRState.set kind) ∧
      ∀ l ∈ th.currentSRState.set kind, l ∈ th.minusCap ∨ l ∈ s.args.set kind := by
  cases kind with
  | secrecy => exact (startAllowed_checks h).1
  | integrity => exact (startAllowed_checks h).2.1

/-- What the checks on capabilities say. -/
theorem startAllowed_capabilities {th : GreenThread} {s : Start} (h : th.startAllowed s = true) :
    (∀ l ∈ s.args.plusCapabilitySet, l ∈ th.plusCap) ∧
      ∀ l ∈ s.args.minusCapabilitySet, l ∈ th.minusCap :=
  (startAllowed_checks h).2.2

@[simp] theorem parents_enterChild (th : GreenThread) (fill : SRState → SRState) :
    (th.enterChild fill).parents = th.currentSRState :: th.parents := by
  unfold enterChild
  split <;> rfl

@[simp] theorem inSecureRegion_enterChild (th : GreenThread) (fill : SRState → SRState) :
    (th.enterChild fill).inSecureRegion = th.inSecureRegion := by
  unfold enterChild
  split <;> rfl

theorem currentSRState_enterChild (th : GreenThread) (fill : SRState → SRState) :
    ∃ child, (th.enterChild fill).currentSRState = fill child := by
  unfold enterChild
  split
  · exact ⟨_, rfl⟩
  · exact ⟨_, rfl⟩

/-! ## The other calls -/

/-- The current state is the same object, at the same place, and the flag is as
before. -/
structure SameRegion (th th' : GreenThread) : Prop where
  current : th'.currentSRState.id = th.currentSRState.id
  parents : th'.parents.map SRState.id = th.parents.map SRState.id
  inRegion : th'.inSecureRegion = th.inSecureRegion

theorem SameRegion.refl (th : GreenThread) : SameRegion th th := ⟨rfl, rfl, rfl⟩

theorem SameRegion.trans {th₁ th₂ th₃ : GreenThread} (h : SameRegion th₁ th₂)
    (h' : SameRegion th₂ th₃) : SameRegion th₁ th₃ :=
  ⟨h'.current.trans h.current, h'.parents.trans h.parents, h'.inRegion.trans h.inRegion⟩

/-- What a call other than a start and an end can do to regions and labels. -/
inductive LabelEffect (th : GreenThread) : GreenThread → Prop
  | same {th' : GreenThread} : SameRegion th th' →
      (∀ kind, th'.currentSRState.set kind = th.currentSRState.set kind) → LabelEffect th th'
  | add (kind : LabelKind) {label : LabelSet} : th.inSecureRegion = true →
      label.isSubsetOf th.currentSRState.plusCapabilitySet = true →
      LabelEffect th (th.modify fun cur => cur.assign kind (.union (cur.set kind) label))
  | remove (kind : LabelKind) {label : LabelSet} : th.inSecureRegion = true →
      label.isSubsetOf th.currentSRState.minusCapabilitySet = true →
      LabelEffect th (th.modify fun cur => cur.assign kind (.minus (cur.set kind) label))

section Effects

variable (th : GreenThread)

private theorem LabelEffect.refl : LabelEffect th th := .same (.refl th) fun _ => rfl

private theorem addLabel_effect (kind : LabelKind) (lacks outside : String)
    (label : Option LabelSet) : LabelEffect th (addLabel kind lacks outside th label).2 := by
  cases label with
  | none => exact .refl th
  | some label =>
      rw [addLabel]
      split
      · rename_i hin
        split
        · exact .refl th
        · rename_i hsub
          exact .add kind hin (by simpa using hsub)
      · exact .refl th

private theorem removeLabel_effect (kind : LabelKind) (message : String)
    (label : Option LabelSet) : LabelEffect th (removeLabel kind message th label).2 := by
  unfold removeLabel
  split
  · rename_i hin
    cases label with
    | none => exact .refl th
    | some label =>
        dsimp only
        split
        · rename_i hsub
          exact .remove kind hin hsub
        · exact .refl th
  · exact .refl th

/-- What dropping does to a state: nothing but its capability sets. -/
private theorem dropFrom_frame {s s' : SRState} {label : Option LabelSet} {type : Int}
    (h : dropFrom s label type = some s') : s'.id = s.id ∧ ∀ kind, s'.set kind = s.set kind := by
  obtain ⟨plus, -, h⟩ := Option.bind_eq_some_iff.1 h
  obtain ⟨minus, -, h⟩ := Option.bind_eq_some_iff.1 h
  obtain rfl := Option.some.inj h
  exact ⟨rfl, fun kind => by cases kind <;> rfl⟩

private theorem dropCapability_effect (label : Option LabelSet) (type : Int) :
    SameRegion th (th.dropCapability label type).2 ∧
      ∀ kind, (th.dropCapability label type).2.currentSRState.set kind =
        th.currentSRState.set kind := by
  unfold dropCapability
  split
  · exact ⟨.refl th, fun _ => rfl⟩
  split
  · exact ⟨.refl th, fun _ => rfl⟩
  · rename_i cur hcur
    obtain ⟨hid, hset⟩ := dropFrom_frame hcur
    exact ⟨⟨hid, rfl, rfl⟩, hset⟩

private theorem dropFromParent_effect (label : Option LabelSet) (type : Int) :
    SameRegion th (th.dropFromParent label type).2 ∧
      (th.dropFromParent label type).2.currentSRState = th.currentSRState := by
  unfold dropFromParent
  split
  · exact ⟨.refl th, rfl⟩
  rename_i parent above hparents
  split
  · exact ⟨.refl th, rfl⟩
  · rename_i parent' hdrop
    refine ⟨⟨rfl, ?_, rfl⟩, rfl⟩
    simp only [hparents, List.map_cons, (dropFrom_frame hdrop).1]

private theorem dropThreadCapability_effect (label : Option LabelSet) (type : Int) :
    LabelEffect th (th.dropThreadCapability label type).2 := by
  obtain ⟨hregion, hset⟩ := dropCapability_effect th label type
  unfold dropThreadCapability
  split
  · exact .refl th
  split
  · rename_i th' hdrop
    rw [hdrop] at hregion hset
    split
    · obtain ⟨hregion', hcur⟩ := dropFromParent_effect th' label type
      exact .same (hregion.trans hregion') fun kind => by rw [hcur]; exact hset kind
    · exact .same hregion hset
  · exact .same hregion hset

private theorem createCapability_effect (type region : Int) (osLabel : Label) :
    LabelEffect th (th.createCapability type region osLabel).2 := by
  unfold createCapability
  split
  · exact .refl th
  split
  · exact .refl th
  split
  · exact .refl th
  dsimp only
  split
  · exact .same ⟨rfl, rfl, rfl⟩ fun kind => by cases kind <;> rfl
  rename_i th' hself
  have heffect : SameRegion th th' ∧
      ∀ kind, th'.currentSRState.set kind = th.currentSRState.set kind := by
    split at hself
    · unfold addToParent at hself
      split at hself
      · simp at hself
      · rename_i parent above hparents
        obtain rfl := Option.some.inj hself
        refine ⟨⟨rfl, ?_, rfl⟩, fun kind => by cases kind <;> rfl⟩
        exact (congrArg (List.map SRState.id) hparents).symm
    · obtain rfl := Option.some.inj hself
      exact ⟨⟨rfl, rfl, rfl⟩, fun kind => by cases kind <;> rfl⟩
  split
  · exact .same ⟨heffect.1.current, heffect.1.parents, heffect.1.inRegion⟩ heffect.2
  · exact .same heffect.1 heffect.2

/-- Everything such a call does to regions and labels is one of the effects. -/
theorem labelCall_effect (c : LabelCall) : LabelEffect th (th.labelCall c).2 := by
  cases c with
  | addSecrecyLabel label => exact addLabel_effect th _ _ _ label
  | addIntegrityLabel label => exact addLabel_effect th _ _ _ label
  | removeSecrecyLabel label => exact removeLabel_effect th _ _ label
  | removeIntegrityLabel label => exact removeLabel_effect th _ _ label
  | dropCapability label type =>
      obtain ⟨hregion, hset⟩ := dropCapability_effect th label type
      exact .same hregion hset
  | dropThreadCapability label type => exact dropThreadCapability_effect th label type
  | createCapability type region osLabel => exact createCapability_effect th type region osLabel
  | initializeThreadCapability capability type =>
      rw [labelCall, initializeThreadCapability]
      split
      · exact .same ⟨rfl, rfl, rfl⟩ fun kind => by cases kind <;> rfl
      · exact .refl th
  | setAllocationLabels sSet iSet =>
      exact .same ⟨rfl, rfl, rfl⟩ fun kind => by cases kind <;> rfl
  | resetAllocationLabels =>
      exact .same ⟨rfl, rfl, rfl⟩ fun kind => by cases kind <;> rfl
  | osPassCurrentLabels err =>
      rw [labelCall, osPassCurrentLabels]
      split
      · exact .same ⟨rfl, rfl, rfl⟩ fun kind => by cases kind <;> rfl
      · exact .refl th

/-- None of them leaves the region. -/
theorem labelCall_sameRegion (c : LabelCall) : SameRegion th (th.labelCall c).2 := by
  have heffect := labelCall_effect th c
  generalize (th.labelCall c).2 = th' at heffect
  cases heffect with
  | same hregion _ => exact hregion
  | add kind _ _ => exact ⟨by cases kind <;> rfl, rfl, rfl⟩
  | remove kind _ _ => exact ⟨by cases kind <;> rfl, rfl, rfl⟩

end Effects

end GreenThread

end Laminar.Vm
