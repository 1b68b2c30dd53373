import Laminar.Vm.Capabilities

/-!
# Where a dropped capability can come back from

`dropThreadCapability` writes to the current state and, inside a region, to its parent.
The states further up and the common sets keep the capability, and a thread returns to
those states by ending regions.  A thread that a refused start has left in a dummy state
outside every region returns to its own state too, by one more start.

`staysDropped_iff` says that a drop is final if and only if none of these has the
capability.
-/

namespace Laminar.Vm

open Laminar.Lib

namespace GreenThread

/-- The call may give the thread capabilities. -/
def Regains : ThreadCall → Prop
  | .labels (.createCapability _ _ _) => True
  | .labels (.initializeThreadCapability _ _) => True
  | _ => False

/-- The label is among the dropped ones, for this kind of capability. -/
def Drops (label : Option LabelSet) (type : Int) (kind : CapabilityKind) (l : Label) : Prop :=
  includes type kind = true ∧ ∃ dropped ∈ label, l ∈ dropped

/-- Whatever the thread does without regaining capabilities, the dropped ones are not in
force. -/
def StaysDropped (th : GreenThread) (label : Option LabelSet) (type : Int) : Prop :=
  ∀ calls th', Run step (fun _ c => ¬ Regains c) th calls th' →
    ∀ kind l, Drops label type kind l → l ∉ th'.capabilitiesInForce kind

/-- The states that `dropThreadCapability` leaves alone. -/
def beyond (th : GreenThread) : List SRState :=
  if th.inSecureRegion then th.parents.tail else th.parents

/-- No state that the drop leaves alone has the capability, nor have all threads. -/
def HeldNowhereElse (th : GreenThread) (label : Option LabelSet) (type : Int) : Prop :=
  ∀ kind l, Drops label type kind l →
    (∀ s ∈ th.beyond, l ∉ s.capabilitySet kind) ∧ l ∉ th.commonCapabilitySet kind

/-! ## The drop -/

/-- What a drop that returns has done. -/
theorem dropThreadCapability_returned {th th' : GreenThread} {label : Option LabelSet}
    {type : Int} (h : th.dropThreadCapability label type = (.returned, th')) :
    ∃ cur, dropFrom th.currentSRState label type = some cur ∧
      (th.inSecureRegion = false ∧ th' = { th with currentSRState := cur } ∨
        th.inSecureRegion = true ∧ ∃ parent parent' above, th.parents = parent :: above ∧
          dropFrom parent label type = some parent' ∧
          th' = { th with currentSRState := cur, parents := parent' :: above }) := by
  unfold dropThreadCapability at h
  split at h
  · cases h
  rcases th.dropCapability_cases label type with ⟨cur, hcur, hdrop⟩ | ⟨hthrown, -⟩
  · rw [hdrop] at h
    dsimp only at h
    refine ⟨cur, hcur, ?_⟩
    split at h
    · rename_i hin
      unfold dropFromParent at h
      dsimp only at h
      split at h
      · cases h
      rename_i parent above hparents
      split at h
      · cases h
      · rename_i parent' hparent
        cases h
        exact .inr ⟨hin, parent, parent', above, hparents, hparent, rfl⟩
    · rename_i hout
      cases h
      exact .inl ⟨by simpa using hout, rfl⟩
  · split at h
    · rename_i hdrop
      rw [hdrop] at hthrown
      exact absurd rfl hthrown
    · rename_i hdrop
      rw [h] at hthrown
      exact absurd rfl hthrown

/-! ## A capability that is nowhere stays away -/

/-- No state of the chain has the capability, nor have all threads. -/
structure Lacks (kind : CapabilityKind) (l : Label) (th : GreenThread) : Prop where
  chain : ∀ s ∈ th.chain, l ∉ s.capabilitySet kind
  common : l ∉ th.commonCapabilitySet kind

section Lacks

variable {kind : CapabilityKind} {l : Label} {th : GreenThread}

theorem Lacks.not_inForce (h : Lacks kind l th) : l ∉ th.capabilitiesInForce kind := by
  intro hl
  rcases mem_capabilitiesInForce.1 hl with hcurrent | ⟨-, hcommon⟩
  · exact h.chain _ List.mem_cons_self hcurrent
  · exact h.common hcommon

theorem Lacks.of_start (h : Lacks kind l th) (s : Start) : Lacks kind l (th.start s).2 := by
  obtain ⟨child, hchain, hcommon, hchild⟩ := th.start_chain s
  constructor
  · rw [hchain, List.forall_mem_cons]
    refine ⟨?_, h.chain⟩
    intro hl
    exact h.not_inForce (hchild kind l hl)
  · rw [hcommon]
    exact h.common

theorem Lacks.of_end (h : Lacks kind l th) : Lacks kind l th.endSecureRegion.2 := by
  unfold endSecureRegion
  split
  · exact h
  split
  · exact h
  · rename_i parent above hparents
    refine ⟨?_, h.common⟩
    intro s hs
    apply h.chain s
    rw [GreenThread.chain, hparents]
    exact List.mem_cons_of_mem _ hs

/-- What a call gives: a created capability, or those of the thread's initialization. -/
def Gives (c : LabelCall) (kind : CapabilityKind) (l : Label) : Prop :=
  (∃ type region, c = .createCapability type region l ∧ includes type kind = true) ∨
    ∃ capability type, c = .initializeThreadCapability capability type

private theorem not_mem_addTo {s : SRState} {c : LabelCall} {type region : Int} {osLabel : Label}
    (hc : ¬ Gives c kind l) (hcall : c = .createCapability type region osLabel)
    (hs : l ∉ s.capabilitySet kind) : l ∉ (addTo s type osLabel).capabilitySet kind := by
  intro hl
  rcases mem_addTo.1 hl with hl | ⟨hkind, rfl⟩
  · exact hs hl
  · exact hc (.inl ⟨type, region, hcall, hkind⟩)

/-- The other calls take capabilities away, except those they give. -/
theorem ChainEffect.lacks {c : LabelCall} {th' : GreenThread} (heffect : ChainEffect th c th')
    (hc : ¬ Gives c kind l) (h : Lacks kind l th) : Lacks kind l th' := by
  obtain ⟨hcurrent, hparents⟩ := List.forall_mem_cons.1 h.chain
  cases heffect with
  | refl => exact h
  | assign labels set _ =>
      refine ⟨List.forall_mem_cons.2 ⟨?_, hparents⟩, h.common⟩
      rw [modify, capabilitySet_assign]
      exact hcurrent
  | drop hcur =>
      refine ⟨List.forall_mem_cons.2 ⟨?_, hparents⟩, h.common⟩
      intro hl
      exact hcurrent ((mem_dropFrom hcur).1 hl).1
  | @dropBoth label type cur parent parent' above _ hold hcur hparent =>
      rw [hold, List.forall_mem_cons] at hparents
      refine ⟨List.forall_mem_cons.2 ⟨?_, List.forall_mem_cons.2 ⟨?_, hparents.2⟩⟩, h.common⟩
      · intro hl
        exact hcurrent ((mem_dropFrom hcur).1 hl).1
      · intro hl
        exact hparents.1 ((mem_dropFrom hparent).1 hl).1
  | create hcall _ =>
      exact ⟨List.forall_mem_cons.2 ⟨not_mem_addTo hc hcall hcurrent, hparents⟩, h.common⟩
  | createSelf hcall _ hold =>
      rw [hold, List.forall_mem_cons] at hparents
      exact ⟨List.forall_mem_cons.2 ⟨not_mem_addTo hc hcall hcurrent,
        List.forall_mem_cons.2 ⟨not_mem_addTo hc hcall hparents.1, hparents.2⟩⟩, h.common⟩
  | createGroup hcall _ =>
      refine ⟨List.forall_mem_cons.2 ⟨not_mem_addTo hc hcall hcurrent, hparents⟩, fun hl => ?_⟩
      rcases mem_addCommon.1 hl with hl | ⟨hkind, rfl⟩
      · exact h.common hl
      · exact hc (.inl ⟨_, _, hcall, hkind⟩)
  | grant hcall _ => exact absurd (.inr ⟨_, _, hcall⟩) hc
  | allocation sSet iSet =>
      refine ⟨List.forall_mem_cons.2 ⟨?_, hparents⟩, h.common⟩
      cases kind <;> exact hcurrent
  | pass _ _ =>
      refine ⟨List.forall_mem_cons.2 ⟨?_, hparents⟩, h.common⟩
      cases kind <;> exact hcurrent

theorem not_gives_of_not_regains {c : LabelCall} (hc : ¬ Regains (.labels c)) :
    ¬ Gives c kind l := by
  rintro (⟨type, region, rfl, -⟩ | ⟨capability, type, rfl⟩)
  · exact hc trivial
  · exact hc trivial

theorem Lacks.of_run (h : Lacks kind l th) {calls : List ThreadCall} {th' : GreenThread}
    (hrun : Run step (fun _ c => ¬ Regains c) th calls th') : Lacks kind l th' := by
  refine hrun.invariant h ?_
  intro th c th' h hc hstep
  cases hstep
  cases c with
  | start s => exact h.of_start s
  | endSecureRegion => exact h.of_end
  | labels c => exact (th.labelCall_chain c).lacks (not_gives_of_not_regains hc) h

end Lacks

/-! ## Labels outside regions -/

/-- The labels along the chain. -/
def labelsOf (th : GreenThread) : List (LabelSet × LabelSet) :=
  th.chain.map fun s => (s.secrecySet, s.integritySet)

/-- Outside every region no state of the chain has labels, and the state of the thread
itself never has. -/
structure LabeledInside (th : GreenThread) : Prop where
  nested : th.Nested
  outside : th.inSecureRegion = false → ∀ labels ∈ labelsOf th, labels = (.empty, .empty)
  root : (labelsOf th).getLast? = some (.empty, .empty)

theorem labeledInside_new : LabeledInside new := by
  refine ⟨nested_new, ?_, rfl⟩
  intro _ labels hmem
  exact List.mem_singleton.1 hmem

theorem LabeledInside.of_start {th : GreenThread} (h : LabeledInside th) (s : Start) :
    LabeledInside (th.start s).2 := by
  refine ⟨nested_call h.nested (.start s), ?_, ?_⟩
  · intro hout
    cases hallowed : th.startAllowed s with
    | true =>
        rw [start_allowed hallowed] at hout
        cases hout
    | false =>
        obtain ⟨error, hstart⟩ := start_refused hallowed
        obtain ⟨child, hchild⟩ := th.chain_enterChild SRState.clearState
        rw [hstart] at hout ⊢
        rw [labelsOf, hchild, List.map_cons, List.forall_mem_cons]
        exact ⟨rfl, h.outside ((th.inSecureRegion_enterChild _).symm.trans hout)⟩
  · obtain ⟨child, hchain, -⟩ := th.start_chain s
    have hroot := h.root
    rw [labelsOf, chain, List.map_cons] at hroot
    rw [labelsOf, hchain, chain, List.map_cons, List.map_cons, List.getLast?_cons_cons]
    exact hroot

theorem LabeledInside.of_end {th : GreenThread} (h : LabeledInside th) :
    LabeledInside th.endSecureRegion.2 := by
  rcases end_chain h.nested with ⟨-, hend⟩ | ⟨-, parent, above, hparents, hend⟩
  · rw [hend]
    exact h
  · have hroot := h.root
    rw [labelsOf, chain, hparents, List.map_cons, List.map_cons, List.getLast?_cons_cons] at hroot
    refine ⟨nested_call h.nested .endSecureRegion, ?_, ?_⟩
    · rw [hend]
      intro hout labels hmem
      -- the thread is back in its own state
      have habove : above = [] := by simpa using hout
      subst habove
      rw [List.mem_singleton.1 hmem]
      exact Option.some.inj hroot
    · rw [hend]
      exact hroot

/-- Outside every region a call leaves all labels alone, and inside those of the parents. -/
theorem ChainEffect.labelsOf_eq {th th' : GreenThread} {c : LabelCall}
    (h : ChainEffect th c th') :
    labelsOf th' = labelsOf th ∨ th.inSecureRegion = true ∧ th'.parents = th.parents := by
  cases h with
  | refl => exact .inl rfl
  | assign kind labels hin => exact .inr ⟨hin, rfl⟩
  | drop hcur =>
      obtain ⟨plus, minus, rfl, -⟩ := dropFrom_spec hcur
      exact .inl rfl
  | dropBoth _ hparents hcur hparent =>
      obtain ⟨plus, minus, rfl, -⟩ := dropFrom_spec hcur
      obtain ⟨plus', minus', rfl, -⟩ := dropFrom_spec hparent
      left
      rw [labelsOf, labelsOf, chain, chain, hparents]
      rfl
  | create _ _ => exact .inl rfl
  | createSelf _ _ hparents =>
      left
      rw [labelsOf, labelsOf, chain, chain, hparents]
      rfl
  | createGroup _ _ => exact .inl rfl
  | grant _ _ => exact .inl rfl
  | allocation sSet iSet => exact .inl rfl
  | pass _ _ => exact .inl rfl

theorem LabeledInside.of_labelCall {th : GreenThread} (h : LabeledInside th) (c : LabelCall) :
    LabeledInside (th.labelCall c).2 := by
  have hregion := (th.labelCall_sameRegion c).inRegion
  have hnested := nested_call h.nested (.labels c)
  rcases (th.labelCall_chain c).labelsOf_eq with hlabels | ⟨hin, hparents⟩
  · refine ⟨hnested, ?_, ?_⟩
    · rw [hlabels, hregion]
      exact h.outside
    · rw [hlabels]
      exact h.root
  · refine ⟨hnested, ?_, ?_⟩
    · rw [hregion, hin]
      intro hout
      cases hout
    · obtain ⟨parent, above, hold⟩ := List.exists_cons_of_ne_nil (h.nested hin)
      have hroot := h.root
      rw [labelsOf, chain, hold, List.map_cons, List.map_cons, List.getLast?_cons_cons] at hroot
      rw [labelsOf, chain, hparents, hold, List.map_cons, List.map_cons,
        List.getLast?_cons_cons]
      exact hroot

theorem labeledInside_of_run {calls : List ThreadCall} {th : GreenThread}
    (hrun : Run step (fun _ _ => True) new calls th) : LabeledInside th := by
  refine hrun.invariant labeledInside_new ?_
  intro th c th' h _ hstep
  cases hstep
  cases c with
  | start s => exact h.of_start s
  | endSecureRegion => exact h.of_end
  | labels c => exact h.of_labelCall c

/-- A state without labels may start a region without labels. -/
theorem startAllowed_unlabeled {th : GreenThread} (hsecrecy : th.currentSRState.secrecySet = .empty)
    (hintegrity : th.currentSRState.integritySet = .empty) :
    th.startAllowed (.startSecureRegion none none) = true := by
  have hunion : ∀ first second, LabelSet.checkInUnion .empty first second = true := by
    intro first second
    rw [LabelSet.checkInUnion_iff]
    intro l hl
    exact absurd hl (LabelSet.not_mem_empty l)
  have hsubset : ∀ other, LabelSet.isSubsetOf .empty other = true := by
    intro other
    rw [LabelSet.isSubsetOf_iff]
    intro l hl
    exact absurd hl (LabelSet.not_mem_empty l)
  simp [startAllowed, startError, Start.args, orEmpty, hsecrecy, hintegrity, hunion, hsubset]

/-! ## Ways back -/

/-- What the thread can reach without regaining capabilities. -/
def Reaches (th th' : GreenThread) : Prop :=
  ∃ calls, Run step (fun _ c => ¬ Regains c) th calls th'

theorem reaches_refl (th : GreenThread) : Reaches th th := ⟨[], .nil⟩

/-- By ends alone the thread reaches every state behind the current one. -/
theorem ends_reach {th₀ th : GreenThread} (hreach : Reaches th₀ th)
    (hin : th.inSecureRegion = true) {inner : List SRState} {s : SRState}
    {above : List SRState} (hparents : th.parents = inner ++ s :: above) :
    ∃ th', Reaches th₀ th' ∧ th'.currentSRState = s ∧ th'.inSecureRegion = !above.isEmpty ∧
      th'.commonCapabilitySet = th.commonCapabilitySet := by
  induction inner generalizing th with
  | nil =>
      obtain ⟨calls, hrun⟩ := hreach
      have hend := hrun.snoc (a := .endSecureRegion) id rfl
      rw [call, end_inside hin hparents] at hend
      exact ⟨_, ⟨_, hend⟩, rfl, rfl, rfl⟩
  | cons parent inner ih =>
      obtain ⟨calls, hrun⟩ := hreach
      have hend := hrun.snoc (a := .endSecureRegion) id rfl
      rw [call, end_inside hin hparents] at hend
      obtain ⟨th', hreach', hcurrent, hflag, hcommon⟩ := ih ⟨_, hend⟩ (by simp) rfl
      exact ⟨th', hreach', hcurrent, hflag, hcommon⟩

/-- Every state behind the current one is reached. -/
theorem parent_reached {th : GreenThread} (h : LabeledInside th) {s : SRState}
    (hs : s ∈ th.parents) : ∃ th', Reaches th th' ∧ th'.currentSRState = s := by
  obtain ⟨inner, above, hparents⟩ := List.append_of_mem hs
  cases hin : th.inSecureRegion with
  | true =>
      obtain ⟨th', hreach, hcurrent, -⟩ := ends_reach (reaches_refl th) hin hparents
      exact ⟨th', hreach, hcurrent⟩
  | false =>
      -- a region without labels sets the flag, so that the ends work
      have hlabels := h.outside hin _ List.mem_cons_self
      have hallowed := startAllowed_unlabeled (congrArg Prod.fst hlabels)
        (congrArg Prod.snd hlabels)
      have hstart : Reaches th (th.start (.startSecureRegion none none)).2 :=
        ⟨_, Run.snoc (a := .start (.startSecureRegion none none)) .nil id rfl⟩
      rw [start_allowed hallowed] at hstart
      have hparents' : (th.enterChild (Start.startSecureRegion none none).args.fill).parents =
          (th.currentSRState :: inner) ++ s :: above := by
        rw [parents_enterChild, hparents]
        rfl
      obtain ⟨th', hreach, hcurrent, -⟩ := ends_reach hstart rfl hparents'
      exact ⟨th', hreach, hcurrent⟩

/-- A state outside every region is reached, with the same common capabilities. -/
theorem outside_reached {th : GreenThread} (h : th.Nested) :
    ∃ th', Reaches th th' ∧ th'.inSecureRegion = false ∧
      th'.commonCapabilitySet = th.commonCapabilitySet := by
  cases hin : th.inSecureRegion with
  | false => exact ⟨th, reaches_refl th, hin, rfl⟩
  | true =>
      obtain ⟨th', hreach, -, hflag, hcommon⟩ := ends_reach (reaches_refl th) hin
        (List.dropLast_concat_getLast (h hin)).symm
      exact ⟨th', hreach, hflag, hcommon⟩

/-! ## Drops that stay -/

section Drop

variable {th th' : GreenThread} {label : Option LabelSet} {type : Int}

theorem lacks_of_drop (hdrop : th.dropThreadCapability label type = (.returned, th'))
    (hheld : th.HeldNowhereElse label type) {kind : CapabilityKind} {l : Label}
    (hl : Drops label type kind l) : Lacks kind l th' := by
  obtain ⟨hbeyond, hcommon⟩ := hheld kind l hl
  obtain ⟨cur, hcur, hwhere⟩ := dropThreadCapability_returned hdrop
  have hdropped : ∀ {s s' : SRState}, dropFrom s label type = some s' →
      l ∉ s'.capabilitySet kind := by
    intro s s' hs hmem
    exact ((mem_dropFrom hs).1 hmem).2 hl
  rcases hwhere with ⟨hout, rfl⟩ | ⟨hin, parent, parent', above, hparents, hparent, rfl⟩
  · rw [beyond, hout] at hbeyond
    exact ⟨List.forall_mem_cons.2 ⟨hdropped hcur, hbeyond⟩, hcommon⟩
  · rw [beyond, if_pos hin, hparents] at hbeyond
    exact ⟨List.forall_mem_cons.2 ⟨hdropped hcur,
      List.forall_mem_cons.2 ⟨hdropped hparent, hbeyond⟩⟩, hcommon⟩

/-- The drop leaves the states beyond and the common sets alone. -/
theorem beyond_drop (hdrop : th.dropThreadCapability label type = (.returned, th')) :
    (∀ s ∈ th.beyond, s ∈ th'.parents) ∧ th'.commonCapabilitySet = th.commonCapabilitySet := by
  obtain ⟨cur, hcur, hwhere⟩ := dropThreadCapability_returned hdrop
  rcases hwhere with ⟨hout, rfl⟩ | ⟨hin, parent, parent', above, hparents, -, rfl⟩
  · rw [beyond, hout]
    exact ⟨fun s hs => hs, rfl⟩
  · rw [beyond, if_pos hin, hparents]
    exact ⟨fun s hs => List.mem_cons_of_mem parent' hs, rfl⟩

end Drop

/-- **A drop in a state that a thread can reach is final if and only if no state beyond those
it writes to has the capabilities, nor the common sets.** -/
theorem staysDropped_iff {calls : List ThreadCall} {th th' : GreenThread}
    (hrun : Run step (fun _ _ => True) new calls th) {label : Option LabelSet} {type : Int}
    (hdrop : th.dropThreadCapability label type = (.returned, th')) :
    th'.StaysDropped label type ↔ th.HeldNowhereElse label type := by
  constructor
  · intro hstays kind l hl
    have hcall : (th.labelCall (.dropThreadCapability label type)).2 = th' :=
      congrArg Prod.snd hdrop
    have hlabeled : LabeledInside th' :=
      hcall ▸ (labeledInside_of_run hrun).of_labelCall (.dropThreadCapability label type)
    obtain ⟨hbeyond, hcommon⟩ := beyond_drop hdrop
    constructor
    · intro s hs hmem
      obtain ⟨th'', ⟨calls, hback⟩, rfl⟩ := parent_reached hlabeled (hbeyond s hs)
      exact hstays calls th'' hback kind l hl (mem_capabilitiesInForce.2 (.inl hmem))
    · intro hmem
      obtain ⟨th'', ⟨calls, hback⟩, hout, hsame⟩ := outside_reached hlabeled.nested
      rw [← hcommon, ← hsame] at hmem
      exact hstays calls th'' hback kind l hl (mem_capabilitiesInForce.2 (.inr ⟨hout, hmem⟩))
  · intro hheld calls th'' hrest kind l hl
    exact ((lacks_of_drop hdrop hheld hl).of_run hrest).not_inForce

/-- Start a region with the plus capability of label 5. -/
private def giveFive : ThreadCall :=
  .start (.startSecureRegionDecEnd none none (some (.getLabelSet 5)) none)

/-- The thread is given the plus capability of label 5 and gives it to a region. -/
private def inFive : GreenThread :=
  ((new.call (.labels (.initializeThreadCapability (.getLabelSet 5) plusCapability))).2.call
    giveFive).2

/-- The region drops it. -/
theorem staysDropped_five : ∃ calls th th', Run step (fun _ _ => True) new calls th ∧
    th.dropThreadCapability (some (.getLabelSet 5)) plusCapability = (.returned, th') ∧
      5 ∈ th.plusCap ∧ th'.StaysDropped (some (.getLabelSet 5)) plusCapability := by
  have hrun : Run step (fun _ _ => True) new
      ([] ++ [.labels (.initializeThreadCapability (.getLabelSet 5) plusCapability)] ++
        [giveFive]) inFive :=
    .snoc (.snoc .nil trivial rfl) trivial rfl
  have hdrop : inFive.dropThreadCapability (some (.getLabelSet 5)) plusCapability =
      (.returned, _) := Prod.ext (by decide +kernel) rfl
  refine ⟨_, _, _, hrun, hdrop, by decide +kernel, (staysDropped_iff hrun hdrop).2 ?_⟩
  intro kind l _
  constructor
  · intro s hs
    cases hs
  · cases kind <;> exact LabelSet.not_mem_empty l

/-- The region gives the capability to a region inside it, which drops it.  When both have
ended the thread has it again. -/
theorem dropped_capability_returns : ∃ calls th th', Run step (fun _ _ => True) new calls th ∧
    th.dropThreadCapability (some (.getLabelSet 5)) plusCapability = (.returned, th') ∧
      ¬ th'.StaysDropped (some (.getLabelSet 5)) plusCapability := by
  refine ⟨[] ++ [.labels (.initializeThreadCapability (.getLabelSet 5) plusCapability)] ++
    [giveFive] ++ [giveFive], _, _, .snoc (.snoc (.snoc .nil trivial rfl) trivial rfl) trivial rfl,
    Prod.ext (by decide +kernel) rfl, ?_⟩
  intro hstays
  have hends := hstays ([] ++ [.endSecureRegion] ++ [.endSecureRegion]) _
    (.snoc (.snoc .nil id rfl) id rfl) .plus 5 ⟨rfl, _, rfl, List.mem_singleton_self 5⟩
  exact hends (by decide +kernel)

end GreenThread

end Laminar.Vm
