import Laminar.Vm.Capabilities

/-!
# What a secret region leaves behind

Inside a region with a secrecy label a thread may not write to the capability sets of
its other states or of all threads: `createCapability` and `dropThreadCapability` throw
unless the secrecy set of the current state is `EMPTY`.  The check looks at the current
state only.  A nested start that is refused makes a dummy state current whose secrecy set
is `EMPTY`, and there the calls go through.

`no_trace_of_run` says that a capability created there, for all threads or as a minus
capability of the surrounding region, is the only way in which the body of a secret region
can show afterwards.
-/

namespace Laminar.Vm

open Laminar.Lib

namespace GreenThread

/-! ## Bodies -/

/-- The depth after one more call; `none` if it ends what the body did not start. -/
def nest : Nat → ThreadCall → Option Nat
  | d, .start _ => some (d + 1)
  | 0, .endSecureRegion => none
  | d + 1, .endSecureRegion => some d
  | d, .labels _ => some d

/-- The depth after a body; 0 if it is properly nested. -/
def nesting (body : List ThreadCall) : Option Nat := body.foldlM nest 0

theorem nesting_snoc (body : List ThreadCall) (c : ThreadCall) :
    nesting (body ++ [c]) = (nesting body).bind (nest · c) := by
  rw [nesting, List.foldlM_append, nesting]
  congr 1
  funext d
  exact bind_pure _

/-- The call creates a capability under an `EMPTY` secrecy set, for all threads or as a
minus capability of the surrounding state. -/
def Publishes (th : GreenThread) : ThreadCall → Prop
  | .labels (.createCapability type region _) =>
      th.currentSRState.secrecySet = .empty ∧
        (region = regionGroup ∨ region = regionSelf ∧ hasMinus type = true)
  | _ => False

/-! ## Calls inside a secret region -/

section Calls

variable {th : GreenThread} {c : LabelCall}

/-- A call writes behind the current state only under an `EMPTY` secrecy set, and adds no
minus capability there unless it publishes it. -/
structure KeepsBehind (th th' : GreenThread) : Prop where
  common : ∀ kind, th'.commonCapabilitySet kind = th.commonCapabilitySet kind
  parents : th'.parents = th.parents ∨ th.currentSRState.secrecySet = .empty ∧
    ∃ parent parent' above, th.parents = parent :: above ∧ th'.parents = parent' :: above ∧
      parent'.secrecySet = parent.secrecySet ∧
      ∀ l ∈ parent'.minusCapabilitySet, l ∈ parent.minusCapabilitySet

theorem ChainEffect.keepsBehind {th' : GreenThread} (h : ChainEffect th c th')
    (hc : ¬ th.Publishes (.labels c)) : KeepsBehind th th' := by
  cases h with
  | refl => exact ⟨fun _ => rfl, .inl rfl⟩
  | assign kind labels _ => exact ⟨fun _ => rfl, .inl rfl⟩
  | drop _ => exact ⟨fun _ => rfl, .inl rfl⟩
  | @dropBoth label type cur parent parent' above hempty hparents _ hparent =>
      obtain ⟨plus, minus, rfl, -, hminus⟩ := dropFrom_spec hparent
      refine ⟨fun _ => rfl, .inr ⟨hempty, parent, _, above, hparents, rfl, rfl, ?_⟩⟩
      intro l hl
      exact ((hminus l).1 hl).1
  | create _ _ => exact ⟨fun _ => rfl, .inl rfl⟩
  | @createSelf type osLabel parent above hcall hempty hparents =>
      subst hcall
      have htype : hasMinus type = false := by
        rw [Bool.eq_false_iff]
        intro hminus
        exact hc ⟨hempty, .inr ⟨rfl, hminus⟩⟩
      refine ⟨fun _ => rfl, .inr ⟨hempty, parent, _, above, hparents, rfl, rfl, ?_⟩⟩
      intro l hl
      simpa [addTo, htype] using hl
  | createGroup hcall hempty =>
      subst hcall
      exact absurd ⟨hempty, .inl rfl⟩ hc
  | grant _ _ => exact ⟨fun _ => rfl, .inl rfl⟩
  | allocation sSet iSet => exact ⟨fun _ => rfl, .inl rfl⟩
  | pass _ _ => exact ⟨fun _ => rfl, .inl rfl⟩

/-- Under a secrecy label a call adds no minus capability to the current state. -/
theorem ChainEffect.minus_of_secret {th' : GreenThread} (h : ChainEffect th c th')
    (hin : th.inSecureRegion = true) (hsecret : th.currentSRState.secrecySet ≠ .empty)
    {l : Label} (hl : l ∈ th'.currentSRState.minusCapabilitySet) :
    l ∈ th.currentSRState.minusCapabilitySet := by
  cases h with
  | refl => exact hl
  | assign kind labels _ => cases kind <;> exact hl
  | drop hcur =>
      obtain ⟨plus, minus, rfl, -, hminus⟩ := dropFrom_spec hcur
      exact ((hminus l).1 hl).1
  | dropBoth hempty => exact absurd hempty hsecret
  | create _ hempty => exact absurd hempty hsecret
  | createSelf _ hempty => exact absurd hempty hsecret
  | createGroup _ hempty => exact absurd hempty hsecret
  | grant _ hout =>
      rw [hin] at hout
      cases hout
  | allocation sSet iSet => exact hl
  | pass _ _ => exact hl

/-- A secret state without minus capabilities stays one. -/
theorem labelCall_secret (hin : th.inSecureRegion = true)
    (hsecret : th.currentSRState.secrecySet ≠ .empty)
    (hminus : th.currentSRState.minusCapabilitySet = .empty) :
    (th.labelCall c).2.currentSRState.secrecySet ≠ .empty ∧
      (th.labelCall c).2.currentSRState.minusCapabilitySet = .empty := by
  constructor
  · -- no label of the set may be removed
    have hlaw := LawfulChange.of_effect (th.labelCall_effect c)
    intro hempty
    apply hsecret
    rw [LabelSet.eq_empty_iff]
    intro l hl
    have hnot : l ∉ (th.labelCall c).2.currentSRState.set .secrecy := by
      show l ∉ (th.labelCall c).2.currentSRState.secrecySet
      rw [hempty]
      exact LabelSet.not_mem_empty l
    have hremoved := hlaw.removed .secrecy l hl hnot
    rw [minusCap, if_pos hin, hminus] at hremoved
    exact LabelSet.not_mem_empty l hremoved
  · rw [LabelSet.eq_empty_iff]
    intro l hl
    have hold := (th.labelCall_chain c).minus_of_secret hin hsecret hl
    rw [hminus] at hold
    exact LabelSet.not_mem_empty l hold

end Calls

/-! ## Runs -/

/-- Inside the region, `d` regions deep: what was behind the region when it started is as
it was, and the region itself is secret and has no minus capabilities. -/
structure Shielded (base : GreenThread) (d : Nat) (th : GreenThread) : Prop where
  inRegion : th.inSecureRegion = true
  common : ∀ kind, th.commonCapabilitySet kind = base.commonCapabilitySet kind
  states : ∃ inner region, th.chain = inner ++ region :: base.chain ∧ inner.length = d ∧
    region.secrecySet ≠ .empty ∧ region.minusCapabilitySet = .empty

theorem Shielded.of_start {base th : GreenThread} {d : Nat} (h : Shielded base d th)
    (s : Start) : Shielded base (d + 1) (th.start s).2 := by
  obtain ⟨inner, region, hchain, rfl, hregion⟩ := h.states
  obtain ⟨child, hchild, hcommon, -⟩ := th.start_chain s
  constructor
  · cases hallowed : th.startAllowed s with
    | true => rw [start_allowed hallowed]
    | false =>
        obtain ⟨error, hstart⟩ := start_refused hallowed
        rw [hstart]
        exact (th.inSecureRegion_enterChild _).trans h.inRegion
  · intro kind
    rw [hcommon, h.common]
  · refine ⟨child :: inner, region, ?_, rfl, hregion⟩
    rw [hchild, hchain]
    rfl

theorem Shielded.of_end {base th : GreenThread} {d : Nat} (h : Shielded base (d + 1) th) :
    Shielded base d th.endSecureRegion.2 := by
  obtain ⟨inner, region, hchain, hlength, hregion⟩ := h.states
  obtain ⟨front, inner, rfl⟩ := List.exists_cons_of_length_eq_add_one hlength
  obtain ⟨-, hparents⟩ := List.cons.inj hchain
  obtain ⟨parent, above, hstates⟩ : ∃ parent above,
      inner ++ region :: base.chain = parent :: above :=
    List.exists_cons_of_ne_nil (by simp)
  have habove : above ≠ [] := by
    intro hnil
    have hcount := congrArg List.length hstates
    rw [hnil, List.length_append, List.length_cons, List.length_cons, chain] at hcount
    simp at hcount
    omega
  rw [end_inside h.inRegion (hparents.trans hstates)]
  refine ⟨?_, h.common, inner, region, hstates.symm, Nat.succ.inj hlength, hregion⟩
  simpa using habove

theorem Shielded.of_labelCall {base th : GreenThread} {d : Nat} (h : Shielded base d th)
    {c : LabelCall} (hc : ¬ th.Publishes (.labels c)) :
    Shielded base d (th.labelCall c).2 := by
  obtain ⟨inner, region, hchain, rfl, hsecret, hminus⟩ := h.states
  have hbehind := (th.labelCall_chain c).keepsBehind hc
  refine ⟨(th.labelCall_sameRegion c).inRegion.trans h.inRegion, ?_, ?_⟩
  · intro kind
    rw [hbehind.common, h.common]
  cases inner with
  | nil =>
      -- the region itself is current
      obtain ⟨rfl, hparents⟩ := List.cons.inj hchain
      obtain ⟨hsecret', hminus'⟩ := labelCall_secret (c := c) h.inRegion hsecret hminus
      refine ⟨[], _, ?_, rfl, hsecret', hminus'⟩
      rcases hbehind.parents with hsame | ⟨hempty, -⟩
      · rw [chain, hsame, hparents]
        rfl
      · exact absurd hempty hsecret
  | cons front inner =>
      obtain ⟨rfl, hparents⟩ := List.cons.inj hchain
      rcases hbehind.parents with hsame | ⟨-, parent, parent', above, hold, hnew, hlabels, hcaps⟩
      · refine ⟨(th.labelCall c).2.currentSRState :: inner, region, ?_, rfl, hsecret, hminus⟩
        rw [chain, hsame, hparents]
        rfl
      have hstates : parent :: above = inner ++ region :: base.chain := hold.symm.trans hparents
      cases inner with
      | nil =>
          -- the region is the parent that is written
          obtain ⟨rfl, rfl⟩ := List.cons.inj hstates
          refine ⟨[(th.labelCall c).2.currentSRState], parent', ?_, rfl, hlabels ▸ hsecret, ?_⟩
          · rw [chain, hnew]
            rfl
          · rw [LabelSet.eq_empty_iff]
            intro l hl
            have hl := hcaps l hl
            rw [hminus] at hl
            exact LabelSet.not_mem_empty l hl
      | cons second inner =>
          obtain ⟨rfl, rfl⟩ := List.cons.inj hstates
          refine ⟨(th.labelCall c).2.currentSRState :: parent' :: inner, region, ?_, rfl, hsecret,
            hminus⟩
          rw [chain, hnew]
          rfl

/-- What starts, ends and the other calls keep, at the depth they lead to, holds after a
body. -/
theorem run_nesting {guard : GreenThread → ThreadCall → Prop} {P : Nat → GreenThread → Prop}
    (hstart : ∀ d th s, P d th → guard th (.start s) → P (d + 1) (th.start s).2)
    (hend : ∀ d th, P (d + 1) th → P d th.endSecureRegion.2)
    (hlabels : ∀ d th c, P d th → guard th (.labels c) → P d (th.labelCall c).2)
    {th th' : GreenThread} (hinit : P 0 th) {body : List ThreadCall} {d : Nat}
    (hrun : Run step guard th body th') (hnesting : nesting body = some d) : P d th' := by
  induction hrun generalizing d with
  | nil =>
      cases hnesting
      exact hinit
  | @snoc body th₁ th₂ c _ hguard hstep ih =>
      rw [nesting_snoc] at hnesting
      obtain ⟨d₁, hbefore, hnest⟩ := Option.bind_eq_some_iff.1 hnesting
      have hp := ih hbefore
      cases hstep
      cases c with
      | start s =>
          cases hnest
          exact hstart _ th₁ s hp hguard
      | endSecureRegion =>
          cases d₁ with
          | zero => cases hnest
          | succ d₁ =>
              cases hnest
              exact hend _ th₁ hp
      | labels c =>
          cases hnest
          exact hlabels _ th₁ c hp hguard

/-- The region that a start enters. -/
theorem shielded_start {th th₁ : GreenThread} {s : Start}
    (hstart : th.start s = (.returned, th₁)) (hsecret : s.args.secrecySet ≠ .empty)
    (hminus : s.args.minusCapabilitySet = .empty) : Shielded th 0 th₁ := by
  cases hallowed : th.startAllowed s with
  | true =>
      rw [start_allowed hallowed] at hstart
      cases hstart
      obtain ⟨child, hchain⟩ := th.chain_enterChild s.args.fill
      exact ⟨rfl, th.commonCapabilitySet_enterChild _, [], _, hchain, rfl, hsecret, hminus⟩
  | false =>
      obtain ⟨error, hrefused⟩ := start_refused hallowed
      rw [hrefused] at hstart
      cases hstart

/-- **Whatever the body of a secret region without minus capabilities does, if it creates no
capability under an `EMPTY` secrecy set for all threads or as a minus capability of the
surrounding state, then after the region every enclosing state and the common capabilities
are as they were before it.** -/
theorem no_trace_of_run {th th₁ th₂ : GreenThread} {s : Start}
    (hstart : th.start s = (.returned, th₁)) (hsecret : s.args.secrecySet ≠ .empty)
    (hminus : s.args.minusCapabilitySet = .empty) {body : List ThreadCall}
    (hnesting : nesting body = some 0)
    (hrun : Run step (fun th c => ¬ th.Publishes c) th₁ body th₂) :
    th₂.endSecureRegion.2.chain = th.chain ∧
      ∀ kind, th₂.endSecureRegion.2.commonCapabilitySet kind = th.commonCapabilitySet kind := by
  have h := run_nesting (P := Shielded th) (fun _ _ s h _ => h.of_start s)
    (fun _ _ h => h.of_end) (fun _ _ _ h hc => h.of_labelCall hc)
    (shielded_start hstart hsecret hminus) hrun hnesting
  obtain ⟨inner, region, hchain, hlength, -⟩ := h.states
  cases List.eq_nil_of_length_eq_zero hlength
  obtain ⟨-, hparents⟩ := List.cons.inj hchain
  rw [end_inside h.inRegion hparents]
  exact ⟨rfl, h.common⟩

/-- A thread with the plus capability of label 5. -/
private def holdsFive : GreenThread :=
  (new.initializeThreadCapability (.getLabelSet 5) plusCapability).2

/-- In a region with label 5 a nested start is refused, and in its dummy state the thread
drops a capability; back in the region it fails to create one. -/
theorem no_trace_of_run_drop : ∃ (th th₁ th₂ : GreenThread) (body : List ThreadCall),
    th.start (.startSecureRegion (some (.getLabelSet 5)) none) = (.returned, th₁) ∧
      Run step (fun th c => ¬ th.Publishes c) th₁ body th₂ ∧ nesting body = some 0 ∧
      body.length = 4 ∧ th₂.endSecureRegion.2.chain = th.chain := by
  have hstart : holdsFive.start (.startSecureRegion (some (.getLabelSet 5)) none) =
      (.returned, _) := Prod.ext (by decide +kernel) rfl
  have hrun : Run step (fun th c => ¬ th.Publishes c)
      (holdsFive.start (.startSecureRegion (some (.getLabelSet 5)) none)).2
      ([] ++ [.start (.startSecureRegion (some (.getLabelSet 7)) none)] ++
        [.labels (.dropThreadCapability (some (.getLabelSet 5)) bothCapability)] ++
        [.endSecureRegion] ++ [.labels (.createCapability bothCapability regionGroup 9)]) _ :=
    .snoc (.snoc (.snoc (.snoc .nil id rfl) id rfl) id rfl)
      (fun h => absurd h.1 (by decide +kernel)) rfl
  exact ⟨_, _, _, _, hstart, hrun, rfl, rfl,
    (no_trace_of_run hstart (by decide +kernel) rfl rfl hrun).1⟩

/-- In a region with label 5 a nested start is refused, and in its dummy state the thread
creates capability 9 for all threads. -/
theorem common_capability_created : ∃ (th th₁ th₂ : GreenThread) (body : List ThreadCall),
    th.start (.startSecureRegion (some (.getLabelSet 5)) none) = (.returned, th₁) ∧
      Run step (fun _ _ => True) th₁ body th₂ ∧ nesting body = some 0 ∧
      th.commonPlusCapabilitySet.labels = [] ∧
      th₂.endSecureRegion.2.commonPlusCapabilitySet.labels = [9] := by
  refine ⟨holdsFive, _, _, [] ++ [.start (.startSecureRegion (some (.getLabelSet 7)) none)] ++
    [.labels (.createCapability plusCapability regionGroup 9)] ++ [.endSecureRegion],
    Prod.ext (by decide +kernel) rfl,
    .snoc (.snoc (.snoc .nil trivial rfl) trivial rfl) trivial rfl, rfl, rfl,
    by decide +kernel⟩

/-! ## Bodies without refused starts -/

/-- All states from the current one to that of the region are secret and have no minus
capabilities. -/
structure Secret (base : GreenThread) (d : Nat) (th : GreenThread) : Prop where
  inRegion : th.inSecureRegion = true
  states : ∃ inner, th.chain = inner ++ base.chain ∧ inner.length = d + 1 ∧
    ∀ state ∈ inner, state.secrecySet ≠ .empty ∧ state.minusCapabilitySet = .empty

theorem Secret.current {base th : GreenThread} {d : Nat} (h : Secret base d th) :
    th.currentSRState.secrecySet ≠ .empty ∧ th.currentSRState.minusCapabilitySet = .empty := by
  obtain ⟨inner, hchain, hlength, hinner⟩ := h.states
  obtain ⟨front, inner, rfl⟩ := List.exists_cons_of_length_eq_add_one hlength
  obtain ⟨rfl, -⟩ := List.cons.inj hchain
  exact hinner _ List.mem_cons_self

theorem Secret.not_publishes {base th : GreenThread} {d : Nat} (h : Secret base d th)
    (c : ThreadCall) : ¬ th.Publishes c := by
  cases c with
  | labels c =>
      cases c with
      | createCapability type region osLabel =>
          intro hpublishes
          exact h.current.1 hpublishes.1
      | _ => exact id
  | _ => exact id

/-- Without minus capabilities a nested region keeps the secrecy labels. -/
theorem Secret.of_start {base th : GreenThread} {d : Nat} (h : Secret base d th) {s : Start}
    (hallowed : th.startAllowed s = true) : Secret base (d + 1) (th.start s).2 := by
  obtain ⟨hsecret, hminus⟩ := h.current
  have hcap : th.minusCap = .empty := by
    rw [minusCap, if_pos h.inRegion]
    exact hminus
  obtain ⟨inner, hchain, hlength, hinner⟩ := h.states
  obtain ⟨child, hchild⟩ := th.chain_enterChild s.args.fill
  rw [start_allowed hallowed]
  refine ⟨rfl, s.args.fill child :: inner, ?_, by rw [List.length_cons, hlength], ?_⟩
  · show (th.enterChild s.args.fill).chain = _
    rw [hchild, hchain]
    rfl
  rw [List.forall_mem_cons]
  refine ⟨⟨?_, ?_⟩, hinner⟩
  · intro hempty
    apply hsecret
    rw [LabelSet.eq_empty_iff]
    intro l hl
    rcases (startAllowed_set hallowed .secrecy).2 l hl with hremove | hkeep
    · rw [hcap] at hremove
      exact LabelSet.not_mem_empty l hremove
    · have hkeep : l ∈ (s.args.fill child).secrecySet := hkeep
      rw [hempty] at hkeep
      exact LabelSet.not_mem_empty l hkeep
  · rw [LabelSet.eq_empty_iff]
    intro l hl
    have hforce := (startAllowed_capabilities hallowed).2 l hl
    rw [hcap] at hforce
    exact LabelSet.not_mem_empty l hforce

theorem Secret.of_end {base th : GreenThread} {d : Nat} (h : Secret base (d + 1) th) :
    Secret base d th.endSecureRegion.2 := by
  obtain ⟨inner, hchain, hlength, hinner⟩ := h.states
  obtain ⟨front, inner, rfl⟩ := List.exists_cons_of_length_eq_add_one hlength
  have hlength := Nat.succ.inj hlength
  obtain ⟨second, inner, rfl⟩ := List.exists_cons_of_length_eq_add_one hlength
  obtain ⟨-, hparents⟩ := List.cons.inj hchain
  rw [end_inside h.inRegion hparents]
  refine ⟨?_, second :: inner, rfl, hlength, ?_⟩
  · simp [chain]
  · intro state hstate
    exact hinner state (List.mem_cons_of_mem front hstate)

theorem Secret.of_labelCall {base th : GreenThread} {d : Nat} (h : Secret base d th)
    (c : LabelCall) : Secret base d (th.labelCall c).2 := by
  obtain ⟨hsecret, hminus⟩ := h.current
  have hbehind := (th.labelCall_chain c).keepsBehind (h.not_publishes (.labels c))
  obtain ⟨inner, hchain, hlength, hinner⟩ := h.states
  obtain ⟨front, inner, rfl⟩ := List.exists_cons_of_length_eq_add_one hlength
  obtain ⟨rfl, hparents⟩ := List.cons.inj hchain
  refine ⟨(th.labelCall_sameRegion c).inRegion.trans h.inRegion,
    (th.labelCall c).2.currentSRState :: inner, ?_, hlength, ?_⟩
  · rcases hbehind.parents with hsame | ⟨hempty, -⟩
    · rw [chain, hsame, hparents]
      rfl
    · exact absurd hempty hsecret
  · rw [List.forall_mem_cons]
    refine ⟨labelCall_secret h.inRegion hsecret hminus, ?_⟩
    intro state hstate
    exact hinner state (List.mem_cons_of_mem _ hstate)

/-- **As long as no start in the body is refused, the thread stays under a secrecy label and
no call can publish anything.** -/
theorem secret_of_run {th th₁ th₂ : GreenThread} {s : Start}
    (hstart : th.start s = (.returned, th₁)) (hsecret : s.args.secrecySet ≠ .empty)
    (hminus : s.args.minusCapabilitySet = .empty) {body : List ThreadCall} {d : Nat}
    (hnesting : nesting body = some d)
    (hrun : Run step (fun th c => ¬ th.Refuses c) th₁ body th₂) :
    th₂.currentSRState.secrecySet ≠ .empty ∧ ∀ c, ¬ th₂.Publishes c := by
  have hinit : Secret th 0 th₁ := by
    have h := shielded_start hstart hsecret hminus
    obtain ⟨inner, region, hchain, hlength, hregion⟩ := h.states
    cases List.eq_nil_of_length_eq_zero hlength
    refine ⟨h.inRegion, [region], hchain, rfl, ?_⟩
    intro state hstate
    rw [List.mem_singleton.1 hstate]
    exact hregion
  have h := run_nesting (P := Secret th)
    (fun _ _ _ h hallowed => h.of_start (by simpa [Refuses] using hallowed))
    (fun _ _ h => h.of_end) (fun _ _ c h _ => h.of_labelCall c) hinit hrun hnesting
  exact ⟨h.current.1, h.not_publishes⟩

end GreenThread

end Laminar.Vm
