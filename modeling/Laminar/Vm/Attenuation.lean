import Mathlib.Data.List.Forall2
import Laminar.Vm.Capabilities

/-!
# Nested regions only attenuate capabilities

A region can have a capability only if the surrounding state or all threads have it, or
if it was created inside the region.  A drop and a creation may write to two states of
the chain at once, but always to both in the same way.

A thread is recorded together with the labels that `createCapability` returned, for every
state of the chain those returned since its region started.  A state that is used again
for a later region starts with an empty record.
-/

namespace Laminar.Vm

open Laminar.Lib GreenThread

/-- A thread, and for each state of its chain the labels that were created while it or a
state nested in it was current. -/
structure Recorded where
  thread : GreenThread
  created : List (List Label)

namespace Recorded

/-- The record after a call. -/
def record (r : Recorded) : ThreadCall → List (List Label)
  | .start _ => [] :: r.created
  | .endSecureRegion => if r.thread.inSecureRegion then r.created.tail else r.created
  | .labels c =>
      match (r.thread.labelCall c).1 with
      | .returnedLabel label => r.created.map (label :: ·)
      | _ => r.created

/-- One call, whether it returns or throws. -/
def step (r : Recorded) (c : ThreadCall) : Option Recorded :=
  some ⟨(r.thread.call c).2, r.record c⟩

/-- A new thread. -/
def new : Recorded := ⟨.new, [[]]⟩

/-- The thread is given capabilities only while its own state is the only one. -/
def InitializesFirst (r : Recorded) : ThreadCall → Prop
  | .labels (.initializeThreadCapability _ _) => r.thread.parents = []
  | _ => True

end Recorded

/-! ## Attenuated chains -/

/-- The capabilities of `c` are those of its parent `p`, common ones or created ones. -/
def Attenuates (common : CapabilityKind → LabelSet) (c p : SRState) (created : List Label) :
    Prop :=
  ∀ kind, ∀ l ∈ c.capabilitySet kind, l ∈ p.capabilitySet kind ∨ l ∈ common kind ∨ l ∈ created

/-- All along a chain, with the labels created for each state. -/
inductive Attenuated (common : CapabilityKind → LabelSet) :
    List SRState → List (List Label) → Prop
  | root (s : SRState) (created : List Label) : Attenuated common [s] [created]
  | cons {c p : SRState} {above : List SRState} {created : List Label}
      {logs : List (List Label)} : Attenuates common c p created →
      Attenuated common (p :: above) logs → Attenuated common (c :: p :: above) (created :: logs)

section Chains

variable {common common' : CapabilityKind → LabelSet}

theorem Attenuates.mono {c p : SRState} {created created' : List Label}
    (h : Attenuates common c p created) (hcommon : ∀ kind, ∀ l ∈ common kind, l ∈ common' kind)
    (hcreated : ∀ l ∈ created, l ∈ created') : Attenuates common' c p created' := by
  intro kind l hl
  exact (h kind l hl).imp_right (Or.imp (hcommon kind l) (hcreated l))

theorem Attenuated.mono {states : List SRState} {logs logs' : List (List Label)}
    (h : Attenuated common states logs) (hcommon : ∀ kind, ∀ l ∈ common kind, l ∈ common' kind)
    (hlogs : List.Forall₂ (· ⊆ ·) logs logs') : Attenuated common' states logs' := by
  induction h generalizing logs' with
  | root s created =>
      cases hlogs with
      | cons _ hrest =>
          cases hrest
          exact .root s _
  | cons hfront _ ih =>
      cases hlogs with
      | cons hcreated hrest => exact .cons (hfront.mono hcommon hcreated) (ih hrest)

/-- The front state loses capabilities or gets ones that are on every record. -/
theorem Attenuated.front {c c' : SRState} {parents : List SRState} {logs : List (List Label)}
    (h : Attenuated common (c :: parents) logs)
    (hc : ∀ kind, ∀ l ∈ c'.capabilitySet kind,
      l ∈ c.capabilitySet kind ∨ ∀ created ∈ logs, l ∈ created) :
    Attenuated common (c' :: parents) logs := by
  cases h with
  | root s created => exact .root c' created
  | cons hfront hrest =>
      refine .cons ?_ hrest
      intro kind l hl
      rcases hc kind l hl with hold | hnew
      · exact hfront kind l hold
      · exact .inr (.inr (hnew _ List.mem_cons_self))

/-- The two states in front do so alike. -/
theorem Attenuated.both {c c' p p' : SRState} {above : List SRState} {logs : List (List Label)}
    (h : Attenuated common (c :: p :: above) logs)
    (hc : ∀ created ∈ logs, Attenuates common c p created → Attenuates common c' p' created)
    (hp : ∀ kind, ∀ l ∈ p'.capabilitySet kind,
      l ∈ p.capabilitySet kind ∨ ∀ created ∈ logs, l ∈ created) :
    Attenuated common (c' :: p' :: above) logs := by
  cases h with
  | cons hfront hrest =>
      refine .cons (hc _ List.mem_cons_self hfront) (hrest.front ?_)
      intro kind l hl
      refine (hp kind l hl).imp_right fun hall created hmem => ?_
      exact hall created (List.mem_cons_of_mem _ hmem)

/-- The record of a state of the chain. -/
theorem Attenuated.at {states : List SRState} {logs : List (List Label)}
    (h : Attenuated common states logs) {i : Nat} {c p : SRState} (hc : states[i]? = some c)
    (hp : states[i + 1]? = some p) :
    ∃ created, logs[i]? = some created ∧ Attenuates common c p created := by
  induction h generalizing i with
  | root s created =>
      cases hp
  | @cons _ _ _ created _ hfront _ ih =>
      cases i with
      | zero =>
          cases hc
          cases hp
          exact ⟨created, rfl, hfront⟩
      | succ i => exact ih hc hp

end Chains

/-! ## Calls -/

section Calls

variable {th : GreenThread} {logs : List (List Label)}

theorem Attenuated.start (h : Attenuated th.commonCapabilitySet th.chain logs) (s : Start) :
    Attenuated (th.start s).2.commonCapabilitySet (th.start s).2.chain ([] :: logs) := by
  obtain ⟨child, hchain, hcommon, hchild⟩ := th.start_chain s
  rw [hchain, funext hcommon]
  refine .cons ?_ h
  intro kind l hl
  rcases mem_capabilitiesInForce.1 (hchild kind l hl) with hcurrent | ⟨-, hcommon⟩
  · exact .inl hcurrent
  · exact .inr (.inl hcommon)

theorem Attenuated.tail {common : CapabilityKind → LabelSet} {c p : SRState}
    {above : List SRState} (h : Attenuated common (c :: p :: above) logs) :
    Attenuated common (p :: above) logs.tail := by
  cases h with
  | cons _ hrest => exact hrest

/-- A drop takes capabilities away, and from two states the same ones. -/
private theorem attenuates_drop {common : CapabilityKind → LabelSet} {c c' p p' : SRState}
    {created : List Label} {label : Option LabelSet} {type : Int}
    (hc : dropFrom c label type = some c') (hp : dropFrom p label type = some p')
    (h : Attenuates common c p created) : Attenuates common c' p' created := by
  intro kind l hl
  obtain ⟨hold, hkept⟩ := (mem_dropFrom hc).1 hl
  exact (h kind l hold).imp_left fun hparent => (mem_dropFrom hp).2 ⟨hparent, hkept⟩

private theorem attenuates_add {common : CapabilityKind → LabelSet} {c p : SRState}
    {created : List Label} (type : Int) (label : Label) (h : Attenuates common c p created) :
    Attenuates common (addTo c type label) (addTo p type label) created := by
  intro kind l hl
  rcases mem_addTo.1 hl with hold | hnew
  · exact (h kind l hold).imp_left fun hparent => mem_addTo.2 (.inl hparent)
  · exact .inl (mem_addTo.2 (.inr hnew))

/-- The calls on labels and capabilities keep a chain attenuated, if the label of a created
capability is on every record. -/
theorem GreenThread.ChainEffect.attenuated {th' : GreenThread} {c : LabelCall}
    (h : ChainEffect th c th')
    (hfirst : ∀ capability type, c = .initializeThreadCapability capability type →
      th.parents = [])
    (hcreated : ∀ type region osLabel, c = .createCapability type region osLabel →
      ∀ created ∈ logs, osLabel ∈ created)
    (ha : Attenuated th.commonCapabilitySet th.chain logs) :
    Attenuated th'.commonCapabilitySet th'.chain logs := by
  have hadded : ∀ {type region : Int} {osLabel : Label} {s : SRState},
      c = .createCapability type region osLabel → ∀ kind,
      ∀ l ∈ (addTo s type osLabel).capabilitySet kind,
        l ∈ s.capabilitySet kind ∨ ∀ created ∈ logs, l ∈ created := by
    intro type region osLabel s hcall kind l hl
    refine (mem_addTo.1 hl).imp_right ?_
    rintro ⟨-, rfl⟩
    exact hcreated type region l hcall
  cases h with
  | refl => exact ha
  | assign kind labels _ =>
      apply Attenuated.front ha
      intro kind l hl
      rw [modify, capabilitySet_assign] at hl
      exact .inl hl
  | drop hcur =>
      apply Attenuated.front ha
      intro kind l hl
      exact .inl ((mem_dropFrom hcur).1 hl).1
  | @dropBoth label type cur parent parent' above _ hparents hcur hparent =>
      rw [chain, hparents] at ha
      apply Attenuated.both ha
      · intro created _
        exact attenuates_drop hcur hparent
      · intro kind l hl
        exact .inl ((mem_dropFrom hparent).1 hl).1
  | create hcall _ => exact Attenuated.front ha (hadded hcall)
  | @createSelf type osLabel parent above hcall _ hparents =>
      rw [chain, hparents] at ha
      apply Attenuated.both ha
      · intro created _
        exact attenuates_add type osLabel
      · exact hadded hcall
  | @createGroup type osLabel hcall _ =>
      refine Attenuated.front (Attenuated.mono ha ?_ ?_) (hadded hcall)
      · intro kind l hl
        exact mem_addCommon.2 (.inl hl)
      · exact List.forall₂_same.2 fun created _ => List.Subset.refl created
  | grant hcall _ =>
      have hparents := hfirst _ _ hcall
      rw [chain, hparents] at ha
      cases ha with
      | root s created =>
          show Attenuated _ (_ :: th.parents) _
          rw [hparents]
          exact .root _ created
  | allocation sSet iSet =>
      apply Attenuated.front ha
      intro kind l hl
      cases kind <;> exact .inl hl
  | pass _ _ =>
      apply Attenuated.front ha
      intro kind l hl
      cases kind <;> exact .inl hl

/-- `createCapability` returns its label or changes nothing. -/
theorem createCapability_cases (hn : th.Nested) (type region : Int) (osLabel : Label) :
    (th.createCapability type region osLabel).1 = .returnedLabel osLabel ∨
      (∀ l, (th.createCapability type region osLabel).1 ≠ .returnedLabel l) ∧
        (th.createCapability type region osLabel).2 = th := by
  unfold createCapability
  split
  · exact .inr ⟨by simp, rfl⟩
  split
  · exact .inr ⟨by simp, rfl⟩
  split
  · exact .inr ⟨by simp, rfl⟩
  dsimp only
  split
  · -- there would have to be no parent inside a region
    rename_i hself
    split at hself
    · rename_i hregion
      unfold addToParent at hself
      split at hself
      · rename_i hparents
        exact absurd hparents (hn (Bool.and_eq_true_iff.1 hregion).1)
      · cases hself
    · cases hself
  · exact .inl rfl

end Calls

namespace Recorded

/-- The chain is attenuated, and inside a region there is a parent. -/
structure Ok (r : Recorded) : Prop where
  attenuated : Attenuated r.thread.commonCapabilitySet r.thread.chain r.created
  nested : r.thread.Nested

theorem Ok.labels {r : Recorded} (h : r.Ok) {c : LabelCall}
    (hfirst : r.InitializesFirst (.labels c)) :
    Attenuated (r.thread.labelCall c).2.commonCapabilitySet (r.thread.labelCall c).2.chain
      (r.record (.labels c)) := by
  have hgrant : ∀ capability type, c = .initializeThreadCapability capability type →
      r.thread.parents = [] := by
    rintro capability type rfl
    exact hfirst
  have heffect := r.thread.labelCall_chain c
  simp only [record]
  split
  · -- the call returned a label, which goes on every record
    rename_i label hlabel
    apply heffect.attenuated hgrant
    · rintro type region osLabel rfl created hmem
      obtain ⟨old, -, rfl⟩ := List.mem_map.1 hmem
      rcases createCapability_cases h.nested type region osLabel with hret | ⟨hnone, -⟩
      · obtain rfl := Outcome.returnedLabel.inj (hret.symm.trans hlabel)
        exact List.mem_cons_self
      · exact absurd hlabel (hnone label)
    · refine h.attenuated.mono (fun _ _ hl => hl) ?_
      rw [List.forall₂_map_right_iff, List.forall₂_same]
      intro created _
      exact List.subset_cons_self label created
  · rename_i hnone
    by_cases hcreate : ∃ type region osLabel, c = .createCapability type region osLabel
    · obtain ⟨type, region, osLabel, rfl⟩ := hcreate
      rcases createCapability_cases h.nested type region osLabel with hret | ⟨-, hsame⟩
      · exact absurd hret (hnone osLabel)
      · rw [labelCall, hsame]
        exact h.attenuated
    · apply heffect.attenuated hgrant
      · intro type region osLabel hcall
        exact absurd ⟨type, region, osLabel, hcall⟩ hcreate
      · exact h.attenuated

theorem Ok.step {r r' : Recorded} {c : ThreadCall} (h : r.Ok) (hfirst : r.InitializesFirst c)
    (hstep : r.step c = some r') : r'.Ok := by
  cases hstep
  refine ⟨?_, nested_call h.nested c⟩
  cases c with
  | start s => exact h.attenuated.start s
  | endSecureRegion =>
      rcases end_chain h.nested with ⟨hout, hend⟩ | ⟨hin, parent, above, hparents, hend⟩
      · simp only [call, record, hend, hout]
        exact h.attenuated
      · have ha := h.attenuated
        rw [chain, hparents] at ha
        simp only [call, record, hend, hin, if_true]
        exact ha.tail
  | labels c => exact h.labels hfirst

/-- **In every run of a thread, each state of the chain has only capabilities of its parent,
common ones, or ones created while it or a state nested in it was current.** -/
theorem attenuates_of_run {calls : List ThreadCall} {r : Recorded}
    (hrun : Run step InitializesFirst new calls r) {i : Nat} {c p : SRState}
    (hc : r.thread.chain[i]? = some c) (hp : r.thread.chain[i + 1]? = some p) :
    ∃ created, r.created[i]? = some created ∧
      Attenuates r.thread.commonCapabilitySet c p created := by
  have h : r.Ok := by
    refine Run.invariant ⟨.root _ _, nested_new⟩ ?_ hrun
    intro r c r' h hguard hstep
    exact h.step hguard hstep
  exact h.attenuated.at hc hp

/-- A region is started with the plus capability of label 5 and creates capability 9 for
itself: the parent has 5, and 9 is on the record. -/
theorem attenuates_of_run_create : ∃ calls r c p, Run step InitializesFirst new calls r ∧
    r.thread.chain = [c, p] ∧ c.plusCapabilitySet.labels = [5, 9] ∧
      p.plusCapabilitySet.labels = [5] ∧ ∃ created, r.created[0]? = some created ∧
        Attenuates r.thread.commonCapabilitySet c p created := by
  have hrun : Run step InitializesFirst new
      ([] ++ [.labels (.initializeThreadCapability (.getLabelSet 5) plusCapability)] ++
        [.start (.startSecureRegionDecEnd none none (some (.getLabelSet 5)) none)] ++
        [.labels (.createCapability bothCapability regionNone 9)]) _ :=
    .snoc (.snoc (.snoc .nil rfl rfl) trivial rfl) trivial rfl
  exact ⟨_, _, _, _, hrun, rfl, by decide +kernel, by decide +kernel,
    attenuates_of_run (i := 0) hrun rfl rfl⟩

end Recorded

end Laminar.Vm
