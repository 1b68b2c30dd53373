import Laminar.Kernel.System
import Laminar.Vm.Dropped

/-!
# Capabilities of the thread and of the task

A capability is kept twice: as a label in the sets of the virtual machine, and as an entry with
sign bits in the capability list of the kernel task.  `createCapability` writes both.  On the way
to the kernel its type and its region are mapped twice, by `OScreateLabel` and by
`sysCreateAndAddLabel`, and the label comes back through two `int`s.  Drops and regions change
the sets of the virtual machine only.

Here one green thread runs on one kernel task without other threads.  What the thread believes
to have, the task should hold.  That is so as long as every capability is created for a region
that the kernel hands it to; `REGION_NONE` is none.
-/

namespace Laminar.Vm

open Laminar.Lib Laminar.Kernel GreenThread

/-- A green thread and the kernel below it; the thread runs on task 1. -/
structure VmTask where
  thread : GreenThread
  kernel : Kernel

/-- The sign that a kind of capability has in the kernel. -/
def CapabilityKind.sign : CapabilityKind → Sign
  | .plus => .plus
  | .minus => .minus

namespace VmTask

/-- The process identifier of the task. -/
def pid : Pid := 1

/-- Both start without capabilities. -/
def boot (uid : Nat) : VmTask := ⟨.new, bootKernel uid⟩

/-! ## Creating a capability -/

/-- The masks of `sysCreateAndAddLabel`. -/
def typeMask (type : Int) : BitVec 32 :=
  if type = 0 then capPlusMask
  else if type = 1 then capMinusMask
  else capPlusMask ||| capMinusMask

/-- The regions of `OScreateLabel`. -/
def osRegion (region : Int) : Int :=
  if region = GreenThread.regionSelf then 1
  else if region = GreenThread.regionGroup then 2
  else 0

/-- The label as it comes back: `alloc_label` and `sysCreateAndAddLabel` keep it in an `int`, and
Java makes a `long` of that. -/
def returnedLabel (label : LabelT) : Label := Int64.ofBitVec ((label.setWidth 32).signExtend 64)

/-- `OScreateLabel`, down to `difc_alloc_label`. -/
def osCreateLabel (k : Kernel) (type region : Int) : Except Fault (Label × Kernel) :=
  match k.task pid with
  | none => .error .nullDeref
  | some tsk => do
      let (label, k) ← difcAllocLabel k pid tsk (typeMask type) (osRegion region)
      return (returnedLabel label, k)

/-- `createCapability`.  It throws before it asks the operating system if the region has secrets
or the type is wrong. -/
def createCapability (m : VmTask) (type region : Int) : Except Fault (Outcome × VmTask) :=
  if m.thread.currentSRState.secrecySet ≠ .empty ∨ validType type = false then
    .ok ((m.thread.createCapability type region 0).1, m)
  else do
    let (label, k) ← osCreateLabel m.kernel type region
    let (outcome, th) := m.thread.createCapability type region label
    return (outcome, ⟨th, k⟩)

/-- The calls of the thread. -/
inductive CapabilityCall
  | createCapability (type region : Int)
  | dropCapability (label : Option LabelSet) (type : Int)
  | dropThreadCapability (label : Option LabelSet) (type : Int)
  | start (s : Start)
  | endSecureRegion

/-- A call that leaves the kernel alone. -/
def threadCall (m : VmTask) (c : ThreadCall) : VmTask := { m with thread := (m.thread.call c).2 }

/-- One call, whether it returns or throws. -/
def step (m : VmTask) : CapabilityCall → Option VmTask
  | .createCapability type region =>
      match m.createCapability type region with
      | .ok (_, m') => some m'
      | .error _ => none
  | .dropCapability label type => some (m.threadCall (.labels (.dropCapability label type)))
  | .dropThreadCapability label type =>
      some (m.threadCall (.labels (.dropThreadCapability label type)))
  | .start s => some (m.threadCall (.start s))
  | .endSecureRegion => some (m.threadCall .endSecureRegion)

/-- A capability is created for a region that the kernel hands it to, or not at all. -/
def HandsOver (m : VmTask) : CapabilityCall → Prop
  | .createCapability _ region => region = GreenThread.regionSelf ∨
      region = GreenThread.regionGroup ∨ m.thread.currentSRState.secrecySet ≠ .empty
  | _ => True

end VmTask

/-! ## What the thread believes -/

namespace GreenThread

/-- A state of the thread, or the sets that all threads share, have the capability.  The states
are those of the regions the thread is in and those it has left, which later regions use again. -/
def Believes (th : GreenThread) (kind : CapabilityKind) (l : Label) : Prop :=
  (∃ s ∈ th.chain ++ th.children, l ∈ s.capabilitySet kind) ∨ l ∈ th.commonCapabilitySet kind

variable {th th' : GreenThread} {kind : CapabilityKind} {l : Label}

theorem not_believes_iff :
    ¬ th.Believes kind l ↔ Lacks kind l th ∧ ∀ s ∈ th.children, l ∉ s.capabilitySet kind := by
  constructor
  · intro h
    refine ⟨⟨fun s hs hl => h (.inl ⟨s, List.mem_append_left _ hs, hl⟩),
      fun hl => h (.inr hl)⟩, fun s hs hl => h (.inl ⟨s, List.mem_append_right _ hs, hl⟩)⟩
  · rintro ⟨hlacks, hchildren⟩ (⟨s, hs, hl⟩ | hl)
    · rcases List.mem_append.1 hs with hs | hs
      · exact hlacks.chain s hs hl
      · exact hchildren s hs hl
    · exact hlacks.common hl

theorem ChainEffect.children {c : LabelCall} (h : ChainEffect th c th') :
    th'.children = th.children := by
  cases h <;> rfl

theorem children_enterChild (fill : SRState → SRState) :
    (th.enterChild fill).children ⊆ th.children := by
  unfold enterChild
  split
  · rename_i child rest hchildren
    rw [hchildren]
    exact List.subset_cons_self child rest
  · exact List.Subset.refl _

theorem children_start (s : Start) : (th.start s).2.children ⊆ th.children := by
  cases hallowed : th.startAllowed s with
  | true =>
      rw [start_allowed hallowed]
      exact children_enterChild _
  | false =>
      obtain ⟨error, hstart⟩ := start_refused hallowed
      rw [hstart]
      exact children_enterChild _

theorem children_end :
    ∀ s ∈ th.endSecureRegion.2.children, s ∈ th.children ∨ s = th.currentSRState := by
  unfold endSecureRegion
  split
  · exact fun s hs => .inl hs
  split
  · exact fun s hs => .inl hs
  · exact fun s hs => (List.mem_cons.1 hs).symm

theorem not_believes_start (h : ¬ th.Believes kind l) (s : Start) :
    ¬ (th.start s).2.Believes kind l := by
  obtain ⟨hlacks, hchildren⟩ := not_believes_iff.1 h
  exact not_believes_iff.2 ⟨hlacks.of_start s, fun t ht => hchildren t (children_start s ht)⟩

theorem not_believes_end (h : ¬ th.Believes kind l) : ¬ th.endSecureRegion.2.Believes kind l := by
  obtain ⟨hlacks, hchildren⟩ := not_believes_iff.1 h
  refine not_believes_iff.2 ⟨hlacks.of_end, fun t ht => ?_⟩
  rcases children_end t ht with ht | rfl
  · exact hchildren t ht
  · exact hlacks.chain _ List.mem_cons_self

/-- The other calls give the thread no belief but in what they create. -/
theorem not_believes_labelCall {c : LabelCall} (h : ¬ th.Believes kind l)
    (hgives : ¬ Gives c kind l) : ¬ (th.labelCall c).2.Believes kind l := by
  obtain ⟨hlacks, hchildren⟩ := not_believes_iff.1 h
  have heffect := th.labelCall_chain c
  refine not_believes_iff.2 ⟨heffect.lacks hgives hlacks, ?_⟩
  rw [heffect.children]
  exact hchildren

theorem not_believes_new (kind : CapabilityKind) (l : Label) : ¬ new.Believes kind l := by
  rintro (⟨s, hs, hl⟩ | hl)
  · obtain rfl := List.mem_singleton.1 hs
    cases kind <;> exact LabelSet.not_mem_empty l hl
  · cases kind <;> exact LabelSet.not_mem_empty l hl

end GreenThread

/-! ## What the task holds -/

/-- A label comes back from the kernel as it is there. -/
theorem toBitVec_returnedLabel (cap : CapabilityT) :
    (VmTask.returnedLabel (labelPart cap)).toBitVec = labelPart cap := by
  have hlt : (labelPart cap).toNat < 2 ^ 30 := by
    have hmask : (capLabelMask.setWidth 64).toNat = 2 ^ 30 - 1 := by decide
    have hle := Nat.and_le_right (n := cap.toNat) (m := (capLabelMask.setWidth 64).toNat)
    rw [← BitVec.toNat_and] at hle
    rw [labelPart]
    omega
  have hlow : ((labelPart cap).setWidth 32).toNat = (labelPart cap).toNat := by
    rw [BitVec.toNat_setWidth]
    omega
  have hmsb : ((labelPart cap).setWidth 32).msb = false := by
    rw [BitVec.msb_eq_decide, hlow]
    exact decide_eq_false (by omega)
  rw [VmTask.returnedLabel, Int64.toBitVec_ofBitVec,
    BitVec.signExtend_eq_setWidth_of_msb_false hmsb]
  apply BitVec.eq_of_toNat_eq
  rw [BitVec.toNat_setWidth, hlow]
  omega

/-- Task 1 is alone, and these are its capabilities. -/
structure Alone (k : Kernel) (tsec : TaskSecurityStruct) : Prop where
  pids : k.pids = [VmTask.pid]
  task : ∃ uid tgid, k.task VmTask.pid = some ⟨uid, tgid, some tsec⟩

theorem alone_boot (uid : Nat) : Alone (bootKernel uid) ⟨.zero, [], [], false⟩ :=
  ⟨rfl, uid, 1, rfl⟩

/-- A region other than none hands the capability to the task. -/
theorem Alone.alloc {k : Kernel} {tsec : TaskSecurityStruct} (h : Alone k tsec) {tsk : Task}
    (htask : k.task VmTask.pid = some tsk) (type : BitVec 32) {region : Int}
    (hregion : region = Kernel.regionSelf ∨ region = Kernel.regionGroup) :
    ∃ k', difcAllocLabel k VmTask.pid tsk type region =
        .ok (labelPart (newCap (k.curMaxCapability + 1#32) type), k') ∧
      Alone k' { tsec with
        capList := pushCap tsec.capList (newCap (k.curMaxCapability + 1#32) type) } := by
  obtain ⟨uid, tgid, hself⟩ := h.task
  rw [htask] at hself
  obtain rfl := Option.some.inj hself
  have hothers : k.otherThreads VmTask.pid ⟨uid, tgid, some tsec⟩ = [] := by
    rw [Kernel.otherThreads, h.pids]
    rfl
  have hrecipients : k.recipients VmTask.pid ⟨uid, tgid, some tsec⟩ region = [VmTask.pid] := by
    unfold Kernel.recipients
    rcases hregion with rfl | rfl
    · exact if_pos rfl
    · rw [if_neg (by decide), if_pos rfl, hothers]
  have hsome : (k.security VmTask.pid).isSome = true := by
    rw [Kernel.security, htask]
    rfl
  let cap := newCap (k.curMaxCapability + 1#32) type
  let counted : Kernel := { k with curMaxCapability := k.curMaxCapability + 1#32 }
  have hto : difcAllocLabelTo cap counted VmTask.pid =
      .ok (counted.modifySecurity VmTask.pid fun tsec =>
        { tsec with capList := pushCap tsec.capList cap }) := if_pos hsome
  refine ⟨counted.modifySecurity VmTask.pid fun tsec =>
    { tsec with capList := pushCap tsec.capList cap }, ?_, h.pids, uid, tgid, ?_⟩
  · rw [difcAllocLabel, hrecipients]
    show (List.foldlM (difcAllocLabelTo cap) counted [VmTask.pid] >>= _) = _
    rw [List.foldlM_cons, hto]
    rfl
  · unfold Kernel.modifySecurity
    dsimp only
    rw [if_pos rfl, htask]
    rfl

/-! ## The two together -/

namespace VmTask

variable {m m' : VmTask} {tsec : TaskSecurityStruct}

/-- The kernel task holds what the thread believes to have. -/
structure Backed (m : VmTask) (tsec : TaskSecurityStruct) : Prop where
  alone : Alone m.kernel tsec
  held : ∀ kind l, m.thread.Believes kind l → Holds tsec.capList l.toBitVec kind.sign

theorem backed_boot (uid : Nat) : Backed (boot uid) ⟨.zero, [], [], false⟩ :=
  ⟨alone_boot uid, fun kind l h => absurd h (not_believes_new kind l)⟩

/-- The thread may change as long as it gains no belief. -/
theorem Backed.of_thread (h : Backed m tsec) {th : GreenThread}
    (hkeep : ∀ kind l, ¬ m.thread.Believes kind l → ¬ th.Believes kind l) :
    Backed { m with thread := th } tsec :=
  ⟨h.alone, fun kind l hb => h.held kind l (Classical.not_not.1 fun hnot => hkeep kind l hnot hb)⟩

/-- The types of the virtual machine are mapped to the signs they name. -/
theorem requests_typeMask {type : Int} (hvalid : validType type = true) {kind : CapabilityKind}
    (h : includes type kind = true) : requests (typeMask type) kind.sign = true := by
  unfold validType at hvalid
  rw [Bool.or_eq_true, Bool.or_eq_true, decide_eq_true_eq, decide_eq_true_eq,
    decide_eq_true_eq] at hvalid
  rcases hvalid with (rfl | rfl) | rfl <;> cases kind <;> first | rfl | exact absurd h (by decide)

/-- `REGION_SELF` and `REGION_GROUP` are mapped to the kernel's. -/
theorem osRegion_eq {region : Int}
    (h : region = GreenThread.regionSelf ∨ region = GreenThread.regionGroup) :
    osRegion region = Kernel.regionSelf ∨ osRegion region = Kernel.regionGroup := by
  rcases h with rfl | rfl
  · exact .inl rfl
  · exact .inr rfl

theorem Backed.createCapability (h : Backed m tsec) {type region : Int}
    (hover : m.HandsOver (.createCapability type region)) {outcome : Outcome}
    (hs : m.createCapability type region = .ok (outcome, m')) : ∃ tsec', Backed m' tsec' := by
  unfold VmTask.createCapability at hs
  split at hs
  · obtain rfl := (Prod.mk.inj (Except.ok.inj hs)).2
    exact ⟨tsec, h⟩
  · rename_i hchecks
    obtain ⟨hsecrecy, hvalid⟩ := not_or.1 hchecks
    have hregion := osRegion_eq (hover.elim .inl fun h => h.elim .inr fun h => absurd h hsecrecy)
    obtain ⟨uid, tgid, htask⟩ := h.alone.task
    obtain ⟨k', halloc, halone⟩ := h.alone.alloc htask (typeMask type) hregion
    have hos : osCreateLabel m.kernel type region =
        .ok (returnedLabel (labelPart (newCap (m.kernel.curMaxCapability + 1#32)
          (typeMask type))), k') := by
      rw [osCreateLabel, htask]
      dsimp only
      rw [halloc]
      rfl
    rw [hos] at hs
    have hm : m' = ⟨(m.thread.labelCall (.createCapability type region _)).2, k'⟩ :=
      (Prod.mk.inj (Except.ok.inj hs)).2.symm
    rw [hm]
    refine ⟨_, ⟨halone, fun kind l hb => holds_pushCap.2 ?_⟩⟩
    by_cases hold : m.thread.Believes kind l
    · exact .inl (h.held kind l hold)
    · refine .inr (Classical.not_not.1 fun hnot => ?_)
      refine not_believes_labelCall hold ?_ hb
      rintro (⟨type', region', hcall, hkind⟩ | ⟨_, _, hcall⟩)
      · obtain ⟨rfl, rfl, rfl⟩ := LabelCall.createCapability.inj hcall
        refine hnot ⟨(toBitVec_returnedLabel _).symm, carries_newCap_of_requests _ ?_⟩
        exact requests_typeMask (eq_true_of_ne_false hvalid) hkind
      · exact nomatch hcall

theorem Backed.step (h : Backed m tsec) {c : CapabilityCall} (hover : m.HandsOver c)
    (hs : m.step c = some m') : ∃ tsec', Backed m' tsec' := by
  cases c with
  | createCapability type region =>
      unfold VmTask.step at hs
      dsimp only at hs
      split at hs
      · rename_i outcome m₁ hcreate
        obtain rfl := Option.some.inj hs
        exact h.createCapability hover hcreate
      · exact nomatch hs
  | dropCapability label type =>
      obtain rfl := Option.some.inj hs
      refine ⟨tsec, h.of_thread fun kind l hnot => not_believes_labelCall hnot ?_⟩
      exact not_gives_of_not_regains id
  | dropThreadCapability label type =>
      obtain rfl := Option.some.inj hs
      refine ⟨tsec, h.of_thread fun kind l hnot => not_believes_labelCall hnot ?_⟩
      exact not_gives_of_not_regains id
  | start s =>
      obtain rfl := Option.some.inj hs
      exact ⟨tsec, h.of_thread fun kind l hnot => not_believes_start hnot s⟩
  | endSecureRegion =>
      obtain rfl := Option.some.inj hs
      exact ⟨tsec, h.of_thread fun kind l hnot => not_believes_end hnot⟩

/-- **The thread believes in no capability that the task lacks**, as long as every capability is
created for a region that the kernel hands it to. -/
theorem believed_held {uid : Nat} {calls : List CapabilityCall}
    (hr : Run step HandsOver (boot uid) calls m) :
    ∃ tsec, m.kernel.security pid = some tsec ∧
      ∀ kind l, m.thread.Believes kind l → Holds tsec.capList l.toBitVec kind.sign := by
  obtain ⟨tsec, halone, hheld⟩ : ∃ tsec, Backed m tsec :=
    hr.invariant (P := fun m => ∃ tsec, Backed m tsec) ⟨_, backed_boot uid⟩
      fun _ _ _ h hover hs => h.elim fun _ h => h.step hover hs
  obtain ⟨uid, tgid, htask⟩ := halone.task
  refine ⟨tsec, ?_, hheld⟩
  rw [Kernel.security, htask]
  rfl

/-- A thread creates a capability of both kinds for itself, starts a region with it and creates
another one there for all threads. -/
theorem believed_held_nested :
    ∃ calls m, Run step HandsOver (boot 1000) calls m ∧ m.thread.inSecureRegion = true ∧
      m.thread.Believes .minus 3 ∧
      ∃ tsec, m.kernel.security pid = some tsec ∧ Holds tsec.capList 3#64 .minus := by
  obtain ⟨m, hrun, hin, hb⟩ : ∃ m, Run step HandsOver (boot 1000)
      ([] ++ [.createCapability bothCapability GreenThread.regionSelf] ++
        [.start (.startSecureRegionDecEnd none none none none)] ++
        [.createCapability minusCapability GreenThread.regionGroup]) m ∧
      m.thread.inSecureRegion = true ∧ m.thread.Believes .minus 3 := by
    refine ⟨_, .snoc (.snoc (.snoc .nil ?_ rfl) trivial rfl) ?_ rfl, rfl,
      .inr (mem_addCommon.2 (.inr ⟨rfl, rfl⟩))⟩
    · exact .inl rfl
    · exact .inr (.inl rfl)
  obtain ⟨tsec, hsec, hheld⟩ := believed_held hrun
  exact ⟨_, m, hrun, hin, hb, tsec, hsec, hheld .minus 3 hb⟩

/-- **`REGION_NONE` leaves the kernel out.**  The first call of a thread creates a plus capability
for no region; the thread has it, and the task has none. -/
theorem none_is_believed :
    ∃ m, Run step (fun _ _ => True) (boot 1000)
        ([] ++ [.createCapability plusCapability regionNone]) m ∧
      m.thread.Believes .plus 2 ∧
      ¬ ∃ tsec, m.kernel.security pid = some tsec ∧ Holds tsec.capList 2#64 .plus := by
  refine ⟨_, .snoc .nil trivial rfl, .inl ⟨_, List.mem_append_left _ List.mem_cons_self,
    mem_addTo.2 (.inr ⟨rfl, rfl⟩)⟩, ?_⟩
  rintro ⟨tsec, hsec, hholds⟩
  obtain rfl := Option.some.inj hsec
  exact not_holds_nil _ _ hholds

end VmTask

end Laminar.Vm
