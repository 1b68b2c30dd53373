import Laminar.Opt.Exceptions
import Laminar.Opt.Machine

/-!
# The verdict of a removed barrier

The late pass removes a barrier on an object that was checked before.  Whether the
barrier would return depends on more than the object: on the region the thread is in
by then, on the version of the barrier, and after an allocation barrier on the
labels it gave.

For every barrier that was passed the development keeps a record with the labels of
the region, or those an allocation barrier gave.  An execution is steady if a barrier
on an object with records finds a region that may access whatever had these labels,
and if a barrier that goes by the reference, outside a region, is not misled by it.  The
pass is right for steady executions: a removed barrier would have returned, and the
method does the same before and after the pass.
-/

namespace Laminar.Opt

open Laminar.Lib Laminar.Vm

/-! ## Records -/

/-- A barrier that was passed: the object, the kind, whether it checked as inside a
region, and the labels it vouches for. -/
structure Check where
  value : Option Obj
  kind : CheckKind
  inside : Bool
  secrecy : LabelSet
  integrity : LabelSet

/-- The labels a barrier vouches for: those of the region, and those that an
allocation barrier gives.  Outside a region and the labeled space there are none. -/
def Target.vouches (th : GreenThread) (obj : ObjectLabels) (target : Target) :
    LabelSet × LabelSet :=
  if target.inside th then
    match target.kind with
    | .access _ => (th.currentSRState.secrecySet, th.currentSRState.integritySet)
    | .alloc =>
        if obj.isLabeled then GreenThread.givenLabels th.currentSRState else (.empty, .empty)
  else (.empty, .empty)

/-- The record of a barrier call. -/
def Machine.check (m : Machine) (target : Target) (param : Operand) : Check where
  value := param.eval m.regs
  kind := target.kind
  inside := target.inside m.thread
  secrecy := (target.vouches m.thread (m.labelsOf (param.eval m.regs))).1
  integrity := (target.vouches m.thread (m.labelsOf (param.eval m.regs))).2

/-- Outside a region a read or write barrier goes by the reference, which has to be clear of
the ends of the labeled space. -/
def Machine.ClearReference (m : Machine) (labeledSpace : Space) (target : Target)
    (param : Operand) : Prop :=
  ∀ reads, target.kind = .access reads → target.inside m.thread = false →
    (m.referent (param.eval m.regs)).Clear labeledSpace

namespace Check

/-- The record is one the pass relies on for reads or for writes. -/
def Covers (c : Check) (reads : Bool) : Prop := c.kind = .access reads ∨ c.kind = .alloc

/-- What a record says about the labels of its object. -/
def Holds (c : Check) (obj : ObjectLabels) : Prop :=
  match c.kind with
  | .access reads =>
      (∃ secrecyLabels integrityLabels, obj.sets = some (secrecyLabels, integrityLabels) ∧
        accessAllowed reads secrecyLabels integrityLabels c.secrecy c.integrity = true) ∧
      (c.inside = false → obj.isLabeled = false)
  | .alloc =>
      (c.inside = false → obj.isLabeled = false) → obj.sets = some (c.secrecy, c.integrity)

/-- The record still counts for an access: the region may access what has the labels
of the record, outside a region the record was made outside, and an object whose
allocation barrier did nothing is not labeled. -/
structure Steady (c : Check) (reads inside : Bool) (th : GreenThread) (obj : ObjectLabels) :
    Prop where
  region : inside = true → accessAllowed reads c.secrecy c.integrity
    th.currentSRState.secrecySet th.currentSRState.integritySet = true
  outside : inside = false → c.inside = false
  alloc : c.kind = .alloc → c.inside = false → obj.isLabeled = false

variable {labeledSpace : Space} {c : Check} {reads : Bool} {th : GreenThread} {target : Target}

/-- From a record that counts: the labels of the object are allowed by the record. -/
theorem Holds.allowed {obj : ObjectLabels} (h : c.Holds obj) (hcovers : c.Covers reads)
    (halloc : c.kind = .alloc → c.inside = false → obj.isLabeled = false) :
    (∃ secrecyLabels integrityLabels, obj.sets = some (secrecyLabels, integrityLabels) ∧
        accessAllowed reads secrecyLabels integrityLabels c.secrecy c.integrity = true) ∧
      (c.inside = false → obj.isLabeled = false) := by
  rcases hcovers with hkind | hkind
  · simpa only [Holds, hkind] using h
  · simp only [Holds, hkind] at h
    exact ⟨⟨_, _, h (halloc hkind), accessAllowed_refl⟩, halloc hkind⟩

/-- A record that still counts means that the barrier returns. -/
theorem Steady.returned {obj : Referent}
    (hsteady : c.Steady reads (target.inside th) th obj.labels) (h : c.Holds obj.labels)
    (hcovers : c.Covers reads) (hkind : target.kind = .access reads)
    (hclear : target.inside th = false → obj.Clear labeledSpace) :
    (target.call labeledSpace th obj).1 = .returned := by
  obtain ⟨⟨secrecyLabels, integrityLabels, hsets, hallowed⟩, hlabeled⟩ :=
    h.allowed hcovers hsteady.alloc
  cases hin : target.inside th with
  | true =>
      exact (call_access_inside hkind hin).2 ⟨_, _, hsets,
        accessAllowed_trans hallowed (hsteady.region hin)⟩
  | false =>
      exact (call_access_outside hkind hin (hclear hin)).2 (hlabeled (hsteady.outside hin))

/-- The record of a barrier that returns holds. -/
theorem holds_check {m : Machine} {param : Operand}
    (hclear : m.ClearReference labeledSpace target param)
    (hret : (m.call labeledSpace target param).1 = .returned) :
    (m.check target param).Holds (m.call labeledSpace target param).2 := by
  unfold Machine.ClearReference at hclear
  unfold Machine.call at hret ⊢
  generalize hobj : m.referent (param.eval m.regs) = obj at hclear hret ⊢
  cases hkind : target.kind with
  | access reads =>
      simp only [Holds, Machine.check, Target.vouches, hkind, call_access_snd hkind]
      cases hin : target.inside m.thread with
      | true => exact ⟨(call_access_inside hkind hin).1 hret, fun h => by cases h⟩
      | false =>
          have hlabeled := (call_access_outside hkind hin (hclear reads hkind hin)).1 hret
          exact ⟨⟨_, _, ObjectLabels.sets_unlabeled hlabeled, accessAllowed_refl⟩,
            fun _ => hlabeled⟩
  | alloc =>
      simp only [Holds, Machine.check, Machine.labelsOf, Target.vouches, hkind, hobj]
      cases hin : target.inside m.thread with
      | true =>
          intro _
          rw [call_alloc_inside hkind hin hret]
          cases hlabeled : obj.labels.isLabeled with
          | true => simp [GreenThread.setObjectLabels, hlabeled, ObjectLabels.sets]
          | false => simp [GreenThread.setObjectLabels, hlabeled, ObjectLabels.sets]
      | false =>
          rw [call_alloc_outside hkind hin]
          intro hlabeled
          exact ObjectLabels.sets_unlabeled (hlabeled rfl)

end Check

/-! ## Steady executions -/

/-- A method that runs, with the records of its barriers, latest first. -/
structure Logged where
  machine : Machine
  checks : List Check

/-- The start of a method, in any state of the thread. -/
def Logged.start (regs : Register → Option Obj) (thread : GreenThread)
    (labels : Obj → ObjectLabels) (refs : Obj → Address) : Logged :=
  ⟨⟨0, 0, regs, thread, labels, refs⟩, []⟩

variable (labeledSpace : Space) (ir : Ir)

/-- The records of a step. -/
def recorded (m : Machine) : MachineAction → List Check
  | .exec _ _ _ =>
      match ir.inst m.block m.index with
      | some (.call target param) => [m.check target param]
      | _ => []
  | .jump _ => []

/-- One step that does not throw. -/
def loggedStep (removed : Finset (Nat × Nat)) (s : Logged) (a : MachineAction) :
    Option Logged :=
  match machineStep labeledSpace ir removed s.machine a with
  | .next m => some ⟨m, recorded ir s.machine a ++ s.checks⟩
  | _ => none

/-- The condition on the records at a barrier.  An allocation barrier is the first barrier on its
object.  At a read or write barrier on a register the records of the object still
count, if not some path leaves the register untouched.  A constant is not labeled,
and the region may access what is not. -/
def SteadyRecords (s : Logged) (target : Target) : Operand → Prop
  | .reg r =>
      match target.kind with
      | .alloc => ∀ c ∈ s.checks, c.value ≠ s.machine.regs r
      | .access reads =>
          Untouched (.late reads) ir r s.machine.block s.machine.index ∨
            ∀ c ∈ s.checks, c.value = s.machine.regs r → c.Covers reads →
              c.Steady reads (target.inside s.machine.thread) s.machine.thread
                (s.machine.labelsOf (s.machine.regs r))
  | .const value =>
      match target.kind with
      | .alloc => False
      | .access reads =>
          (s.machine.labelsOf value).isLabeled = false ∧
            (target.inside s.machine.thread = true → accessAllowed reads .empty .empty
              s.machine.thread.currentSRState.secrecySet
              s.machine.thread.currentSRState.integritySet = true)

/-- The condition on a barrier. -/
structure SteadyBarrier (s : Logged) (target : Target) (param : Operand) : Prop where
  clear : s.machine.ClearReference labeledSpace target param
  records : SteadyRecords ir s target param

/-- The condition on a step. -/
def SteadyStep (s : Logged) : MachineAction → Prop
  | .exec _ _ _ => ∀ target param,
      ir.inst s.machine.block s.machine.index = some (.call target param) →
        SteadyBarrier labeledSpace ir s target param
  | .jump _ => True

/-- What holds along steady executions: the records hold, the registers of the set
have records, and the position lies on a path. -/
structure Invariant (sets : Bool → Nat → Finset Register) (s : Logged) : Prop where
  holds : ∀ c ∈ s.checks, c.Holds (s.machine.labelsOf c.value)
  covered : ∀ reads,
    ∀ r ∈ pointSet (.late reads) ir (sets reads) s.machine.block s.machine.index,
      ∃ c ∈ s.checks, c.value = s.machine.regs r ∧ c.Covers reads
  path : ∀ reads d, ∃ t, Path (.late reads) ir d s.machine.block s.machine.index t

section Steps

variable {labeledSpace ir} {sets : Bool → Nat → Finset Register} {s s' : Logged} {target : Target}

/-- The late pass looks at barriers of one kind and at allocation barriers. -/
theorem useOperand_late {reads isUse : Bool} {i : Instr} {param : Operand}
    (h : (Pass.late reads).useOperand i = some (param, isUse)) :
    ∃ target, i = .call target param ∧
      (target.kind = .access reads ∨ target.kind = .alloc ∧ isUse = false) := by
  unfold Pass.useOperand at h
  split at h <;> simp_all [Target.kind]

/-- A removed barrier would have returned. -/
theorem Invariant.removed_returned (h : Invariant ir sets s)
    (hsets : ∀ reads, Solves (.late reads) ir (sets reads))
    (hfound : ∀ reads, RedundantFor (.late reads) ir (sets reads)
      (computeRedundantBarriers (.late reads) ir))
    {param : Operand} (hi : ir.inst s.machine.block s.machine.index = some (.call target param))
    (hsteady : SteadyBarrier labeledSpace ir s target param)
    (hremoved : (s.machine.block, s.machine.index) ∈ removedBarriers ir) :
    s.machine.call labeledSpace target param =
      (.returned, s.machine.labelsOf (param.eval s.machine.regs)) := by
  suffices hret : ∃ reads, target.kind = .access reads ∧
      (s.machine.call labeledSpace target param).1 = .returned by
    obtain ⟨reads, hkind, hret⟩ := hret
    exact Prod.ext hret (call_access_snd hkind)
  obtain ⟨hclear, hsteady⟩ := hsteady
  cases param with
  | reg r =>
      obtain ⟨reads, hred⟩ : ∃ reads, (s.machine.block, s.machine.index) ∈
          computeRedundantBarriers (.late reads) ir := by
        rcases Finset.mem_union.1 hremoved with hred | hred
        · exact ⟨true, hred⟩
        · exact ⟨false, hred⟩
      have hfl := (hfound reads).flags_eq hred hi
      unfold flags at hfl
      split at hfl
      · rename_i useReg isUse huse
        obtain ⟨_, heq, hkind⟩ := useOperand_late huse
        cases heq
        rw [Bool.and_eq_true, decide_eq_true_eq] at hfl
        -- an allocation barrier on a register is never found redundant
        have hkind := hkind.resolve_right fun halloc => by simp [halloc.2] at hfl
        obtain ⟨c, hc, hvalue, hcovers⟩ := h.covered reads r hfl.1
        simp only [SteadyRecords, hkind] at hsteady
        rcases hsteady with huntouched | hsteady
        · exact absurd hfl.1 (huntouched.not_mem (hsets reads))
        · exact ⟨reads, hkind, (hsteady c hc hvalue hcovers).returned
            (hvalue ▸ h.holds c hc) hcovers hkind (hclear reads hkind)⟩
      · rename_i huse
        obtain ⟨_, heq, -⟩ := useOperand_late huse
        cases heq
      · cases hfl
  | const value =>
      cases hkind : target.kind with
      | alloc => simp only [SteadyRecords, hkind] at hsteady
      | access reads =>
          simp only [SteadyRecords, hkind] at hsteady
          refine ⟨reads, rfl, ?_⟩
          cases hin : target.inside s.machine.thread with
          | true =>
              exact (call_access_inside hkind hin).2
                ⟨_, _, ObjectLabels.sets_unlabeled hsteady.1, hsteady.2 hin⟩
          | false => exact (call_access_outside hkind hin (hclear reads hkind hin)).2 hsteady.1

/-- The method after the pass does what the method before it does. -/
theorem machineStep_removed {a : MachineAction}
    (hcall : ∀ target param,
      ir.inst s.machine.block s.machine.index = some (.call target param) →
      (s.machine.block, s.machine.index) ∈ removedBarriers ir →
      s.machine.call labeledSpace target param =
        (.returned, s.machine.labelsOf (param.eval s.machine.regs))) :
    machineStep labeledSpace ir (removedBarriers ir) s.machine a =
      machineStep labeledSpace ir ∅ s.machine a := by
  cases a with
  | jump => rfl
  | exec values calls refs =>
      rw [machineStep, machineStep]
      split
      · rfl
      · rename_i target param hi
        by_cases hremoved : (s.machine.block, s.machine.index) ∈ removedBarriers ir
        · rw [if_pos hremoved, if_neg (Finset.notMem_empty _), hcall target param hi hremoved]
          simp only [store_labelsOf]
        · rw [if_neg hremoved, if_neg (Finset.notMem_empty _)]
      · rfl
      · rfl

/-- A barrier that returns keeps the labels of the objects with records. -/
theorem SteadyRecords.labelsOf_store {param : Operand} (h : SteadyRecords ir s target param)
    {c : Check} (hc : c ∈ s.checks) (i : Instr) (values : Register → Option Obj)
    (thread : GreenThread) (refs : Obj → Address) :
    (s.machine.advance i values thread (s.machine.store (param.eval s.machine.regs)
      (s.machine.call labeledSpace target param).2) refs).labelsOf c.value =
      s.machine.labelsOf c.value := by
  cases hkind : target.kind with
  | access reads =>
      rw [Machine.call, call_access_snd hkind]
      exact (congrArg (fun labels => (s.machine.advance i values thread labels refs).labelsOf
        c.value) (store_labelsOf s.machine _)).trans (labelsOf_advance i values thread refs _)
  | alloc =>
      cases param with
      | reg r =>
          simp only [SteadyRecords, hkind] at h
          exact labelsOf_store_of_ne (h c hc) ..
      | const value => simp only [SteadyRecords, hkind] at h

/-- The records after an instruction hold. -/
theorem Invariant.holds_exec (h : Invariant ir sets s) {values : Register → Option Obj}
    {calls : List ThreadCall} {refs : Obj → Address}
    (hsteady : SteadyStep labeledSpace ir s (.exec values calls refs)) {m : Machine}
    (hstep : machineStep labeledSpace ir ∅ s.machine (.exec values calls refs) = .next m) :
    ∀ c ∈ recorded ir s.machine (.exec values calls refs) ++ s.checks,
      c.Holds (m.labelsOf c.value) := by
  obtain ⟨i, thread, labels, refs', hi, rfl, hlabels⟩ := machineStep_exec hstep
  rcases hlabels with ⟨target, param, rfl, hret, rfl⟩ | ⟨hcall, rfl⟩
  · obtain ⟨hclear, hrecords⟩ := hsteady target param hi
    intro c hc
    simp only [recorded, hi, List.singleton_append, List.mem_cons] at hc
    rcases hc with rfl | hc
    · have hlabels := labelsOf_store_call hret (.call target param) values thread refs'
      exact hlabels.symm ▸ Check.holds_check hclear hret
    · rw [hrecords.labelsOf_store hc]
      exact h.holds c hc
  · have hnone : recorded ir s.machine (.exec values calls refs) = [] := by
      simp only [recorded, hi]
      split
      · rename_i heq
        exact absurd (Option.some.inj heq) (hcall _ _)
      · rfl
    intro c hc
    rw [hnone, List.nil_append] at hc
    rw [labelsOf_advance]
    exact h.holds c hc

/-- The registers of the set after an instruction have records. -/
theorem Invariant.covered_exec (h : Invariant ir sets s) (hir : SingleDefs ir)
    (hsets : ∀ reads, Solves (.late reads) ir (sets reads)) {i : Instr}
    (hi : ir.inst s.machine.block s.machine.index = some i) (values : Register → Option Obj)
    (calls : List ThreadCall) (refs : Obj → Address) (reads : Bool) :
    ∀ r ∈ pointSet (.late reads) ir (sets reads) s.machine.block (s.machine.index + 1),
      ∃ c ∈ recorded ir s.machine (.exec values calls refs) ++ s.checks,
        c.value = assign i values s.machine.regs r ∧ c.Covers reads := by
  rw [pointSet_succ hi]
  refine transfer_sound (P := fun v => ∃ c ∈ s.checks, c.value = v ∧ c.Covers reads)
    (Q := fun v => ∃ c ∈ recorded ir s.machine (.exec values calls refs) ++ s.checks,
      c.value = v ∧ c.Covers reads) ?_ (h.covered reads) ?_ ?_
  · rintro v ⟨c, hc, hv⟩
    exact ⟨c, List.mem_append_right _ hc, hv⟩
  · intro r isUse huse _
    obtain ⟨target, rfl, hkind⟩ := useOperand_late huse
    refine ⟨s.machine.check target (.reg r), ?_, rfl, hkind.imp_right And.left⟩
    simp [recorded, hi]
  · rintro d val rfl hd
    obtain ⟨t, ht⟩ := h.path reads d
    exact absurd hd ((untouched_of_move hir ht hi).not_mem (hsets reads))

theorem Invariant.step (h : Invariant ir sets s) (hir : SingleDefs ir)
    (hsets : ∀ reads, Solves (.late reads) ir (sets reads)) {a : MachineAction}
    (hsteady : SteadyStep labeledSpace ir s a)
    (hstep : loggedStep labeledSpace ir ∅ s a = some s') :
    Invariant ir sets s' := by
  unfold loggedStep at hstep
  split at hstep
  · rename_i m hnext
    cases hstep
    cases a with
    | exec values calls refs =>
        have hholds := h.holds_exec hsteady hnext
        obtain ⟨i, thread, labels, refs', hi, rfl, -⟩ := machineStep_exec hnext
        refine ⟨hholds, h.covered_exec hir hsets hi values calls refs, fun reads d => ?_⟩
        obtain ⟨t, ht⟩ := h.path reads d
        exact ⟨_, ht.inst hi⟩
    | jump target =>
        obtain ⟨hend, hedge, rfl⟩ := machineStep_jump hnext
        refine ⟨h.holds, fun reads r hr => ?_, fun reads d => ?_⟩
        · refine h.covered reads r ?_
          rw [hend]
          exact pointSet_edge (hsets reads) hedge hr
        · obtain ⟨t, ht⟩ := h.path reads d
          rw [hend] at ht
          exact ⟨t, ht.edge hedge⟩
  · cases hstep

theorem invariant_start (regs : Register → Option Obj) (thread : GreenThread)
    (labels : Obj → ObjectLabels) (refs : Obj → Address) :
    Invariant ir sets (.start regs thread labels refs) := by
  refine ⟨fun c hc => ?_, fun reads r hr => ?_, fun reads d => ⟨false, .entry⟩⟩
  · exact absurd hc List.not_mem_nil
  · simp only [Logged.start, pointSet, inSet_entry] at hr
    exact absurd hr (Finset.notMem_empty r)

end Steps

/-- For an IR with single definitions, a thread in any state and objects with any labels at
any addresses: the method has the same steady executions before and after the late pass.  At
a state that one of them reaches, a removed barrier would return, and the next step
completes, throws or gets stuck alike. -/
theorem removed_barriers_return (hir : SingleDefs ir) (regs : Register → Option Obj)
    (thread : GreenThread) (labels : Obj → ObjectLabels) (refs : Obj → Address)
    (actions : List MachineAction) (s : Logged) :
    (Run (loggedStep labeledSpace ir (removedBarriers ir)) (SteadyStep labeledSpace ir)
        (.start regs thread labels refs) actions s ↔
      Run (loggedStep labeledSpace ir ∅) (SteadyStep labeledSpace ir)
        (.start regs thread labels refs) actions s) ∧
    (Run (loggedStep labeledSpace ir ∅) (SteadyStep labeledSpace ir)
        (.start regs thread labels refs) actions s →
      (∀ target param,
        ir.inst s.machine.block s.machine.index = some (.call target param) →
        SteadyBarrier labeledSpace ir s target param →
        (s.machine.block, s.machine.index) ∈ removedBarriers ir →
        (s.machine.call labeledSpace target param).1 = .returned) ∧
      ∀ a, SteadyStep labeledSpace ir s a →
        machineStep labeledSpace ir (removedBarriers ir) s.machine a =
          machineStep labeledSpace ir ∅ s.machine a) := by
  choose sets hsets hfound using fun reads => computeRedundantBarriers_spec (.late reads) ir
  have hinit : Invariant ir sets (.start regs thread labels refs) :=
    invariant_start regs thread labels refs
  have hstep : ∀ s a s', Invariant ir sets s → SteadyStep labeledSpace ir s a →
      loggedStep labeledSpace ir ∅ s a = some s' → Invariant ir sets s' :=
    fun s a s' h hsteady hstep => h.step hir hsets hsteady hstep
  have heq : ∀ s a, Invariant ir sets s → SteadyStep labeledSpace ir s a →
      machineStep labeledSpace ir (removedBarriers ir) s.machine a =
        machineStep labeledSpace ir ∅ s.machine a := by
    intro s a h hsteady
    cases a with
    | jump => rfl
    | exec values calls refs =>
        exact machineStep_removed fun target param hi hremoved =>
          h.removed_returned hsets hfound hi (hsteady target param hi) hremoved
  refine ⟨Run.congr hinit hstep fun s a h hsteady => ?_, fun hrun => ?_⟩
  · rw [loggedStep, heq s a h hsteady, loggedStep]
  · have h := hrun.invariant hinit hstep
    refine ⟨fun target param hi hsteady hremoved => ?_, fun a => heq s a h⟩
    rw [h.removed_returned hsets hfound hi hsteady hremoved]

/-! ## A method with two reads -/

/-- Two reads of a field of register 1 with other instructions in between. -/
def readTwice : Ir :=
  handled [.call (.difcReadBarrierMethod .dynamic) (.reg 1), .other [] false,
    .call (.difcReadBarrierMethod .dynamic) (.reg 1)]

theorem readTwice_singleDefs : SingleDefs readTwice :=
  handled_singleDefs (by simp [Instr.defs]) (by simp [Instr.uses])

/-- The barrier of the second read is removed. -/
theorem readTwice_removed : (1, 2) ∈ removedBarriers readTwice := by
  decide +kernel

/-- A thread in a region without labels that may add label 5. -/
def mayAddFive : GreenThread :=
  ((GreenThread.new.initializeThreadCapability (.getLabelSet 5)
    GreenThread.plusCapability).2.startSecureRegionDecEnd none none (some (.getLabelSet 5)) none).2

/-- It starts with objects outside the labeled space. -/
def readTwiceStart : Logged :=
  .start (fun _ => none) mayAddFive (fun _ => ⟨false, none, none⟩) fun _ => 0x20000000

/-- Nothing happens between the reads: the second barrier is removed, and it would
return. -/
theorem readTwice_second_returned :
    ∃ actions s, SingleDefs readTwice ∧
      Run (loggedStep onePage readTwice ∅) (SteadyStep onePage readTwice) readTwiceStart
        actions s ∧
      (s.machine.block, s.machine.index) = (1, 2) ∧ (1, 2) ∈ removedBarriers readTwice ∧
      (s.machine.call onePage (.difcReadBarrierMethod .dynamic) (.reg 1)).1 = .returned := by
  have hrun : Run (loggedStep onePage readTwice ∅) (SteadyStep onePage readTwice) readTwiceStart
      ([] ++ [.exec (fun _ => some 3) [] fun _ => 0x20000000] ++ [.jump 1] ++
        [.exec (fun _ => none) [] fun _ => 0x20000000] ++
        [.exec (fun _ => none) [] fun _ => 0x20000100]) _ :=
    .snoc (.snoc (.snoc (.snoc .nil (by rintro target param ⟨⟩) rfl) trivial rfl) (by
      rintro target param ⟨⟩
      exact ⟨fun _ _ hin => absurd hin (by decide +kernel),
        Or.inr fun c hc => absurd hc List.not_mem_nil⟩) rfl) (by
      rintro target param ⟨⟩) rfl
  refine ⟨_, _, readTwice_singleDefs, hrun, rfl, readTwice_removed, ?_⟩
  refine ((removed_barriers_return onePage readTwice readTwice_singleDefs _ _ _ _ _ _).2 hrun).1
    _ _ rfl ⟨fun _ _ hin => absurd hin (by decide +kernel), Or.inr fun c hc _ _ => ?_⟩
    readTwice_removed
  obtain rfl := List.mem_singleton.1 hc
  exact ⟨fun _ => accessAllowed_refl, (fun h => by cases h), (fun h => by cases h)⟩

/-- The thread adds the integrity label between the reads: the second barrier would
throw, and without it the method goes on. -/
theorem readTwice_second_throws :
    ∃ actions s, SingleDefs readTwice ∧
      Run (loggedStep onePage readTwice ∅) (fun _ _ => True) readTwiceStart actions s ∧
      (s.machine.block, s.machine.index) = (1, 2) ∧ (1, 2) ∈ removedBarriers readTwice ∧
      machineStep onePage readTwice ∅ s.machine (.exec (fun _ => none) [] fun _ => 0x20000000) =
        .throws (.difcException ("Read access violation: " ++
          "SR with non-null integrity attempting to read unlabeled data")) ∧
      ∃ m, machineStep onePage readTwice (removedBarriers readTwice) s.machine
        (.exec (fun _ => none) [] fun _ => 0x20000000) = .next m := by
  have hrun : Run (loggedStep onePage readTwice ∅) (fun _ _ => True) readTwiceStart
      ([] ++ [.exec (fun _ => some 3) [] fun _ => 0x20000000] ++ [.jump 1] ++
        [.exec (fun _ => none) [] fun _ => 0x20000000] ++
        [.exec (fun _ => none) [.labels (.addIntegrityLabel (some (.getLabelSet 5)))]
          fun _ => 0x20000000]) _ :=
    .snoc (.snoc (.snoc (.snoc .nil trivial rfl) trivial rfl) trivial rfl) trivial rfl
  refine ⟨_, _, readTwice_singleDefs, hrun, rfl, readTwice_removed, rfl, _,
    machineStep_of_mem rfl readTwice_removed _ _ _⟩

end Laminar.Opt
