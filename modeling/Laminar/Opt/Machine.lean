import Mathlib.Logic.Function.Basic
import Laminar.Opt.Exec
import Laminar.Vm.Barriers
import Laminar.Vm.LabelChange

/-!
# Methods with labels

An execution of a method after its barriers were inserted, together with the state
of the thread and the labels and references of the objects.  A barrier returns or
throws as its method in class `DIFC` says.  The instructions in a given set are removed, so the
method before and after the late pass is the same machine with another set.

Other instructions stand for calls as well, which may change the region of the
thread.  Between barriers a collection may move objects to other addresses.  The labels
that a called method gives to objects it allocates are those the objects have from the
start.
-/

namespace Laminar.Opt

open Laminar.Vm

/-- `RemoveRedundantDIFCBarriers.perform`: the instructions the late pass removes. -/
def removedBarriers (ir : Ir) : Finset (Nat × Nat) :=
  computeRedundantBarriers (.late true) ir ∪ computeRedundantBarriers (.late false) ir

/-! ## Barriers -/

/-- What a barrier checks: an access, which is a read or a write, or an allocation. -/
inductive CheckKind
  | access (reads : Bool)
  | alloc
deriving DecidableEq

/-- The kind of a barrier. -/
def Target.kind : Target → CheckKind
  | .difcAllocBarrierDynamicMethod => .alloc
  | .difcAllocBarrierInsideSRMethod => .alloc
  | .difcReadBarrierMethod _ => .access true
  | .difcWriteBarrierMethod _ => .access false

/-- Does this version check as inside a region? -/
def Variant.inside (th : GreenThread) : Variant → Bool
  | .dynamic => th.inSecureRegion
  | .insideSR => true
  | .outsideSR => false

/-- Does the barrier check as inside a region? -/
def Target.inside (th : GreenThread) : Target → Bool
  | .difcAllocBarrierDynamicMethod => th.inSecureRegion
  | .difcAllocBarrierInsideSRMethod => true
  | .difcReadBarrierMethod v => v.inside th
  | .difcWriteBarrierMethod v => v.inside th

/-- Call a barrier method on an object. -/
def Target.call (labeledSpace : Space) (th : GreenThread) (obj : Referent) :
    Target → Outcome × ObjectLabels
  | .difcAllocBarrierDynamicMethod => th.allocBarrierDynamic obj.labels
  | .difcAllocBarrierInsideSRMethod => th.allocBarrierInsideSR obj.labels
  | .difcReadBarrierMethod .dynamic => (th.readBarrierDynamic labeledSpace obj, obj.labels)
  | .difcReadBarrierMethod .insideSR => (th.readBarrierInsideSR obj.labels, obj.labels)
  | .difcReadBarrierMethod .outsideSR =>
      (labeledSpace.readBarrierOutsideSR obj.ref, obj.labels)
  | .difcWriteBarrierMethod .dynamic => (th.writeBarrierDynamic labeledSpace obj, obj.labels)
  | .difcWriteBarrierMethod .insideSR => (th.writeBarrierInsideSR obj.labels, obj.labels)
  | .difcWriteBarrierMethod .outsideSR =>
      (labeledSpace.writeBarrierOutsideSR obj.ref, obj.labels)

/-- May a region with the last two sets access an object with the first two? -/
def accessAllowed (reads : Bool)
    (secrecyLabels integrityLabels secrecySet integritySet : LabelSet) : Bool :=
  if reads then checkAllowed secrecyLabels integrityLabels secrecySet integritySet
  else checkAllowed secrecySet integritySet secrecyLabels integrityLabels

section Barriers

variable {labeledSpace : Space} {th : GreenThread} {obj : Referent} {target : Target}
  {reads : Bool}

theorem accessAllowed_refl {secrecyLabels integrityLabels : LabelSet} :
    accessAllowed reads secrecyLabels integrityLabels secrecyLabels integrityLabels = true := by
  cases reads <;> exact checkAllowed_iff.2 ⟨fun _ hl => hl, fun _ hl => hl⟩

theorem accessAllowed_trans {s₁ i₁ s₂ i₂ s₃ i₃ : LabelSet}
    (h : accessAllowed reads s₁ i₁ s₂ i₂ = true) (h' : accessAllowed reads s₂ i₂ s₃ i₃ = true) :
    accessAllowed reads s₁ i₁ s₃ i₃ = true := by
  cases reads with
  | true =>
      obtain ⟨hs, hi⟩ := checkAllowed_iff.1 h
      obtain ⟨hs', hi'⟩ := checkAllowed_iff.1 h'
      exact checkAllowed_iff.2 ⟨fun l hl => hs' l (hs l hl), fun l hl => hi l (hi' l hl)⟩
  | false =>
      obtain ⟨hs, hi⟩ := checkAllowed_iff.1 h
      obtain ⟨hs', hi'⟩ := checkAllowed_iff.1 h'
      exact checkAllowed_iff.2 ⟨fun l hl => hs l (hs' l hl), fun l hl => hi' l (hi l hl)⟩

theorem call_read (v : Variant) : (Target.difcReadBarrierMethod v).call labeledSpace th obj =
    (if v.inside th then th.readBarrierInsideSR obj.labels
      else labeledSpace.accessOutsideSR obj.ref, obj.labels) := by
  cases v <;> rfl

theorem call_write (v : Variant) : (Target.difcWriteBarrierMethod v).call labeledSpace th obj =
    (if v.inside th then th.writeBarrierInsideSR obj.labels
      else labeledSpace.accessOutsideSR obj.ref, obj.labels) := by
  cases v <;> rfl

/-- A read or write barrier leaves the object alone. -/
theorem call_access_snd (h : target.kind = .access reads) :
    (target.call labeledSpace th obj).2 = obj.labels := by
  cases target with
  | difcReadBarrierMethod v => rw [call_read]
  | difcWriteBarrierMethod v => rw [call_write]
  | _ => simp [Target.kind] at h

/-- Inside a region a read or write barrier compares the labels. -/
theorem call_access_inside (h : target.kind = .access reads) (hin : target.inside th = true) :
    (target.call labeledSpace th obj).1 = .returned ↔ ∃ secrecyLabels integrityLabels,
      obj.labels.sets = some (secrecyLabels, integrityLabels) ∧
        accessAllowed reads secrecyLabels integrityLabels th.currentSRState.secrecySet
          th.currentSRState.integritySet = true := by
  cases target with
  | difcReadBarrierMethod v =>
      cases h
      rw [call_read, if_pos (show v.inside th = true from hin)]
      exact GreenThread.readBarrierInsideSR_eq_returned
  | difcWriteBarrierMethod v =>
      cases h
      rw [call_write, if_pos (show v.inside th = true from hin)]
      exact GreenThread.writeBarrierInsideSR_eq_returned
  | _ => simp [Target.kind] at h

/-- Outside it looks at the reference, and refuses the objects of the labeled space if that
is clear of its ends. -/
theorem call_access_outside (h : target.kind = .access reads) (hin : target.inside th = false)
    (hclear : obj.Clear labeledSpace) :
    (target.call labeledSpace th obj).1 = .returned ↔ obj.labels.isLabeled = false := by
  rw [← GreenThread.accessOutsideSR_of_clear hclear]
  cases target with
  | difcReadBarrierMethod v => rw [call_read, if_neg (Bool.not_eq_true _ ▸ hin)]
  | difcWriteBarrierMethod v => rw [call_write, if_neg (Bool.not_eq_true _ ▸ hin)]
  | _ => simp [Target.kind] at h

/-- An allocation barrier that returns inside a region gives its labels to an object of
the labeled space. -/
theorem call_alloc_inside (h : target.kind = .alloc) (hin : target.inside th = true)
    (hret : (target.call labeledSpace th obj).1 = .returned) :
    (target.call labeledSpace th obj).2 =
      GreenThread.setObjectLabels obj.labels (some (GreenThread.givenLabels th.currentSRState).1)
        (some (GreenThread.givenLabels th.currentSRState).2) := by
  cases target with
  | difcAllocBarrierDynamicMethod =>
      rw [Target.call, GreenThread.allocBarrierDynamic,
        if_pos (show th.inSecureRegion = true from hin)] at hret ⊢
      exact GreenThread.allocBarrierInsideSR_snd hret
  | difcAllocBarrierInsideSRMethod => exact GreenThread.allocBarrierInsideSR_snd hret
  | _ => cases h

/-- Outside it does nothing. -/
theorem call_alloc_outside (h : target.kind = .alloc) (hin : target.inside th = false) :
    target.call labeledSpace th obj = (.returned, obj.labels) := by
  cases target with
  | difcAllocBarrierDynamicMethod =>
      rw [Target.call, GreenThread.allocBarrierDynamic, if_neg (Bool.not_eq_true _ ▸ hin)]
  | difcAllocBarrierInsideSRMethod => cases hin
  | _ => cases h

/-- A barrier that returns changes the labels of an object of the labeled space only. -/
theorem call_unlabeled_snd (hret : (target.call labeledSpace th obj).1 = .returned)
    (hobj : obj.labels.isLabeled = false) :
    (target.call labeledSpace th obj).2 = obj.labels := by
  cases hkind : target.kind with
  | access reads => exact call_access_snd hkind
  | alloc =>
      cases hin : target.inside th with
      | true =>
          rw [call_alloc_inside hkind hin hret, GreenThread.setObjectLabels, hobj,
            if_neg Bool.false_ne_true]
      | false => rw [call_alloc_outside hkind hin]

end Barriers

/-! ## The machine -/

/-- A method that runs: the position, the registers, the thread, and the labels and the
references of all objects. -/
structure Machine where
  block : Nat
  index : Nat
  regs : Register → Option Obj
  thread : GreenThread
  labels : Obj → ObjectLabels
  refs : Obj → Address

namespace Machine

/-- What a barrier gets. -/
def referent (m : Machine) : Option Obj → Referent
  | some o => ⟨m.refs o, m.labels o⟩
  | none => .null

/-- The labels a barrier sees. -/
def labelsOf (m : Machine) (value : Option Obj) : ObjectLabels := (m.referent value).labels

/-- The labels of all objects after a barrier on one of them. -/
def store (m : Machine) (value : Option Obj) (obj : ObjectLabels) : Obj → ObjectLabels :=
  match value with
  | some o => Function.update m.labels o obj
  | none => m.labels

/-- The machine after an instruction. -/
def advance (m : Machine) (i : Instr) (values : Register → Option Obj) (thread : GreenThread)
    (labels : Obj → ObjectLabels) (refs : Obj → Address) : Machine where
  block := m.block
  index := m.index + 1
  regs := assign i values m.regs
  thread := thread
  labels := labels
  refs := refs

/-- Call a barrier method on what its operand holds. -/
def call (m : Machine) (labeledSpace : Space) (target : Target) (param : Operand) :
    Outcome × ObjectLabels :=
  target.call labeledSpace m.thread (m.referent (param.eval m.regs))

end Machine

/-- A step along normal edges: the next instruction, with its results, the calls it makes and
the addresses of the objects after it, or a jump. -/
inductive MachineAction
  | exec (values : Register → Option Obj) (calls : List ThreadCall) (refs : Obj → Address)
  | jump (target : Nat)

/-- How a step ends. -/
inductive StepResult
  | next (m : Machine)
  | throws (outcome : Outcome)
  | stuck

/-- One step of the method without the instructions in `removed`. -/
def machineStep (labeledSpace : Space) (ir : Ir) (removed : Finset (Nat × Nat)) (m : Machine) :
    MachineAction → StepResult
  | .exec values calls refs =>
      match ir.inst m.block m.index with
      | none => .stuck
      | some (.call target param) =>
          if (m.block, m.index) ∈ removed then
            .next (m.advance (.call target param) values m.thread m.labels m.refs)
          else match m.call labeledSpace target param with
            | (.returned, obj) =>
                .next (m.advance (.call target param) values m.thread
                  (m.store (param.eval m.regs) obj) m.refs)
            | (thrown, _) => .throws thrown
      | some (.other defs pei) =>
          .next (m.advance (.other defs pei) values
            (calls.foldl (fun th c => (th.call c).2) m.thread) m.labels refs)
      | some i => .next (m.advance i values m.thread m.labels refs)
  | .jump target =>
      match ir.blocks[m.block]? with
      | none => .stuck
      | some b =>
          if m.index = b.insts.length ∧ target ∈ b.normalOut then
            .next { m with block := target, index := 0 }
          else .stuck

section Machine

variable {labeledSpace : Space} {ir : Ir} {removed : Finset (Nat × Nat)} {m m' : Machine}

theorem store_labelsOf (m : Machine) (value : Option Obj) :
    m.store value (m.labelsOf value) = m.labels := by
  cases value with
  | none => rfl
  | some o => exact Function.update_eq_self o m.labels

theorem labelsOf_advance (i : Instr) (values : Register → Option Obj) (thread : GreenThread)
    (refs : Obj → Address) (value : Option Obj) :
    (m.advance i values thread m.labels refs).labelsOf value = m.labelsOf value := by
  cases value <;> rfl

theorem labelsOf_store_of_ne {value value' : Option Obj} (h : value' ≠ value) (i : Instr)
    (values : Register → Option Obj) (thread : GreenThread) (refs : Obj → Address)
    (obj : ObjectLabels) :
    (m.advance i values thread (m.store value obj) refs).labelsOf value' =
      m.labelsOf value' := by
  cases value' with
  | none => rfl
  | some o' =>
      cases value with
      | none => rfl
      | some o =>
          refine Function.update_of_ne (fun heq => h ?_) obj m.labels
          rw [heq]

/-- The labels of the object of a barrier that returned. -/
theorem labelsOf_store_call {target : Target} {param : Operand}
    (hret : (m.call labeledSpace target param).1 = .returned) (i : Instr)
    (values : Register → Option Obj) (thread : GreenThread) (refs : Obj → Address) :
    (m.advance i values thread (m.store (param.eval m.regs)
        (m.call labeledSpace target param).2) refs).labelsOf (param.eval m.regs) =
      (m.call labeledSpace target param).2 := by
  unfold Machine.call at hret ⊢
  cases hvalue : param.eval m.regs with
  | none =>
      rw [hvalue] at hret
      exact (call_unlabeled_snd hret rfl).symm
  | some o => exact Function.update_self o _ m.labels

/-- A removed barrier is passed over. -/
theorem machineStep_of_mem {target : Target} {param : Operand}
    (hi : ir.inst m.block m.index = some (.call target param))
    (hmem : (m.block, m.index) ∈ removed) (values : Register → Option Obj)
    (calls : List ThreadCall) (refs : Obj → Address) :
    machineStep labeledSpace ir removed m (.exec values calls refs) =
      .next (m.advance (.call target param) values m.thread m.labels m.refs) := by
  simp only [machineStep, hi, if_pos hmem]

/-- An instruction that completes is a barrier that returns, or changes no labels. -/
theorem machineStep_exec {values : Register → Option Obj} {calls : List ThreadCall}
    {refs : Obj → Address}
    (h : machineStep labeledSpace ir ∅ m (.exec values calls refs) = .next m') :
    ∃ i thread labels refs', ir.inst m.block m.index = some i ∧
      m' = m.advance i values thread labels refs' ∧
      ((∃ target param, i = .call target param ∧
          (m.call labeledSpace target param).1 = .returned ∧
          labels = m.store (param.eval m.regs) (m.call labeledSpace target param).2) ∨
        (∀ target param, i ≠ .call target param) ∧ labels = m.labels) := by
  rw [machineStep] at h
  split at h
  · cases h
  · rename_i target param hi
    rw [if_neg (Finset.notMem_empty _)] at h
    split at h
    · rename_i obj hcall
      cases h
      exact ⟨_, _, _, _, hi, rfl, Or.inl ⟨target, param, rfl, by rw [hcall], by rw [hcall]⟩⟩
    · cases h
  · rename_i hi
    cases h
    exact ⟨_, _, _, _, hi, rfl, Or.inr ⟨by simp, rfl⟩⟩
  · rename_i i hcall _ hi
    cases h
    exact ⟨i, _, _, _, hi, rfl, Or.inr ⟨hcall, rfl⟩⟩

theorem machineStep_jump {target : Nat}
    (h : machineStep labeledSpace ir removed m (.jump target) = .next m') :
    m.index = (ir.insts m.block).length ∧ target ∈ ir.out m.block ∧
      m' = { m with block := target, index := 0 } := by
  rw [machineStep] at h
  split at h
  · cases h
  · rename_i b hb
    split at h
    · rename_i hjump
      cases h
      rw [Ir.insts, Ir.out, hb]
      exact ⟨hjump.1, List.mem_append_left _ hjump.2, rfl⟩
    · cases h

end Machine

end Laminar.Opt
