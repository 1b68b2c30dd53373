import Laminar.Vm.Chain
import Laminar.Vm.PassLabels

/-!
# File operations of green threads

Green threads share one kernel task, and so one kernel label.  Before a thread uses a
file it passes the labels of its region to the kernel, and when it ends a region that
has passed labels, it resets the label of the task.  In between the operation may wait
for input or output, and then other threads run.

A thread in a file operation stands at one of the places of `Control`; a step takes it to
the next one, and the steps of different threads come in any order.  What the operating
system and the scheduler decide is an argument of the step: the result of a system call,
how a wait ends, and what the stack and the unused ends of the label arrays hold.  The
kernel grants every label that it is passed.  File names, the bytes that are moved and
trace output are left out.

A thread outside every region passes nothing, and nothing passes the labels again after a
wait.  So a system call can run under the labels of another thread, and
`sys_label_of_run` says what the threads must not do at the same time.
-/

namespace Laminar.Vm

open Laminar.Lib Laminar.Kernel

/-! ## Operations -/

/-- The operations of `FileSystem` that pass labels, with the arguments they test;
`length` is `buf.length`. -/
inductive FileOp
  | stat
  | access
  | readByte (fd : Nat)
  | writeByte (fd : Nat)
  | readBytes (fd : Nat) (off cnt length : Int)
  | writeBytes (fd : Nat) (off cnt length : Int)
deriving DecidableEq

/-- How an operation ends. -/
inductive FileResult
  | returned (rc : Int)
  | indexOutOfBoundsException
  | timeoutException
deriving DecidableEq

/-- The local variables of a transfer: `read` or `written`, and what is left to do. -/
structure Transfer where
  done : Int
  off : Int
  cnt : Int
deriving DecidableEq

/-- How a wait ends. -/
inductive Wake
  | ready
  | notReady
  | timedOut
deriving DecidableEq

/-- Where a thread is. -/
inductive Control
  /-- in no operation; the last one ended with this result -/
  | idle (last : Option FileResult)
  /-- at the call of `OSpassCurrentLabels` -/
  | pass (op : FileOp) (tr : Transfer)
  /-- at the call of `blockingReadHack` or `blockingWriteHack` -/
  | hack (op : FileOp) (tr : Transfer)
  /-- in the wait of that call -/
  | hackWait (op : FileOp) (tr : Transfer)
  /-- at the system call -/
  | sys (op : FileOp) (tr : Transfer)
  /-- in the wait after a system call that would have blocked -/
  | ioWait (op : FileOp) (tr : Transfer)
deriving DecidableEq

namespace FileOp

/-- The file descriptor, if there is one. -/
def fd : FileOp → Option Nat
  | .stat | .access => none
  | .readByte fd | .writeByte fd | .readBytes fd .. | .writeBytes fd .. => some fd

/-- The result of an operation that cannot be completed. -/
def failure : FileOp → FileResult
  | .stat | .access | .writeByte _ => .returned (-1)
  | .readByte _ | .readBytes .. | .writeBytes .. => .returned (-2)

/-- The first statements of an operation. -/
def enter : FileOp → Control
  | .stat => .pass .stat ⟨0, 0, 0⟩
  | .access => .pass .access ⟨0, 0, 0⟩
  | .readByte fd => .hack (.readByte fd) ⟨0, 0, 1⟩
  | .writeByte fd => .hack (.writeByte fd) ⟨0, 0, 1⟩
  | .readBytes fd off cnt length =>
      if off < 0 then .idle (some .indexOutOfBoundsException)
      else .pass (.readBytes fd off cnt length) ⟨0, off, cnt⟩
  | .writeBytes fd off cnt length =>
      if cnt = 0 then .idle (some (.returned 0))
      else if off < 0 then .idle (some .indexOutOfBoundsException)
      else .pass (.writeBytes fd off cnt length) ⟨0, off, cnt⟩

/-- What an `int` keeps of a result. -/
def wrapInt (n : Int) : Int := n.bmod (2 ^ 32)

/-- Trim the request to fit the array.  A sum that overflows is negative and is not trimmed. -/
def trim (tr : Transfer) (length : Int) : Transfer :=
  if wrapInt (tr.off + tr.cnt) > length then { tr with cnt := wrapInt (length - tr.off) } else tr

/-- After the labels have been passed. -/
def afterPass (op : FileOp) (tr : Transfer) : Control :=
  match op with
  | .stat | .access | .readByte _ | .writeByte _ => .sys op tr
  | .readBytes _ _ _ length | .writeBytes _ _ _ length => .hack op (trim tr length)

/-- After the wait for a blocking descriptor, or without one. -/
def afterHack (op : FileOp) (tr : Transfer) : Control :=
  match op with
  | .stat | .access | .readByte _ | .writeByte _ => .pass op tr
  | .readBytes .. | .writeBytes .. => .sys op tr

/-- After `rc` bytes have been moved. -/
def moved (op : FileOp) (tr : Transfer) (rc : Int) : Control :=
  let tr : Transfer := ⟨wrapInt (tr.done + rc), wrapInt (tr.off + rc), wrapInt (tr.cnt - rc)⟩
  if tr.cnt = 0 then .idle (some (.returned tr.done)) else .sys op tr

/-- What an operation does with the result of its system call. -/
def afterSys (op : FileOp) (tr : Transfer) (rc : Int) : Control :=
  match op with
  | .stat | .access => .idle (some (.returned rc))
  | .readByte _ =>
      if rc ≥ -1 then .idle (some (.returned rc))
      else if rc = -2 then .ioWait op tr
      else .idle (some op.failure)
  | .writeByte _ =>
      if rc = 0 then .idle (some (.returned 0))
      else if rc = -2 then .ioWait op tr
      else .idle (some op.failure)
  | .readBytes .. =>
      if rc = 0 then .idle (some (.returned tr.done))
      else if rc > 0 then moved op tr rc
      else if rc = -1 then
        if tr.done ≠ 0 then .idle (some (.returned tr.done)) else .ioWait op tr
      else .idle (some op.failure)
  | .writeBytes .. =>
      if rc ≥ 0 then moved op tr rc
      else if rc = -1 then .ioWait op tr
      else .idle (some op.failure)

/-- After the wait of the hack. -/
def afterHackWait (op : FileOp) (tr : Transfer) : Wake → Option Control
  | .ready => some (op.afterHack tr)
  | .notReady => some (.idle (some op.failure))
  | .timedOut => none

/-- After the wait for a system call that would have blocked.  Only `readBytes` limits
the time it waits. -/
def afterIoWait (op : FileOp) (tr : Transfer) : Wake → Option Control
  | .ready => some (.sys op tr)
  | .notReady => some (.idle (some op.failure))
  | .timedOut =>
      match op with
      | .readBytes .. => some (.idle (some .timeoutException))
      | _ => none

end FileOp

/-- The labels have been passed for the system calls that are still to come. -/
def Control.passed : Control → Bool
  | .idle _ | .pass .. => false
  | .hack op _ | .hackWait op _ =>
      match op with
      | .readBytes .. | .writeBytes .. => true
      | _ => false
  | .sys .. | .ioWait .. => true

/-! ## Threads -/

/-- A green thread and its place in a file operation. -/
structure VmThread where
  green : GreenThread
  control : Control

/-- The virtual machine on one kernel task. -/
structure Machine (ι : Type) where
  threads : ι → VmThread
  /-- the label of the kernel task -/
  label : LabelStruct
  standardFdIsNonblocking : Nat → Bool

/-- What a call of `sysPassLabels` finds in memory besides its arguments. -/
structure Leftovers where
  stack : LabelStruct
  slackS : List Label
  slackI : List Label

/-- A step of one thread. -/
inductive VmStep
  /-- a call of class `DIFC` -/
  | call (c : ThreadCall) (mem : Leftovers)
  /-- an operation starts -/
  | file (op : FileOp)
  /-- `OSpassCurrentLabels` in an operation -/
  | pass (mem : Leftovers)
  /-- `blockingReadHack` or `blockingWriteHack` in an operation -/
  | hack
  /-- the system call returns `rc` -/
  | sys (rc : Int)
  /-- a wait ends -/
  | wake (wake : Wake)

namespace Machine

variable {ι : Type} [DecidableEq ι]

/-- No thread has done anything. -/
def boot (standardFdIsNonblocking : Nat → Bool) : Machine ι where
  threads := fun _ => ⟨.new, .idle none⟩
  label := .zero
  standardFdIsNonblocking := standardFdIsNonblocking

/-- Store the regions of thread `t`. -/
def setGreen (m : Machine ι) (t : ι) (th : GreenThread) : Machine ι :=
  { m with
    threads := fun u =>
      { m.threads u with green := setThread (fun u => (m.threads u).green) t th u } }

/-- Move thread `t`. -/
def setControl (m : Machine ι) (t : ι) (control : Control) : Machine ι :=
  { m with
    threads := fun u => if u = t then { m.threads u with control := control } else m.threads u }

/-- `sysPassLabels`, with a kernel that grants the label; `none` if the call writes outside
its structure. -/
def passLabels (m : Machine ι) (secrecySet : List Byte) (secLen : Nat)
    (integritySet : List Byte) (intLen : Nat) (stack : LabelStruct) : Option (Machine ι) :=
  match sysPassLabels secrecySet secLen integritySet intLen stack 0 with
  | .ok (request, _) => some { m with label := request.label }
  | .error _ => none

/-- `OSpassCurrentLabels`. -/
def osPassCurrentLabels (m : Machine ι) (t : ι) (mem : Leftovers) : Option (Machine ι) :=
  let th := (m.threads t).green
  if th.inSecureRegion then do
    let S := th.currentSRState.secrecySet
    let I := th.currentSRState.integritySet
    let m ← m.passLabels (getLongLabels S mem.slackS) S.labels.length
      (getLongLabels I mem.slackI) I.labels.length mem.stack
    return m.setGreen t (th.osPassCurrentLabels 0).2
  else some m

/-- `endSecureRegion`, with its system call. -/
def endSecureRegion (m : Machine ι) (t : ι) (mem : Leftovers) : Option (Machine ι) := do
  let th := (m.threads t).green
  let m ← if th.inSecureRegion && th.currentSRState.restoreLabels then
      m.passLabels [] 0 [] 0 mem.stack
    else some m
  return m.setGreen t th.endSecureRegion.2

/-- A call of class `DIFC`.  The file operations make the calls of
`OSpassCurrentLabels`. -/
def difcCall (m : Machine ι) (t : ι) (mem : Leftovers) : ThreadCall → Option (Machine ι)
  | .endSecureRegion => m.endSecureRegion t mem
  | .labels (.osPassCurrentLabels _) => none
  | c => some (m.setGreen t ((m.threads t).green.call c).2)

/-- `fd >= 3 || standardFdIsNonblocking[fd]`. -/
def needsNoWait (m : Machine ι) (op : FileOp) : Bool :=
  match op.fd with
  | none => true
  | some fd => fd ≥ 3 || m.standardFdIsNonblocking fd

/-- One step of a thread; `none` if the thread is not at such a step. -/
def step (m : Machine ι) : ι × VmStep → Option (Machine ι)
  | (t, .call c mem) =>
      match (m.threads t).control with
      | .idle _ => m.difcCall t mem c
      | _ => none
  | (t, .file op) =>
      match (m.threads t).control with
      | .idle _ => some (m.setControl t op.enter)
      | _ => none
  | (t, .pass mem) =>
      match (m.threads t).control with
      | .pass op tr => do
          let m ← m.osPassCurrentLabels t mem
          return m.setControl t (op.afterPass tr)
      | _ => none
  | (t, .hack) =>
      match (m.threads t).control with
      | .hack op tr =>
          some (m.setControl t
            (if m.needsNoWait op then op.afterHack tr else .hackWait op tr))
      | _ => none
  | (t, .sys rc) =>
      match (m.threads t).control with
      | .sys op tr => some (m.setControl t (op.afterSys tr rc))
      | _ => none
  | (t, .wake wake) =>
      match (m.threads t).control with
      | .hackWait op tr => (op.afterHackWait tr wake).map (m.setControl t)
      | .ioWait op tr => (op.afterIoWait tr wake).map (m.setControl t)
      | _ => none

end Machine

/-! ## Restore flags -/

namespace GreenThread

/-- The restore flags of the chain. -/
def flags (th : GreenThread) : List Bool := th.chain.map SRState.restoreLabels

theorem flags_start (th : GreenThread) (s : Start) :
    (th.start s).2.flags = false :: th.flags := by
  cases hallowed : th.startAllowed s with
  | true =>
      obtain ⟨child, hchain⟩ := th.chain_enterChild s.args.fill
      rw [start_allowed hallowed]
      show (th.enterChild s.args.fill).chain.map _ = _
      rw [hchain]
      rfl
  | false =>
      obtain ⟨error, hstart⟩ := start_refused hallowed
      obtain ⟨child, hchain⟩ := th.chain_enterChild SRState.clearState
      rw [hstart]
      show (th.enterChild SRState.clearState).chain.map _ = _
      rw [hchain]
      rfl

/-- Only passing labels sets a flag. -/
theorem flags_labelCall (th : GreenThread) {c : LabelCall}
    (hc : ∀ err, c ≠ .osPassCurrentLabels err) : (th.labelCall c).2.flags = th.flags := by
  have heffect := th.labelCall_chain c
  generalize (th.labelCall c).2 = th' at heffect
  cases heffect with
  | refl => rfl
  | assign kind labels _ => cases kind <;> rfl
  | drop hcur =>
      obtain ⟨plus, minus, rfl, -, -⟩ := dropFrom_spec hcur
      rfl
  | dropBoth _ hparents hcur hparent =>
      obtain ⟨plus, minus, rfl, -, -⟩ := dropFrom_spec hcur
      obtain ⟨plus', minus', rfl, -, -⟩ := dropFrom_spec hparent
      simp [flags, chain, hparents]
  | create _ _ => rfl
  | createSelf _ _ hparents => simp [flags, chain, hparents, modify, addTo]
  | createGroup _ _ => rfl
  | grant _ _ => rfl
  | allocation _ _ => rfl
  | pass heq _ => exact absurd heq (hc _)

/-- Flags are set inside regions only, and never on the state of the thread itself. -/
structure FlagsOk (th : GreenThread) : Prop where
  nested : th.Nested
  root : th.flags.getLast? = some false
  outside : th.inSecureRegion = false → true ∉ th.flags

theorem flagsOk_new : new.FlagsOk := ⟨nested_new, rfl, fun _ => by decide⟩

theorem FlagsOk.of_call {th : GreenThread} (h : th.FlagsOk) {c : ThreadCall}
    (hc : ∀ err, c ≠ .labels (.osPassCurrentLabels err)) : (th.call c).2.FlagsOk := by
  refine ⟨nested_call h.nested c, ?_, ?_⟩
  · cases c with
    | start s =>
        rw [call, flags_start, List.getLast?_cons, h.root]
        rfl
    | endSecureRegion =>
        rcases end_chain h.nested with ⟨_, hend⟩ | ⟨_, parent, above, hparents, hend⟩
        · rw [call, hend]
          exact h.root
        · have hroot := h.root
          rw [flags, chain, hparents, List.map_cons, List.map_cons, List.getLast?_cons_cons]
            at hroot
          rw [call, hend]
          exact hroot
    | labels c =>
        rw [call, flags_labelCall th fun err heq => hc err (congrArg _ heq)]
        exact h.root
  · cases c with
    | start s =>
        intro hin
        rw [call, flags_start, List.mem_cons]
        rintro (hflag | hflag)
        · cases hflag
        · refine h.outside ?_ hflag
          cases hallowed : th.startAllowed s with
          | true =>
              rw [call, start_allowed hallowed] at hin
              cases hin
          | false =>
              obtain ⟨error, hstart⟩ := start_refused hallowed
              rw [call, hstart] at hin
              simpa using hin
    | endSecureRegion =>
        rcases end_chain h.nested with ⟨hout, hend⟩ | ⟨_, parent, above, hparents, hend⟩
        · rw [call, hend]
          exact h.outside
        · -- outside again: only the state of the thread itself is left
          rw [call, hend]
          intro hin
          have habove : above = [] := by simpa using hin
          have hroot := h.root
          subst habove
          rw [flags, chain, hparents] at hroot
          have hparent : parent.restoreLabels = false := by simpa using hroot
          simp [flags, chain, hparent]
    | labels c =>
        rw [call, flags_labelCall th fun err heq => hc err (congrArg _ heq)]
        intro hin
        exact h.outside ((th.labelCall_sameRegion c).inRegion.symm.trans hin)

theorem osPassCurrentLabels_inside {th : GreenThread} (hin : th.inSecureRegion = true) :
    (th.osPassCurrentLabels 0).2 =
      th.modify fun cur => { cur with restoreLabels := true } := by
  rw [osPassCurrentLabels, hin]
  rfl

/-- Passing labels inside a region sets the front flag. -/
theorem FlagsOk.of_pass {th : GreenThread} (h : th.FlagsOk) (hin : th.inSecureRegion = true) :
    (th.osPassCurrentLabels 0).2.FlagsOk ∧ true ∈ (th.osPassCurrentLabels 0).2.flags := by
  have hroot := h.root
  have hparents := h.nested hin
  rw [osPassCurrentLabels_inside hin]
  refine ⟨⟨h.nested, ?_, fun hout => ?_⟩, List.mem_cons_self⟩
  · match hp : th.parents with
    | [] => exact absurd hp hparents
    | parent :: above =>
        rw [flags, chain, hp, List.map_cons, List.map_cons, List.getLast?_cons_cons] at hroot
        rw [flags, chain]
        simp only [modify, hp, List.map_cons, List.getLast?_cons_cons]
        exact hroot
  · exact absurd (hout.symm.trans hin) (by decide)

end GreenThread

/-! ## Runs -/

namespace Machine

variable {ι : Type}

/-- The kernel's label is a pair of label sets. -/
def HasLabel (m : Machine ι) (S I : LabelSet) : Prop :=
  Denotes m.label.secList S ∧ Denotes m.label.intList I

/-- The kernel's label is the label of the region thread `t` is in, or empty if it is in
no region. -/
def HasLabelOf (m : Machine ι) (t : ι) : Prop :=
  let th := (m.threads t).green
  if th.inSecureRegion then
    m.HasLabel th.currentSRState.secrecySet th.currentSRState.integritySet
  else m.HasLabel .empty .empty

/-- No other thread that is in a region is in an operation for which it has passed its
labels. -/
def NoOtherPassed (m : Machine ι) (t : ι) : Prop :=
  ∀ u, u ≠ t → (m.threads u).green.inSecureRegion = true →
    (m.threads u).control.passed = false

/-- What the steps of a run have to observe.  Labels must be ones that arrive, they must
not change while another thread relies on them, and a thread outside every region must
not make a system call while a region of another thread has passed labels. -/
def Apart (m : Machine ι) : ι × VmStep → Prop
  | (t, .pass _) =>
      (m.threads t).green.inSecureRegion = true →
        Passable (m.threads t).green.currentSRState.secrecySet ∧
        Passable (m.threads t).green.currentSRState.integritySet ∧ m.NoOtherPassed t
  | (t, .call .endSecureRegion _) =>
      (m.threads t).green.inSecureRegion = true →
        (m.threads t).green.currentSRState.restoreLabels = true → m.NoOtherPassed t
  | (t, .sys _) =>
      (m.threads t).green.inSecureRegion = false →
        ∀ u, u ≠ t → true ∉ (m.threads u).green.flags
  | _ => True

/-- The invariant of such runs. -/
structure Kept (m : Machine ι) : Prop where
  flagsOk : ∀ t, (m.threads t).green.FlagsOk
  /-- a label of the task belongs to a region that will reset it -/
  label : m.HasLabel .empty .empty ∨ ∃ t, true ∈ (m.threads t).green.flags
  /-- the labels that were passed are still there -/
  passed : ∀ t, (m.threads t).green.inSecureRegion = true →
    (m.threads t).control.passed = true → m.HasLabelOf t

private theorem denotes_zero : Denotes (Vector.replicate 32 0#64) .empty := by
  have hentries : LabelList.entries (Vector.replicate 32 0#64) = [] := by decide +kernel
  refine ⟨by decide, ?_⟩
  intro x
  rw [hentries]
  simp

theorem kept_boot (nonblocking : Nat → Bool) : (boot nonblocking : Machine ι).Kept where
  flagsOk := fun _ => GreenThread.flagsOk_new
  label := .inl ⟨denotes_zero, denotes_zero⟩
  passed := by
    intro t hin
    cases hin

private theorem hasLabelOf_inside {m : Machine ι} {t : ι}
    (hin : (m.threads t).green.inSecureRegion = true) :
    m.HasLabelOf t ↔ m.HasLabel (m.threads t).green.currentSRState.secrecySet
      (m.threads t).green.currentSRState.integritySet := by
  rw [HasLabelOf, if_pos hin]

/-- What `HasLabelOf` reads. -/
private theorem hasLabelOf_congr (m m' : Machine ι) {t : ι} (hlabel : m'.label = m.label)
    (hchain : (m'.threads t).green.chain = (m.threads t).green.chain)
    (hin : (m'.threads t).green.inSecureRegion = (m.threads t).green.inSecureRegion) :
    m'.HasLabelOf t ↔ m.HasLabelOf t := by
  have hcur : (m'.threads t).green.currentSRState = (m.threads t).green.currentSRState :=
    (List.cons.inj hchain).1
  rw [HasLabelOf, HasLabelOf, HasLabel, HasLabel, HasLabel, HasLabel, hlabel, hcur, hin]

private theorem flagsOk_congr {th th' : GreenThread} (hchain : th'.chain = th.chain)
    (hin : th'.inSecureRegion = th.inSecureRegion) (h : th.FlagsOk) : th'.FlagsOk := by
  have hflags : th'.flags = th.flags := by
    rw [GreenThread.flags, hchain]
    rfl
  refine ⟨?_, ?_, ?_⟩
  · rw [GreenThread.Nested, hin, (List.cons.inj hchain).2]
    exact h.nested
  · rw [hflags]
    exact h.root
  · rw [hflags, hin]
    exact h.outside

/-- Two sets that arrive become the label of the task. -/
private theorem passLabels_passable (m : Machine ι) {S I : LabelSet} (hS : Passable S)
    (hI : Passable I) (slackS slackI : List Label) (stack : LabelStruct) :
    ∃ lbl, m.passLabels (getLongLabels S slackS) S.labels.length (getLongLabels I slackI)
        I.labels.length stack = some { m with label := lbl } ∧
      Denotes lbl.secList S ∧ Denotes lbl.intList I := by
  obtain ⟨ls, li, hfill, hsec, hint⟩ :=
    fillLabel_below S I slackS slackI stack hS.length_le hI.length_le
  refine ⟨⟨ls, li⟩, ?_, hsec.2 hS, hint.2 hI⟩
  rw [passLabels, sysPassLabels, hfill]
  rfl

private theorem passable_empty : Passable .empty := by decide

/-- `sysPassLabels(null, 0, null, 0)`. -/
private theorem passLabels_null (m : Machine ι) (stack : LabelStruct) :
    ∃ lbl, m.passLabels [] 0 [] 0 stack = some { m with label := lbl } ∧
      Denotes lbl.secList .empty ∧ Denotes lbl.intList .empty :=
  m.passLabels_passable passable_empty passable_empty [] [] stack

variable [DecidableEq ι]

section Frames

variable (m : Machine ι) (t : ι)

@[simp] theorem threads_setControl_self (control : Control) :
    (m.setControl t control).threads t = { m.threads t with control := control } :=
  if_pos rfl

theorem threads_setControl_ne (control : Control) {u : ι} (h : u ≠ t) :
    (m.setControl t control).threads u = m.threads u :=
  if_neg h

@[simp] theorem green_setControl (control : Control) (u : ι) :
    ((m.setControl t control).threads u).green = (m.threads u).green := by
  dsimp only [setControl]
  split <;> rfl

@[simp] theorem green_setGreen_self (th : GreenThread) :
    ((m.setGreen t th).threads t).green = th :=
  setThread_self (fun u => (m.threads u).green) t th

theorem green_setGreen_ne (th : GreenThread) {u : ι} (h : u ≠ t) :
    ((m.setGreen t th).threads u).green.chain = (m.threads u).green.chain ∧
      ((m.setGreen t th).threads u).green.inSecureRegion =
        (m.threads u).green.inSecureRegion :=
  setThread_ne (fun u => (m.threads u).green) th h

end Frames

/-- A thread that moves on, to a place where it relies on no more than before. -/
private theorem Kept.setControl {m : Machine ι} (h : m.Kept) (t : ι) (control : Control)
    (hpassed : control.passed = true → (m.threads t).control.passed = true) :
    (m.setControl t control).Kept := by
  refine ⟨fun u => ?_, ?_, fun u hin hu => ?_⟩
  · rw [green_setControl]
    exact h.flagsOk u
  · simp only [green_setControl]
    exact h.label
  · rw [green_setControl] at hin
    have hsame : ((m.setControl t control).threads u).green = (m.threads u).green :=
      green_setControl m t control u
    refine (hasLabelOf_congr m (m.setControl t control) rfl (congrArg _ hsame)
      (congrArg _ hsame)).2 (h.passed u hin ?_)
    by_cases hut : u = t
    · subst hut
      rw [threads_setControl_self] at hu
      exact hpassed hu
    · rwa [threads_setControl_ne m t control hut] at hu

/-- A thread in no operation changes its regions, and the kernel's label stays or is
cleared while nobody relies on it. -/
private theorem Kept.setGreen {m : Machine ι} (h : m.Kept) (m' : Machine ι) {t : ι}
    {th : GreenThread} (hthreads : m'.threads = m.threads)
    (hidle : (m.threads t).control.passed = false) (hflags : th.FlagsOk)
    (hlabel : (m'.label = m.label ∧ (true ∈ (m.threads t).green.flags → true ∈ th.flags)) ∨
      (m'.HasLabel .empty .empty ∧ m.NoOtherPassed t)) :
    (m'.setGreen t th).Kept := by
  refine ⟨fun u => ?_, ?_, fun u hin hu => ?_⟩
  · by_cases hut : u = t
    · subst hut
      rw [green_setGreen_self]
      exact hflags
    · obtain ⟨hchain, hin⟩ := green_setGreen_ne m' t th hut
      rw [hthreads] at hchain hin
      exact flagsOk_congr hchain hin (h.flagsOk u)
  · rcases hlabel with ⟨hsame, hkeep⟩ | ⟨hempty, _⟩
    · rcases h.label with hempty | ⟨u, hu⟩
      · refine .inl ?_
        show Denotes m'.label.secList _ ∧ Denotes m'.label.intList _
        rw [hsame]
        exact hempty
      · refine .inr ⟨u, ?_⟩
        by_cases hut : u = t
        · subst hut
          rw [green_setGreen_self]
          exact hkeep hu
        · rw [GreenThread.flags, (green_setGreen_ne m' t th hut).1, hthreads]
          exact hu
    · exact .inl hempty
  · rw [show ((m'.setGreen t th).threads u).control = (m.threads u).control by
      rw [← hthreads]; rfl] at hu
    by_cases hut : u = t
    · subst hut
      rw [hidle] at hu
      cases hu
    · obtain ⟨hchain', hin'⟩ := green_setGreen_ne m' t th hut
      rw [hthreads] at hchain' hin'
      rw [hin'] at hin
      rcases hlabel with ⟨hsame, _⟩ | ⟨_, hnone⟩
      · exact (hasLabelOf_congr m (m'.setGreen t th) hsame hchain' hin').2 (h.passed u hin hu)
      · rw [hnone u hut hin] at hu
        cases hu

/-- A call of class `DIFC`. -/
private theorem kept_difcCall {m m' : Machine ι} (h : m.Kept) {t : ι} {last : Option FileResult}
    (hidle : (m.threads t).control = .idle last) {c : ThreadCall} {mem : Leftovers}
    (hapart : m.Apart (t, .call c mem)) (hstep : m.difcCall t mem c = some m') : m'.Kept := by
  have hpassed : (m.threads t).control.passed = false := by
    rw [hidle]
    rfl
  cases c with
  | start s =>
      cases hstep
      refine h.setGreen m rfl hpassed ((h.flagsOk t).of_call ?_) (.inl ⟨rfl, fun hflag => ?_⟩)
      · intro err heq
        cases heq
      · rw [GreenThread.call, GreenThread.flags_start]
        exact List.mem_cons_of_mem _ hflag
  | endSecureRegion =>
      have hok : (m.threads t).green.endSecureRegion.2.FlagsOk :=
        (h.flagsOk t).of_call (c := .endSecureRegion) fun err heq => by cases heq
      rw [difcCall, endSecureRegion] at hstep
      by_cases hreset : ((m.threads t).green.inSecureRegion &&
          (m.threads t).green.currentSRState.restoreLabels) = true
      · -- the label of the task is cleared
        obtain ⟨hin, hflag⟩ := Bool.and_eq_true_iff.1 hreset
        obtain ⟨lbl, hpass, hlbl⟩ := m.passLabels_null mem.stack
        simp only [hreset, if_true, hpass] at hstep
        cases hstep
        exact h.setGreen { m with label := lbl } rfl hpassed hok
          (.inr ⟨hlbl, hapart hin hflag⟩)
      · simp only [hreset] at hstep
        cases hstep
        refine h.setGreen m rfl hpassed hok (.inl ⟨rfl, fun hflag => ?_⟩)
        rcases GreenThread.end_chain (h.flagsOk t).nested with
          ⟨hout, _⟩ | ⟨hin, parent, above, hparents, hend⟩
        · exact absurd hflag ((h.flagsOk t).outside hout)
        · -- the flag is not that of the state that goes
          rw [hend]
          rw [hin, Bool.true_and] at hreset
          rw [GreenThread.flags, GreenThread.chain, hparents, List.map_cons] at hflag
          exact (List.mem_cons.1 hflag).resolve_left fun heq => hreset heq.symm
  | labels c =>
      have hc : ∀ err, c ≠ .osPassCurrentLabels err := by
        rintro err rfl
        cases hstep
      have hstep' : m' = m.setGreen t ((m.threads t).green.labelCall c).2 := by
        cases c <;> cases hstep <;> rfl
      subst hstep'
      refine h.setGreen m rfl hpassed ((h.flagsOk t).of_call (c := .labels c) ?_)
        (.inl ⟨rfl, fun hflag => ?_⟩)
      · intro err heq
        cases heq
        exact hc err rfl
      · rw [GreenThread.flags_labelCall _ hc]
        exact hflag

/-- `OSpassCurrentLabels` in an operation. -/
private theorem kept_pass {m m' : Machine ι} (h : m.Kept) {t : ι} {mem : Leftovers}
    {op : FileOp} {tr : Transfer} (hpoint : (m.threads t).control = .pass op tr)
    (hapart : m.Apart (t, .pass mem)) (hstep : m.step (t, .pass mem) = some m') : m'.Kept := by
  simp only [step, hpoint, osPassCurrentLabels] at hstep
  cases hin : (m.threads t).green.inSecureRegion with
  | false =>
      simp only [hin] at hstep
      cases hstep
      refine ⟨fun u => ?_, ?_, fun u hinU hu => ?_⟩
      · rw [green_setControl]
        exact h.flagsOk u
      · simp only [green_setControl]
        exact h.label
      · rw [green_setControl] at hinU
        by_cases hut : u = t
        · subst hut
          rw [hin] at hinU
          cases hinU
        · rw [threads_setControl_ne m t _ hut] at hu
          have hsame := green_setControl m t (op.afterPass tr) u
          exact (hasLabelOf_congr m (m.setControl t _) rfl (congrArg _ hsame)
            (congrArg _ hsame)).2 (h.passed u hinU hu)
  | true =>
      obtain ⟨hS, hI, hnone⟩ := hapart hin
      obtain ⟨lbl, hpass, hlbl⟩ := m.passLabels_passable hS hI mem.slackS mem.slackI mem.stack
      obtain ⟨hok, hflag⟩ := (h.flagsOk t).of_pass hin
      simp only [hin, if_true, hpass] at hstep
      cases hstep
      refine ⟨fun u => ?_, .inr ⟨t, ?_⟩, fun u hinU hu => ?_⟩
      · rw [green_setControl]
        by_cases hut : u = t
        · subst hut
          rw [green_setGreen_self]
          exact hok
        · obtain ⟨hchain, hsame⟩ := green_setGreen_ne { m with label := lbl } t
            ((m.threads t).green.osPassCurrentLabels 0).2 hut
          exact flagsOk_congr hchain hsame (h.flagsOk u)
      · rw [green_setControl, green_setGreen_self]
        exact hflag
      · by_cases hut : u = t
        · -- its own labels have just been passed
          subst hut
          rw [hasLabelOf_inside hinU, green_setControl, green_setGreen_self,
            GreenThread.osPassCurrentLabels_inside hin]
          exact hlbl
        · rw [threads_setControl_ne _ t _ hut] at hu
          rw [green_setControl, (green_setGreen_ne _ t _ hut).2] at hinU
          exact absurd hu (Bool.eq_false_iff.1 (hnone u hut hinU))

private theorem passed_afterHack (op : FileOp) (tr : Transfer) :
    (op.afterHack tr).passed = (Control.hack op tr).passed := by
  cases op <;> rfl

/-- No operation begins behind the passing of its labels. -/
private theorem passed_enter (op : FileOp) : op.enter.passed = false := by
  cases op <;> simp only [FileOp.enter] <;> repeat' split
  all_goals rfl

/-- Every step keeps the invariant. -/
theorem kept_step {m m' : Machine ι} {a : ι × VmStep} (h : m.Kept) (hapart : m.Apart a)
    (hstep : m.step a = some m') : m'.Kept := by
  obtain ⟨t, a⟩ := a
  cases a with
  | call c mem =>
      simp only [step] at hstep
      split at hstep
      · rename_i last hidle
        exact kept_difcCall h hidle hapart hstep
      · cases hstep
  | file op =>
      simp only [step] at hstep
      split at hstep
      · cases hstep
        refine h.setControl t op.enter fun hpassed => ?_
        rw [passed_enter] at hpassed
        cases hpassed
      · cases hstep
  | pass mem =>
      cases hpoint : (m.threads t).control with
      | pass op tr => exact kept_pass h hpoint hapart hstep
      | _ =>
          simp only [step, hpoint] at hstep
          cases hstep
  | hack =>
      simp only [step] at hstep
      split at hstep
      · rename_i op tr hpoint
        cases hstep
        refine h.setControl t _ fun hpassed => ?_
        rw [hpoint]
        split at hpassed
        · rwa [passed_afterHack] at hpassed
        · exact hpassed
      · cases hstep
  | sys rc =>
      simp only [step] at hstep
      split at hstep
      · rename_i op tr hpoint
        cases hstep
        refine h.setControl t _ fun _ => ?_
        rw [hpoint]
        rfl
      · cases hstep
  | wake wake =>
      simp only [step] at hstep
      split at hstep
      · rename_i op tr hpoint
        obtain ⟨control, hcontrol, rfl⟩ := Option.map_eq_some_iff.1 hstep
        refine h.setControl t _ fun hpassed => ?_
        rw [hpoint]
        cases wake with
        | ready =>
            cases hcontrol
            rwa [passed_afterHack] at hpassed
        | notReady =>
            cases hcontrol
            cases hpassed
        | timedOut => cases hcontrol
      · rename_i op tr hpoint
        obtain ⟨control, _, rfl⟩ := Option.map_eq_some_iff.1 hstep
        refine h.setControl t _ fun _ => ?_
        rw [hpoint]
        rfl
      · cases hstep

/-- **File operations of threads that stay apart**: in a run whose steps all observe
`Apart`, every system call of a file operation is made while the kernel's label is the
label of the thread that makes it. -/
theorem sys_label_of_run (nonblocking : Nat → Bool) {h : List (ι × VmStep)}
    {m m' : Machine ι} {t : ι} {rc : Int} (hrun : Run step Apart (boot nonblocking) h m)
    (hapart : m.Apart (t, .sys rc)) (hstep : m.step (t, .sys rc) = some m') :
    m.HasLabelOf t := by
  have hkept : m.Kept :=
    hrun.invariant (kept_boot nonblocking) fun _ _ _ hk ha hs => kept_step hk ha hs
  cases hin : (m.threads t).green.inSecureRegion with
  | true =>
      apply hkept.passed t hin
      simp only [step] at hstep
      split at hstep
      · rename_i op tr hpoint
        rw [hpoint]
        rfl
      · cases hstep
  | false =>
      -- a label of the task would belong to a region of another thread, or of this one
      rw [HasLabelOf, hin]
      rcases hkept.label with hempty | ⟨u, hu⟩
      · exact hempty
      · by_cases hut : u = t
        · subst hut
          exact absurd hu ((hkept.flagsOk u).outside hin)
        · exact absurd hu (hapart hin u hut)

private def noLeftovers : Leftovers := ⟨.zero, [], []⟩

/-- A thread in a region with secrecy label 5 calls `stat`. -/
theorem sys_label_of_run_stat :
    ∃ h m, Run step Apart (boot fun _ => true : Machine Bool) h m ∧
      m.label.secList.entries = [5#64] ∧ m.HasLabelOf true := by
  have hrun : ∃ m, Run step Apart (boot fun _ => true : Machine Bool)
      ([] ++
        [(true, .call (.labels (.initializeThreadCapability (.getLabelSet 5) 0)) noLeftovers)] ++
        [(true, .call (.start (.startSecureRegion (some (.getLabelSet 5)) none)) noLeftovers)]
        ++ [(true, .file .stat)] ++ [(true, .pass noLeftovers)]) m ∧
      m.label.secList.entries = [5#64] ∧ (∃ m', m.step (true, .sys 0) = some m') ∧
      m.Apart (true, .sys 0) := by
    refine ⟨_, .snoc (.snoc (.snoc (.snoc .nil trivial rfl) trivial rfl) trivial rfl) ?_ rfl,
      by decide +kernel, ⟨_, rfl⟩, ?_⟩
    · intro _
      refine ⟨by decide +kernel, by decide +kernel, ?_⟩
      intro u hu
      cases u with
      | false => exact fun _ => rfl
      | true => exact absurd rfl hu
    · intro hout
      cases hout
  obtain ⟨m, hrun, hentries, ⟨m', hstep⟩, hapart⟩ := hrun
  exact ⟨_, m, hrun, hentries, sys_label_of_run _ hrun hapart hstep⟩

/-- A thread in a region with secrecy label 5 has called `stat`.  Another thread, in no
region, calls `stat` under that label. -/
theorem stat_under_foreign_label :
    ∃ h m m', Run step (fun _ _ => True) (boot fun _ => true : Machine Bool) h m ∧
      m.step (false, .sys 0) = some m' ∧ ¬ m.HasLabelOf false := by
  refine ⟨[] ++
    [(true, .call (.labels (.initializeThreadCapability (.getLabelSet 5) 0)) noLeftovers)] ++
    [(true, .call (.start (.startSecureRegion (some (.getLabelSet 5)) none)) noLeftovers)]
    ++ [(true, .file .stat)] ++ [(true, .pass noLeftovers)] ++ [(true, .sys 0)]
    ++ [(false, .file .stat)] ++ [(false, .pass noLeftovers)], _, _,
    .snoc (.snoc (.snoc (.snoc (.snoc (.snoc (.snoc .nil trivial rfl) trivial rfl) trivial rfl)
      trivial rfl) trivial rfl) trivial rfl) trivial rfl, rfl, ?_⟩
  intro hlabel
  obtain ⟨l, hl, _⟩ := (hlabel.1.2 5#64).1 (by decide +kernel)
  exact LabelSet.not_mem_empty l hl

end Machine

end Laminar.Vm
