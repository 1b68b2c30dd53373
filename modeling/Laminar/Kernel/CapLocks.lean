import Laminar.Kernel.System
import Laminar.Lib.Run
import Laminar.Lib.Waiting

/-!
# The capability locks

Every `task_security_struct` has a spinlock `cap_lock` around its two capability lists.  Here the
calls that work on these lists are seen as sequences of lock operations, with a result for every
exit, and tasks run them at the same time in any interleaving.

A lock is named by its address, which is what `difc_send_capabilities` compares before it takes
the locks of sender and receiver in ascending order.  A call sees the kernel as it is when it
begins; nothing is assumed about how the kernel changes between two calls.
-/

namespace Laminar.Kernel

open Laminar.Lib

/-- The address of a `cap_lock`. -/
abbrev LockAddr := BitVec 64

/-- The calls that take capability locks. -/
inductive CapCall
  | allocLabel (type : BitVec 32) (region : Int)
  | dropCapabilities (buf : Option (List CapabilityT)) (type : BitVec 32) (flag : Int)
  | resumeCapabilities (buf : Option (List CapabilityT)) (type : BitVec 32)
  | sendCapabilities (pid : Pid) (buf : Option (List CapabilityT)) (type : BitVec 32)
  | setLabel (lbl : LabelStruct) (label : LabelT) (opType labelType : Int) (checkOnly : Bool)

/-! ## Lock operations -/

/-- `spin_lock` and `spin_unlock` of one lock. -/
def lockOne (a : LockAddr) : List (LockOp LockAddr) := [.take a, .drop a]

/-- The locks of sender and receiver, taken in ascending order of their addresses and released in
the other order. -/
def lockBoth (tsec rsec : LockAddr) : List (LockOp LockAddr) :=
  if tsec < rsec then [.take tsec, .take rsec, .drop rsec, .drop tsec]
  else [.take rsec, .take tsec, .drop tsec, .drop rsec]

section Calls

variable (capLock : Pid → LockAddr) (k : Kernel) (p : Pid) (tsk : Task)

/-- The locks of `difc_alloc_label`: one after the other, those of the tasks the region names. -/
def allocLabelLocks (type : BitVec 32) (region : Int) :
    Except Fault (Ret × List (LockOp LockAddr)) := do
  let (label, _) ← difcAllocLabel k p tsk type region
  return (.label label, (k.recipients p tsk region).flatMap fun q => lockOne (capLock q))

/-- The locks of `difc_drop_capabilities` and `difc_resume_capabilities`: both return before the
lock if the words cannot be copied. -/
def moveLocks (buf : Option (List CapabilityT)) (result : Except Fault (Int × Kernel)) :
    Except Fault (Ret × List (LockOp LockAddr)) := do
  let (rv, _) ← result
  return (.rv rv, if buf.isNone then [] else lockOne (capLock p))

/-- The locks of `difc_send_capabilities`, exit by exit. -/
def sendCapabilitiesLocks (pid : Pid) (buf : Option (List CapabilityT)) (type : BitVec 32) :
    Except Fault (Ret × List (LockOp LockAddr)) :=
  match k.task pid with
  | none => .ok (.rv (-eSrch), [])
  | some dest => do
      let refused ← checkAllowed (tsk.security.map TaskSecurityStruct.label)
        (dest.security.map TaskSecurityStruct.label)
      if refused ≠ 0 then
        return (.rv (-ePerm), [])
      else
        match buf, tsk.security, dest.security with
        | none, _, _ => return (.rv (-eNomem), [])
        | some words, some tsec, some rsec =>
            let (_, _, rv) := moveWords type true words tsec.capList rsec.capSuspendList 0
            return (.rv rv, lockBoth (capLock p) (capLock pid))
        | some _, _, _ => throw .nullDeref

/-- The locks of `__difc_set_label`: the lock is released before any of the later exits. -/
def setLabelLocks (lbl : LabelStruct) (label : LabelT) (opType labelType : Int)
    (checkOnly : Bool) : Except Fault (Ret × List (LockOp LockAddr)) := do
  let (rv, _) ← difcSetLabel tsk lbl label opType labelType checkOnly
  return (.rv rv, if tsk.security.isNone then [] else lockOne (capLock p))

/-- What a call returns and the lock operations it performs. -/
def lockOps : CapCall → Except Fault (Ret × List (LockOp LockAddr))
  | .allocLabel type region => allocLabelLocks capLock k p tsk type region
  | .dropCapabilities buf type flag =>
      moveLocks capLock p buf (difcDropCapabilities k p tsk buf type flag)
  | .resumeCapabilities buf type =>
      moveLocks capLock p buf (difcResumeCapabilities k p tsk buf type)
  | .sendCapabilities pid buf type => sendCapabilitiesLocks capLock k p tsk pid buf type
  | .setLabel lbl label opType labelType checkOnly =>
      setLabelLocks capLock p tsk lbl label opType labelType checkOnly

end Calls

/-! ## What the calls do to the locks -/

section Calls

variable {capLock : Pid → LockAddr} {k : Kernel} {p : Pid} {tsk : Task}

/-- No lock at all, or one. -/
private theorem optional_lock (b : Bool) (a : LockAddr) :
    ∃ locks : List LockAddr, (if b then [] else lockOne a) = locks.flatMap lockOne := by
  cases b with
  | true => exact ⟨[], rfl⟩
  | false => exact ⟨[a], rfl⟩

private theorem moveLocks_cases {buf : Option (List CapabilityT)}
    {result : Except Fault (Int × Kernel)} {ret : Ret} {ops : List (LockOp LockAddr)}
    (h : moveLocks capLock p buf result = .ok (ret, ops)) :
    ∃ locks : List LockAddr, ops = locks.flatMap lockOne := by
  obtain ⟨⟨rv, k'⟩, -, hret⟩ := bind_eq_ok.1 h
  obtain ⟨-, rfl⟩ := Prod.mk.inj (Except.ok.inj hret)
  exact optional_lock _ _

private theorem sendCapabilitiesLocks_cases {pid : Pid} {buf : Option (List CapabilityT)}
    {type : BitVec 32} {ret : Ret} {ops : List (LockOp LockAddr)}
    (h : sendCapabilitiesLocks capLock k p tsk pid buf type = .ok (ret, ops)) :
    ops = [] ∨ buf.isSome = true ∧ ops = lockBoth (capLock p) (capLock pid) := by
  unfold sendCapabilitiesLocks at h
  split at h
  · exact .inl (Prod.mk.inj (Except.ok.inj h)).2.symm
  · obtain ⟨refused, -, h⟩ := bind_eq_ok.1 h
    split at h
    · exact .inl (Prod.mk.inj (Except.ok.inj h)).2.symm
    · split at h
      · exact .inl (Prod.mk.inj (Except.ok.inj h)).2.symm
      · exact .inr ⟨rfl, (Prod.mk.inj (Except.ok.inj h)).2.symm⟩
      · exact nomatch h

/-- **The lock operations of a call**: single locks one after the other, or the two locks of a
send. -/
theorem lockOps_cases {c : CapCall} {ret : Ret} {ops : List (LockOp LockAddr)}
    (h : lockOps capLock k p tsk c = .ok (ret, ops)) :
    (∃ locks : List LockAddr, ops = locks.flatMap lockOne) ∨
      ∃ pid words type, c = .sendCapabilities pid (some words) type ∧
        ops = lockBoth (capLock p) (capLock pid) := by
  cases c with
  | allocLabel type region =>
      obtain ⟨⟨label, k'⟩, -, hret⟩ := bind_eq_ok.1 h
      obtain ⟨-, rfl⟩ := Prod.mk.inj (Except.ok.inj hret)
      exact .inl ⟨(k.recipients p tsk region).map capLock, by rw [List.flatMap_map]⟩
  | dropCapabilities buf type flag => exact .inl (moveLocks_cases h)
  | resumeCapabilities buf type => exact .inl (moveLocks_cases h)
  | sendCapabilities pid buf type =>
      rcases sendCapabilitiesLocks_cases h with rfl | ⟨hbuf, rfl⟩
      · exact .inl ⟨[], rfl⟩
      · obtain ⟨words, rfl⟩ := Option.isSome_iff_exists.1 hbuf
        exact .inr ⟨pid, words, type, rfl, rfl⟩
  | setLabel lbl label opType labelType checkOnly =>
      obtain ⟨⟨rv, lbl'⟩, -, hret⟩ := bind_eq_ok.1 h
      obtain ⟨-, rfl⟩ := Prod.mk.inj (Except.ok.inj hret)
      exact .inl (optional_lock _ _)

theorem balanced_lockOne (a : LockAddr) : Balanced (lockOne a) := balanced_nil.bracket a

/-- Every exit of every call has released what it took. -/
theorem lockOps_balanced {c : CapCall} {ret : Ret} {ops : List (LockOp LockAddr)}
    (h : lockOps capLock k p tsk c = .ok (ret, ops)) : Balanced ops := by
  rcases lockOps_cases h with ⟨locks, rfl⟩ | ⟨pid, words, type, -, rfl⟩
  · clear h
    induction locks with
    | nil => exact balanced_nil
    | cons a locks ih => exact (balanced_lockOne a).append ih
  · unfold lockBoth
    split
    · exact (balanced_lockOne _).bracket _
    · exact (balanced_lockOne _).bracket _

private theorem ascending_lockOne (a : LockAddr) :
    Waiting.Ascending BitVec.toNat ∅ (lockOne a) := by
  refine ⟨fun b hb => absurd hb (Set.notMem_empty b), Set.mem_insert a ∅,
    Set.eq_empty_of_forall_notMem ?_⟩
  rintro c ⟨hc | hc, hne⟩
  · exact hne hc
  · exact hc

private theorem ascending_two {a b : LockAddr} (h : a < b) :
    Waiting.Ascending BitVec.toNat ∅ [.take a, .take b, .drop b, .drop a] := by
  have hne : a ≠ b := fun heq => BitVec.lt_irrefl b (heq ▸ h)
  refine ⟨fun c hc => absurd hc (Set.notMem_empty c), ?_, Set.mem_insert _ _, ?_, ?_⟩
  · rintro c (rfl | hc)
    · exact BitVec.lt_def.1 h
    · exact absurd hc (Set.notMem_empty c)
  · exact ⟨Set.mem_insert_of_mem _ (Set.mem_insert _ _), hne⟩
  · refine Set.eq_empty_of_forall_notMem ?_
    rintro c ⟨⟨hc | hc | hc, hb⟩, ha⟩
    · exact hb hc
    · exact ha hc
    · exact hc

/-- A call takes its locks in ascending order, unless it sends to its own task. -/
theorem lockOps_ascending {c : CapCall} {ret : Ret} {ops : List (LockOp LockAddr)}
    (h : lockOps capLock k p tsk c = .ok (ret, ops))
    (hother : ∀ pid words type, c = .sendCapabilities pid (some words) type →
      capLock pid ≠ capLock p) :
    Waiting.Ascending BitVec.toNat ∅ ops := by
  rcases lockOps_cases h with ⟨locks, rfl⟩ | ⟨pid, words, type, hc, rfl⟩
  · clear h
    induction locks with
    | nil => rfl
    | cons a locks ih => exact (ascending_lockOne a).append ih
  · have hne := hother pid words type hc
    unfold lockBoth
    split
    · rename_i hlt
      exact ascending_two hlt
    · rename_i hge
      refine ascending_two ?_
      have hne' : (capLock pid).toNat ≠ (capLock p).toNat := mt BitVec.toNat_inj.1 hne
      rw [BitVec.lt_def] at hge ⊢
      omega

end Calls

/-! ## Interleavings -/

/-- What happens next: a task that is in no call begins one, with the kernel as it then is, or a
task performs its next lock operation. -/
inductive LockEvent
  | call (k : Kernel) (p : Pid) (c : CapCall)
  | advance (p : Pid)

/-- One event. -/
def lockStep (capLock : Pid → LockAddr) (s : Waiting Pid LockAddr) :
    LockEvent → Option (Waiting Pid LockAddr)
  | .call k p c =>
      match k.task p with
      | none => none
      | some tsk =>
          match lockOps capLock k p tsk c with
          | .ok (_, ops) => s.start p ops
          | .error _ => none
  | .advance p => s.advance p

/-- Capabilities that can be copied from the user are sent to another task. -/
def LockEvent.ToOther (capLock : Pid → LockAddr) : LockEvent → Prop
  | .call _ p (.sendCapabilities pid (some _) _) => capLock pid ≠ capLock p
  | _ => True

section Runs

variable {capLock : Pid → LockAddr} {events : List LockEvent} {s s' : Waiting Pid LockAddr}

theorem ordered_lockStep {e : LockEvent} (h : s.Ordered BitVec.toNat) (hother : e.ToOther capLock)
    (hs : lockStep capLock s e = some s') : s'.Ordered BitVec.toNat := by
  cases e with
  | advance p => exact h.advance hs
  | call k p c =>
      unfold lockStep at hs
      dsimp only at hs
      split at hs
      · exact nomatch hs
      · split at hs
        · rename_i tsk _ _ ret ops hops
          refine h.start (lockOps_ascending hops ?_) hs
          rintro pid words type rfl
          exact hother
        · exact nomatch hs

/-- **Without sends to the own task the capability locks cannot deadlock.**  In every state that
any interleaving of the calls reaches, no set of tasks waits for locks held in the set; a task that
is in no call holds no lock; and every exit of every call has released what it took. -/
theorem capLocks_sound
    (hr : Run (lockStep capLock) (fun _ e => e.ToOther capLock) .idle events s) :
    (∀ tasks, ¬ s.Deadlocked tasks) ∧ (∀ p, s.pending p = [] → s.held p = ∅) ∧
      ∀ k p tsk c ret ops, lockOps capLock k p tsk c = .ok (ret, ops) → Balanced ops := by
  have hordered : s.Ordered BitVec.toNat :=
    hr.invariant Waiting.ordered_idle fun _ _ _ h hother hs => ordered_lockStep h hother hs
  refine ⟨hordered.not_deadlocked fun a => a.isLt, ?_, ?_⟩
  · intro p hidle
    have hp := hordered p
    rwa [hidle] at hp
  · exact fun k p tsk c ret ops h => lockOps_balanced h

end Runs

/-- A kernel with two tasks. -/
def twoTasks : Kernel :=
  (bootKernel 1000).addTask 2 ⟨1000, 2, some ⟨.zero, [], [], false⟩⟩

/-- Two tasks send to each other at the same time.  The first one gets its first lock, the other
one waits for it; when the first is through, the other goes on. -/
theorem capLocks_sound_crosswise :
    ∃ s, Run (lockStep fun p => BitVec.ofNat 64 p)
        (fun _ e => e.ToOther fun p => BitVec.ofNat 64 p) .idle
        ([] ++ [.call twoTasks 1 (.sendCapabilities 2 (some [5#64]) capPlusMask)] ++
          [.call twoTasks 2 (.sendCapabilities 1 (some [5#64]) capPlusMask)] ++ [.advance 1]) s ∧
      s.WaitsFor 2 1 ∧ ∀ tasks, ¬ s.Deadlocked tasks := by
  have hrun : Run (lockStep fun p => BitVec.ofNat 64 p)
      (fun _ e => e.ToOther fun p => BitVec.ofNat 64 p) .idle
      ([] ++ [.call twoTasks 1 (.sendCapabilities 2 (some [5#64]) capPlusMask)] ++
        [.call twoTasks 2 (.sendCapabilities 1 (some [5#64]) capPlusMask)] ++ [.advance 1]) _ :=
    .snoc (.snoc (.snoc .nil (show 2#64 ≠ 1#64 by decide) rfl) (show 1#64 ≠ 2#64 by decide) rfl)
      trivial rfl
  exact ⟨_, hrun, ⟨1#64, _, rfl, rfl⟩, (capLocks_sound hrun).1⟩

/-- **A task that sends capabilities to itself waits for itself.**  It has taken its own lock as
the receiver's and then takes it as the sender's. -/
theorem self_send_deadlocks :
    ∃ s, Run (lockStep fun p => BitVec.ofNat 64 p) (fun _ _ => True) .idle
        ([] ++ [.call (bootKernel 1000) 1 (.sendCapabilities 1 (some [5#64]) capPlusMask)] ++
          [.advance 1]) s ∧ s.Deadlocked {1} := by
  refine ⟨_, .snoc (.snoc .nil trivial rfl) trivial rfl, ⟨1, rfl⟩, ?_⟩
  rintro t rfl
  exact ⟨1, rfl, 1#64, _, rfl, rfl⟩

end Laminar.Kernel
