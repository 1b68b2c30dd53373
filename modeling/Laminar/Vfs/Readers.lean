import Laminar.Kernel.Labels
import Laminar.Vfs.Balance

/-!
# The write side of the label semaphore

Whole runs of the system, in which tasks make calls on labels and calls on files
in any order.  If no call on a file takes a leaking path, no inode keeps a reader,
so `difc_inode_set_label` never waits.
-/

namespace Laminar.Vfs

open Laminar.Lib Laminar.Kernel

/-! ## Steps -/

/-- The readers of an inode's `label_change_sem`. -/
def readers (k : Kernel) (i : Ino) : Nat :=
  ((k.inode i).bind Inode.iSecurity).elim 0 ObjectSecurityStruct.labelChangeSem

/-- The system with other readers. -/
def withReaders (k : Kernel) (holds : Ino → Nat) : Kernel :=
  { k with
    inode := fun i => (k.inode i).map fun inode =>
      { inode with
        iSecurity := inode.iSecurity.map fun oss => { oss with labelChangeSem := holds i } } }

/-- A call of a task, on labels or on files. -/
inductive SystemCall
  | labels (c : Call)
  | files (c : FileCall)

/-- A call on files that returns; the lock operations it performed change the
readers. -/
def fileStep (k : Kernel) (p : Pid) (c : FileCall) : Option Kernel :=
  (k.task p).bind fun current =>
    match c.run k current with
    | .error _ => none
    | .ok (_, ops) => (replay ops (readers k)).map (withReaders k)

/-- A call that returns. -/
def systemStep (k : Kernel) : Pid × SystemCall → Option Kernel
  | (p, .labels c) => k.step (p, c)
  | (p, .files c) => fileStep k p c

/-- The call does not take a leaking path. -/
def NoLeak (k : Kernel) : Pid × SystemCall → Prop
  | (_, .labels _) => True
  | (p, .files c) => ∀ current, k.task p = some current → ¬ c.Leaks k current

/-! ## No reader stays -/

/-- No inode has a reader. -/
def NoReaders (k : Kernel) : Prop := ∀ i, readers k i = 0

theorem readers_withReaders_zero (k : Kernel) (i : Ino) :
    readers (withReaders k fun _ => 0) i = 0 := by
  cases hi : k.inode i with
  | none => simp [readers, withReaders, hi]
  | some inode => cases hoss : inode.iSecurity <;> simp [readers, withReaders, hi, hoss]

/-- A call that does not leak returns every semaphore to where it was. -/
theorem NoReaders.fileStep {k k' : Kernel} {p : Pid} {c : FileCall} (hk : NoReaders k)
    (hguard : NoLeak k (p, .files c)) (h : fileStep k p c = some k') : NoReaders k' := by
  obtain ⟨current, htask, hrun⟩ := Option.bind_eq_some_iff.1 h
  split at hrun
  · simp at hrun
  · rename_i rv ops hops
    have hb : Balanced ops := (FileCall.run_balanced_iff hops).2 (hguard current htask)
    have hzero : readers k = fun _ => 0 := funext hk
    rw [hb.replay, Option.map_some, hzero] at hrun
    obtain rfl := Option.some.inj hrun
    exact readers_withReaders_zero k

theorem NoReaders.setInode {k : Kernel} {i : Ino} {inode : Inode} (hk : NoReaders k)
    (hi : ∀ oss, inode.iSecurity = some oss → oss.labelChangeSem = 0) :
    NoReaders (k.setInode i inode) := by
  intro j
  by_cases hj : j = i
  · subst hj
    cases hoss : inode.iSecurity with
    | none => simp [readers, Kernel.setInode, hoss]
    | some oss => simpa [readers, Kernel.setInode, hoss] using hi oss hoss
  · simpa [readers, Kernel.setInode, hj] using hk j

/-- Calls on labels do not touch the readers. -/
theorem NoReaders.effect {k k' : Kernel} {p : Pid} {tsk : Task} {c : Call} {ret : Ret}
    (hk : NoReaders k) (h : Effect k p tsk c ret k') : NoReaders k' := by
  cases h with
  | same h => exact fun i => by rw [readers, h.inode]; exact hk i
  | fork => exact hk
  | replace _ => exact hk
  | single _ _ => exact hk
  | replaceTcb _ _ => exact hk
  | @inodeSet i inode oss ulabel hinode hoss _ =>
      refine hk.setInode fun oss' hoss' => ?_
      obtain rfl := Option.some.inj hoss'
      have hread := hk i
      rw [readers, hinode, Option.bind_some, hoss] at hread
      exact hread
  | create _ => exact hk.setInode fun oss hoss => Option.some.inj hoss ▸ rfl
  | exec _ _ => exact hk

/-- A call on files that returns releases what it took, and only that, exactly if
it takes none of the leaking paths.  In every run whose calls take none of them,
`difc_inode_set_label` can take the write lock of every inode. -/
theorem balanced_iff_and_downWrite_of_noLeak (k : Kernel) :
    (∀ (current : Task) (c : FileCall) (rv : Int) (ops : List (LockOp Ino)),
      c.run k current = .ok (rv, ops) → (Balanced ops ↔ ¬ c.Leaks k current)) ∧
    ∀ (k₀ : Kernel) (calls : List (Pid × SystemCall)), NoReaders k₀ →
      Run systemStep NoLeak k₀ calls k → ∀ i inode oss, k.inode i = some inode →
        inode.iSecurity = some oss → downWrite oss.labelChangeSem = .ok () := by
  refine ⟨fun _ _ _ _ h => FileCall.run_balanced_iff h, ?_⟩
  intro k₀ calls hinit hrun i inode oss hinode hoss
  have hfree : NoReaders k := by
    refine Run.invariant hinit (fun k c k' hk hguard hstep => ?_) hrun
    obtain ⟨p, c | c⟩ := c
    · obtain ⟨ret, hperform⟩ := Kernel.step_eq_some hstep
      obtain ⟨tsk, -, heffect⟩ := perform_effect hperform
      exact hk.effect heffect
    · exact hk.fileStep hguard hstep
  have hread := hfree i
  rw [readers, hinode, Option.bind_some, hoss] at hread
  exact downWrite_eq_ok.2 hread

/-! ## Runs -/

/-- A directory that can be read and listed. -/
def directory : File :=
  ⟨10, true, false, false, some ⟨true, false, false, false, false, false, true, false⟩⟩

/-- The system with an unlabeled inode. -/
def withInode : Kernel := (bootKernel 1000).setInode 10 ⟨some ⟨.zero, 0⟩, [0]⟩

/-- The task creates a file and reads it: the read is balanced, and afterwards the
label of the file can be changed. -/
theorem downWrite_after_read :
    (∃ calls k inode oss, Run systemStep NoLeak (bootKernel 1000) calls k ∧
      k.inode 10 = some inode ∧ inode.iSecurity = some oss ∧
      downWrite oss.labelChangeSem = .ok ()) ∧
    FileCall.run withInode ⟨1000, 1, none⟩ (.read directory ⟨true, 1, 1, 0⟩) =
      .ok (1, [.take 10, .drop 10]) ∧
    Balanced [LockOp.take (10 : Ino), .drop 10] := by
  have hrun : Run systemStep NoLeak (bootKernel 1000)
      ([] ++ [(1, .labels (.createInode 10 0 none ⟨false, true, false, true⟩))] ++
        [(1, .files (.read directory ⟨true, 1, 1, 0⟩))]) _ :=
    .snoc (.snoc .nil trivial rfl) (fun _ _ => id) rfl
  refine ⟨⟨_, _, _, _, hrun, rfl, rfl, ?_⟩, rfl, ?_⟩
  · exact (balanced_iff_and_downWrite_of_noLeak _).2 _ _ (fun _ => rfl) hrun 10 _ _ rfl rfl
  · exact ((balanced_iff_and_downWrite_of_noLeak withInode).1 ⟨1000, 1, none⟩
      (.read directory ⟨true, 1, 1, 0⟩) 1 _ rfl).2 id

/-- The task creates a directory and lists it.  The call succeeds and keeps the
lock, and from then on `difc_inode_set_label` waits. -/
theorem readdir_keeps_lock :
    (FileCall.run withInode ⟨1000, 1, none⟩ (.readdir directory false 0) =
        .ok (0, [.take 10]) ∧ ¬ Balanced [LockOp.take (10 : Ino)]) ∧
    ∃ calls k inode, Run systemStep (fun _ _ => True) (bootKernel 1000) calls k ∧
      k.inode 10 = some inode ∧
      difcInodeSetLabel k ⟨1000, 1, none⟩ 10 inode (some .zero) = .error .wouldBlock := by
  refine ⟨⟨rfl, (balanced_nil.append balanced_nil).not_insert_take 10⟩,
    [] ++ [(1, .labels (.createInode 10 0 none ⟨false, true, false, true⟩))] ++
      [(1, .files (.readdir directory false 0))], _, _,
    .snoc (.snoc .nil trivial rfl) trivial rfl, rfl, rfl⟩

end Laminar.Vfs
