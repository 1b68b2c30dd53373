import Mathlib.Logic.Relation
import Laminar.Kernel.System

/-!
# What `difc_inode_permission` decides

With both security structures present and counts that fit, the hook decides the flow rule
for the directions its mask asks for: data flows from the inode to the task when the mask
reads or executes, and from the task to the inode when it writes.  The short cut for two
unlabeled parties answers what the loops would, and the two verdicts, or-ed together, are 0
only when both are.

The rule composes: `Handed` is one task that may read one inode and write another, and along
a chain of such tasks secrecy only grows and integrity only shrinks.
-/

namespace Laminar.Kernel

open Laminar.Lib

/-! ## The flow rule -/

theorem Flows.refl (lbl : LabelStruct) : Flows lbl lbl := ⟨fun _ h => h, fun _ h => h⟩

theorem Flows.trans {a b c : LabelStruct} (hab : Flows a b) (hbc : Flows b c) : Flows a c :=
  ⟨fun l hl => hbc.1 l (hab.1 l hl), fun l hl => hab.2 l (hbc.2 l hl)⟩

/-- An unlabeled structure has no entries. -/
theorem LabelStruct.entries_unlabeled {lbl : LabelStruct} (h : lbl.unlabeled = true)
    (k : ListKind) : (lbl.list k).entries = [] := by
  obtain ⟨hsec, hint⟩ := Bool.and_eq_true_iff.1 h
  have hcount : (lbl.list k).count = 0 := by
    cases k with
    | sec => exact congrArg BitVec.toNat (beq_iff_eq.1 hsec)
    | int => exact congrArg BitVec.toNat (beq_iff_eq.1 hint)
  rw [LabelList.entries, hcount, List.take_zero]

/-- Everything may flow between two unlabeled structures. -/
theorem flows_unlabeled {a b : LabelStruct} (ha : a.unlabeled = true) (hb : b.unlabeled = true) :
    Flows a b := by
  have hsec : a.secList.entries = [] := LabelStruct.entries_unlabeled ha .sec
  have hint : b.intList.entries = [] := LabelStruct.entries_unlabeled hb .int
  constructor
  · rw [hsec]
    exact fun _ h => absurd h List.not_mem_nil
  · rw [hint]
    exact fun _ h => absurd h List.not_mem_nil

/-! ## The mask -/

/-- The mask contains `MAY_READ` or `MAY_EXEC`. -/
def AsksRead (mask : BitVec 32) : Prop := mask &&& mayRead ≠ 0#32 ∨ mask &&& mayExec ≠ 0#32

/-- The mask contains `MAY_WRITE`. -/
def AsksWrite (mask : BitVec 32) : Prop := mask &&& mayWrite ≠ 0#32

instance (mask : BitVec 32) : Decidable (AsksRead mask) := inferInstanceAs (Decidable (_ ∨ _))

instance (mask : BitVec 32) : Decidable (AsksWrite mask) := inferInstanceAs (Decidable (_ ≠ _))

theorem asksRead_iff {mask : BitVec 32} :
    mask &&& (mayRead ||| mayExec) ≠ 0#32 ↔ AsksRead mask := by
  rw [BitVec.and_or_distrib_left, ne_eq, BitVec.or_eq_zero_iff, Classical.not_and_iff_not_or_not]
  exact Iff.rfl

/-- `MAY_WRITE` is one bit, so that the test for the mask is the test for the bit. -/
theorem asksWrite_iff {mask : BitVec 32} : mask &&& mayWrite = mayWrite ↔ AsksWrite mask := by
  have hbit : mayWrite = BitVec.twoPow 32 1 := by decide
  rw [AsksWrite, hbit, BitVec.and_twoPow]
  split
  · exact iff_of_true rfl (by decide)
  · exact iff_of_false (by decide) (fun h => h rfl)

/-! ## The verdict -/

/-- The rule for an access by a task with label `t` to an inode with label `i`. -/
def AccessRule (t i : LabelStruct) (mask : BitVec 32) : Prop :=
  (AsksRead mask → Flows i t) ∧ (AsksWrite mask → Flows t i)

instance (t i : LabelStruct) (mask : BitVec 32) : Decidable (AccessRule t i mask) :=
  inferInstanceAs (Decidable (_ ∧ _))

/-- One of the two checks: it refuses if it is asked for and the rule does not hold. -/
private theorem checkIf_eq {cond : Bool} {asked : Prop} [Decidable asked]
    (hcond : cond = true ↔ asked) {src dest : LabelStruct} (hs : src.Bounded) (hd : dest.Bounded) :
    checkIf cond (checkAllowed (some src) (some dest)) =
      .ok (if asked → Flows src dest then 0 else -ePerm) := by
  rw [checkIf, checkAllowed_eq hs hd]
  by_cases hasked : asked
  · rw [if_pos (hcond.2 hasked)]
    by_cases hflows : Flows src dest
    · rw [if_pos hflows, if_pos fun _ => hflows]
    · rw [if_neg hflows, if_neg fun h => hflows (h hasked)]
  · rw [if_neg (mt hcond.1 hasked), if_pos fun h => absurd h hasked]

/-- **The hook decides the flow rule**, and its only error is `-EPERM`. -/
theorem difcInodePermission_eq {tsk : Task} {tsec : TaskSecurityStruct}
    {oss : ObjectSecurityStruct} (hsec : tsk.security = some tsec) (ht : tsec.label.Bounded)
    (hi : oss.label.Bounded) (mask : BitVec 32) :
    difcInodePermission tsk (some oss) mask =
      .ok (if AccessRule tsec.label oss.label mask then 0 else -ePerm) := by
  unfold difcInodePermission taskGetLabels
  rw [hsec]
  dsimp only [Option.all_some, Option.map_some]
  split
  · -- both are unlabeled, and the rule asks for nothing
    rename_i hboth
    obtain ⟨htask, hinode⟩ := Bool.and_eq_true_iff.1 hboth
    rw [if_pos ⟨fun _ => flows_unlabeled hinode htask, fun _ => flows_unlabeled htask hinode⟩]
    rfl
  · rw [checkIf_eq (decide_eq_true_iff.trans asksRead_iff) hi ht,
      checkIf_eq (decide_eq_true_iff.trans asksWrite_iff) ht hi]
    by_cases hread : AsksRead mask → Flows oss.label tsec.label
    · by_cases hwrite : AsksWrite mask → Flows tsec.label oss.label
      · rw [if_pos hread, if_pos hwrite, if_pos (show AccessRule _ _ _ from ⟨hread, hwrite⟩)]
        rfl
      · rw [if_pos hread, if_neg hwrite, if_neg (fun h : AccessRule _ _ _ => hwrite h.2)]
        rfl
    · rw [if_neg hread, if_neg (fun h : AccessRule _ _ _ => hread h.1)]
      split <;> rfl

/-! ## Chains -/

/-- A task whose security structure is present, with the label in it. -/
structure HasLabel (tsk : Task) (lbl : LabelStruct) : Prop where
  security : ∃ tsec, tsk.security = some tsec ∧ tsec.label = lbl
  bounded : lbl.Bounded

/-- What a granted permission says about the two labels. -/
theorem HasLabel.permission_iff {tsk : Task} {lbl : LabelStruct} (h : HasLabel tsk lbl)
    {oss : ObjectSecurityStruct} (hi : oss.label.Bounded) (mask : BitVec 32) :
    difcInodePermission tsk (some oss) mask = .ok 0 ↔ AccessRule lbl oss.label mask := by
  obtain ⟨tsec, hsec, rfl⟩ := h.security
  rw [difcInodePermission_eq hsec h.bounded hi, Except.ok.injEq]
  constructor
  · intro hzero
    by_cases hrule : AccessRule tsec.label oss.label mask
    · exact hrule
    · rw [if_neg hrule] at hzero
      exact absurd hzero (by decide)
  · exact fun hrule => if_pos hrule

/-- One hop: a task that keeps its label may read the first inode and write the second. -/
structure Handed (a b : ObjectSecurityStruct) : Prop where
  source : a.label.Bounded
  target : b.label.Bounded
  task : ∃ tsk lbl, HasLabel tsk lbl ∧
    (∃ mask, AsksRead mask ∧ difcInodePermission tsk (some a) mask = .ok 0) ∧
    ∃ mask, AsksWrite mask ∧ difcInodePermission tsk (some b) mask = .ok 0

theorem Handed.flows {a b : ObjectSecurityStruct} (h : Handed a b) : Flows a.label b.label := by
  obtain ⟨tsk, lbl, hlabel, ⟨rmask, hreads, hread⟩, wmask, hwrites, hwrite⟩ := h.task
  have hin : Flows a.label lbl := ((hlabel.permission_iff h.source rmask).1 hread).1 hreads
  have hout : Flows lbl b.label := ((hlabel.permission_iff h.target wmask).1 hwrite).2 hwrites
  exact hin.trans hout

/-- **The access check is the flow rule.**  `difc_inode_permission` returns 0 just when
reading and executing keep secrecy and integrity, and so does writing; and along every chain of
tasks that read one inode and write the next, data only moves to more secrecy and less
integrity. -/
theorem permission_is_flow_rule :
    (∀ (tsk : Task) (lbl : LabelStruct) (oss : ObjectSecurityStruct) (mask : BitVec 32),
      HasLabel tsk lbl → oss.label.Bounded →
        (difcInodePermission tsk (some oss) mask = .ok 0 ↔
          (AsksRead mask → Flows oss.label lbl) ∧ (AsksWrite mask → Flows lbl oss.label))) ∧
    ∀ a b : ObjectSecurityStruct, Relation.ReflTransGen Handed a b → Flows a.label b.label := by
  constructor
  · intro tsk lbl oss mask hlabel hi
    exact hlabel.permission_iff hi mask
  · intro a b hchain
    induction hchain with
    | refl => exact Flows.refl _
    | tail _ hlast ih => exact ih.trans hlast.flows

/-- A task with secrecy label 5 hands data from an unlabeled inode to one that carries 5 and 7,
and is refused the way back. -/
theorem permission_is_flow_rule_secret :
    let lbl : LabelStruct := ⟨.ofLabels [5#64], .ofLabels []⟩
    let tsk : Task := ⟨1000, 1, some ⟨lbl, [], [], false⟩⟩
    let a : ObjectSecurityStruct := ⟨⟨.ofLabels [], .ofLabels []⟩, 0⟩
    let b : ObjectSecurityStruct := ⟨⟨.ofLabels [7#64, 5#64], .ofLabels []⟩, 0⟩
    difcInodePermission tsk (some a) mayRead = .ok 0 ∧
      difcInodePermission tsk (some b) mayRead ≠ .ok 0 ∧
      Flows a.label b.label := by
  intro lbl tsk a b
  have hbound : ∀ labels : List LabelT, labels.length ≤ 31 → (LabelList.ofLabels labels).Bounded :=
    fun _ h => LabelList.bounded_ofLabels h
  have hlabel : HasLabel tsk lbl := ⟨⟨_, rfl, rfl⟩, hbound _ (by decide), hbound _ (by decide)⟩
  have ha : a.label.Bounded := ⟨hbound _ (by decide), hbound _ (by decide)⟩
  have hb : b.label.Bounded := ⟨hbound _ (by decide), hbound _ (by decide)⟩
  have hnone : (LabelList.ofLabels []).entries = [] := LabelList.entries_ofLabels (by decide)
  have hfive : (LabelList.ofLabels [5#64]).entries = [5#64] :=
    LabelList.entries_ofLabels (by decide)
  have hseven : (LabelList.ofLabels [7#64, 5#64]).entries = [7#64, 5#64] :=
    LabelList.entries_ofLabels (by decide)
  have hin : Flows a.label lbl := by simp [a, lbl, Flows, hnone]
  have hout : Flows lbl b.label := by simp [b, lbl, Flows, hnone, hfive, hseven]
  have hback : ¬ Flows b.label lbl := by simp [b, lbl, Flows, hfive, hseven]
  have hread : difcInodePermission tsk (some a) mayRead = .ok 0 :=
    (permission_is_flow_rule.1 tsk lbl a mayRead hlabel ha).2
      ⟨fun _ => hin, fun h => absurd h (by decide)⟩
  have hwrite : difcInodePermission tsk (some b) mayWrite = .ok 0 :=
    (permission_is_flow_rule.1 tsk lbl b mayWrite hlabel hb).2
      ⟨fun h => absurd h (by decide), fun _ => hout⟩
  refine ⟨hread, fun hgranted => ?_, permission_is_flow_rule.2 a b (.single ?_)⟩
  · exact hback (((permission_is_flow_rule.1 tsk lbl b mayRead hlabel hb).1 hgranted).1 (by decide))
  · exact ⟨ha, hb, tsk, lbl, hlabel, ⟨mayRead, by decide, hread⟩, mayWrite, by decide, hwrite⟩

end Laminar.Kernel
