import Laminar.Kernel.InBounds

/-!
# Well-formed labels

A label is well formed when both counts fit and no tag occurs twice in a list.
`add_label` and `remove_label` keep labels well formed.  The routes that copy a
whole label from user memory check capabilities and nothing else: a buffer that
names a tag twice is stored as it is, and a later removal takes out one of the
two.  A count past the array is not checked either and sends `list_for_each_label`
outside the list.  With well-formed user buffers every label stays well formed.
-/

namespace Laminar.Kernel

open Laminar.Lib

/-- Both counts fit and no list contains a tag twice. -/
def LabelStruct.WellFormed (lbl : LabelStruct) : Prop :=
  lbl.Bounded ∧ ∀ k, (lbl.list k).entries.Nodup

theorem wellFormed_zero : LabelStruct.zero.WellFormed := by
  refine ⟨by decide, ?_⟩
  rintro (_ | _) <;> exact List.nodup_nil

/-- A single change keeps a label well formed. -/
theorem Changed.wellFormed {tsk : Task} {label : LabelT} {opType labelType : Int}
    {lbl lbl' : LabelStruct} {k : ListKind}
    (h : Changed tsk label opType labelType lbl lbl' k) (hwf : lbl.WellFormed) :
    lbl'.WellFormed := by
  refine ⟨h.bounded_all hwf.1, fun k' => ?_⟩
  by_cases hk : k' = k
  · subst hk
    rcases h.entries with ⟨-, -, hmem, hent⟩ | ⟨-, -, -, hent⟩
    · rw [hent]
      exact List.nodup_append.2 ⟨hwf.2 k', by simp,
        fun a ha b hb heq => hmem (List.mem_singleton.1 hb ▸ heq ▸ ha)⟩
    · rw [hent]
      exact (hwf.2 k').erase label
  · rw [h.frame k' hk]
    exact hwf.2 k'

theorem difcSetLabel_wellFormed {tsk : Task} {lbl lbl' : LabelStruct} {label : LabelT}
    {opType labelType n : Int} (hwf : lbl.WellFormed)
    (h : difcSetLabel tsk lbl label opType labelType false = .ok (n, lbl')) :
    lbl'.WellFormed := by
  obtain ⟨rv, out, hrun, hcase⟩ := difcSetLabel_spec tsk hwf.1 label opType labelType
  rw [hrun] at h
  obtain ⟨rfl, rfl⟩ := Prod.mk.inj (Except.ok.inj h)
  rcases hcase with ⟨-, rfl⟩ | ⟨-, k, hchanged⟩
  · exact hwf
  · exact hchanged.wellFormed hwf

/-- The calls whose user label, if they read one, is well formed. -/
def WellFormedBuffer (_ : Kernel) (c : Pid × Call) : Prop :=
  ∀ ulabel, c.2.userLabel = some ulabel → ulabel.WellFormed

/-- A removal that returns 0 from a well-formed label leaves the tag absent. -/
theorem remove_absent {k k' : Kernel} (hk : AllLabels LabelStruct.WellFormed k) {p : Pid}
    {label : LabelT} {labelType : Int} {bulkLabel : Option LabelStruct}
    (h : perform k p (.setTaskLabel label labelOpRemove labelType bulkLabel) =
      .ok (.rv 0, k')) {kind : ListKind} (hkind : listOfType labelType = some kind)
    {tsec : TaskSecurityStruct} (hsec : k'.security p = some tsec) :
    label ∉ (tsec.label.list kind).entries := by
  obtain ⟨tsk, htask, h⟩ := perform_eq_ok h
  obtain ⟨n, hn, hcall⟩ := int_eq_ok h
  obtain rfl := Ret.rv.inj hn
  rcases difcSetTaskLabel_cases hcall with ⟨-, hop, -⟩ | ⟨_, hop, -⟩ | ⟨lbl, -, hset, rfl⟩
  · exact absurd hop (by decide)
  · exact absurd hop (by decide)
  rw [Kernel.setLabel, Kernel.security_modifySecurity, if_pos rfl] at hsec
  obtain ⟨old, hold, rfl⟩ := Option.map_eq_some_iff.1 hsec
  have hwf := hk.task p old hold
  rw [← security_of_task htask, hold] at hset
  obtain ⟨rv, out, hrun, hcase⟩ := difcSetLabel_spec tsk hwf.1 label labelOpRemove labelType
  rw [show (Option.map TaskSecurityStruct.label (some old)).getD .zero = old.label from rfl,
    hrun] at hset
  obtain ⟨rfl, rfl⟩ := Prod.mk.inj (Except.ok.inj hset)
  rcases hcase with ⟨hne, -⟩ | ⟨-, kind', hchanged⟩
  · exact absurd rfl hne
  obtain rfl : kind = kind' := Option.some.inj (hkind.symm.trans hchanged.kind)
  rcases hchanged.entries with ⟨hop, -⟩ | ⟨-, -, -, hent⟩
  · exact absurd hop (by decide)
  · show label ∉ (out.list kind).entries
    rw [hent]
    exact (hwf.2 kind).not_mem_erase

/-- In every run from zero labels whose calls read well-formed user labels, every
label is well formed, such calls stay in bounds, and a removal that returns 0
removes the tag. -/
theorem labels_wellFormed_of_wellFormed_buffers (k₀ : Kernel)
    (hzero : AllLabels (· = .zero) k₀) (calls : List (Pid × Call)) (k : Kernel)
    (hrun : Run Kernel.step WellFormedBuffer k₀ calls k) :
    AllLabels LabelStruct.WellFormed k ∧
      (∀ p c, WellFormedBuffer k (p, c) → InBounds (perform k p c)) ∧
      ∀ p label labelType bulkLabel k' kind tsec,
        perform k p (.setTaskLabel label labelOpRemove labelType bulkLabel) =
          .ok (.rv 0, k') →
        listOfType labelType = some kind → k'.security p = some tsec →
        label ∉ (tsec.label.list kind).entries := by
  have hinit : AllLabels LabelStruct.WellFormed k₀ :=
    ⟨fun q tsec h => hzero.task q tsec h ▸ wellFormed_zero,
      fun i lbl h => hzero.inode i lbl h ▸ wellFormed_zero⟩
  have hwf : AllLabels LabelStruct.WellFormed k := by
    refine Run.invariant hinit (fun k c k' hk hguard hstep => ?_) hrun
    obtain ⟨ret, hperform⟩ := Kernel.step_eq_some hstep
    obtain ⟨tsk, htask, heffect⟩ := perform_effect hperform
    exact hk.effect htask heffect wellFormed_zero
      (fun _ _ _ _ _ _ hlbl hset => difcSetLabel_wellFormed hlbl hset)
      (fun ulabel hu _ => hguard ulabel hu)
  have hbounded : AllLabels LabelStruct.Bounded k :=
    ⟨fun q tsec h => (hwf.task q tsec h).1, fun i lbl h => (hwf.inode i lbl h).1⟩
  refine ⟨hwf, fun p c hguard => ?_, ?_⟩
  · exact inBounds_perform hbounded p fun l hl => (hguard l hl).1
  · intro p label labelType bulkLabel k' kind tsec h hkind hsec
    exact remove_absent hwf h hkind hsec

/-- A task allocates label 2 and labels itself with it by a bulk replacement. -/
theorem wellFormed_after_replace :
    ∃ calls k, Run Kernel.step WellFormedBuffer (bootKernel 1000) calls k ∧
      (k.security 1).map (fun tsec => tsec.label.secList.entries) = some [2#64] ∧
      AllLabels LabelStruct.WellFormed k := by
  have hbuf : LabelStruct.WellFormed ⟨.ofLabels [2#64], .ofLabels []⟩ :=
    ⟨by decide, by rintro (_ | _) <;> decide⟩
  have hrun : Run Kernel.step WellFormedBuffer (bootKernel 1000)
      ([] ++ [(1, .allocLabel (capPlusMask ||| capMinusMask) regionSelf)] ++
        [(1, .setTaskLabel 0#64 labelOpReplace 0
          (some ⟨.ofLabels [2#64], .ofLabels []⟩))]) _ :=
    .snoc (.snoc .nil (fun _ h => by simp [Call.userLabel] at h) rfl)
      (fun _ h => Option.some.inj h ▸ hbuf) rfl
  exact ⟨_, _, hrun, rfl,
    (labels_wellFormed_of_wellFormed_buffers _ (allLabels_bootKernel 1000) _ _ hrun).1⟩

/-- The same task names its label twice.  The replacement returns 0 and stores both
copies; removing the tag then returns 0 and leaves the second one. -/
theorem replace_stores_duplicate :
    ∃ calls k k', Run Kernel.step (fun _ _ => True) (bootKernel 1000) calls k ∧
      ¬ AllLabels LabelStruct.WellFormed k ∧
      perform k 1 (.setTaskLabel 2#64 labelOpRemove 0 none) = .ok (.rv 0, k') ∧
      (k'.security 1).map (fun tsec => tsec.label.secList.entries) = some [2#64] := by
  refine ⟨[] ++ [(1, .allocLabel (capPlusMask ||| capMinusMask) regionSelf)] ++
    [(1, .setTaskLabel 0#64 labelOpReplace 0
      (some ⟨.ofLabels [2#64, 2#64], .ofLabels []⟩))], _, _,
    .snoc (.snoc .nil trivial rfl) trivial rfl, fun hall => ?_, rfl, rfl⟩
  exact absurd ((hall.task 1 _ rfl).2 .sec) (by decide)

end Laminar.Kernel
