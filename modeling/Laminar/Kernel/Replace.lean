import Laminar.Kernel.Caps

/-!
# Changing a label

`__difc_set_label` changes one label of a list, or with `check_only` only asks
whether the task may.  `check_label_replace` asks that question for every label
a bulk replacement adds or removes.  Neither function changes the capability
list.

On labels whose counts fit their arrays both are total, and the specification
lemmas say what they decide.
-/

namespace Laminar.Kernel

open Laminar.Lib

/-- `struct task_security_struct`.  The spin lock is left out: every hook holds
it for the whole of its work on the two capability lists. -/
structure TaskSecurityStruct where
  label : LabelStruct
  capList : CapList
  capSuspendList : CapList
  tcb : Bool

/-- The fields of `struct task_struct` that the module reads. -/
structure Task where
  uid : Nat
  tgid : Nat
  security : Option TaskSecurityStruct

/-- `LABEL_OP_ADD`, `LABEL_OP_REMOVE`, `LABEL_OP_REPLACE`. -/
def labelOpAdd : Int := 0
def labelOpRemove : Int := 1
def labelOpReplace : Int := 2

/-- `LABEL_TYPE_SEC`, `LABEL_TYPE_INT`. -/
def ListKind.labelType : ListKind → Int
  | .sec => 0
  | .int => 1

/-- `switch(label_type)`. -/
def listOfType (labelType : Int) : Option ListKind :=
  if labelType = ListKind.sec.labelType then some .sec
  else if labelType = ListKind.int.labelType then some .int
  else none

/-- `add_label`. -/
def addLabel (lbl : LabelStruct) (label : LabelT) (labelType : Int) :
    Except Fault (Int × LabelStruct) :=
  match listOfType labelType with
  | none => .ok (-eInval, lbl)
  | some k => do
      let (rv, list) ← addToList (lbl.list k) label
      return (rv, lbl.setList k list)

/-- `remove_label`. -/
def removeLabel (lbl : LabelStruct) (label : LabelT) (labelType : Int) :
    Except Fault (Int × LabelStruct) :=
  match listOfType labelType with
  | none => .ok (-eInval, lbl)
  | some k => do
      let (rv, list) ← removeFromList (lbl.list k) label
      return (rv, lbl.setList k list)

/-- `__difc_set_label`. -/
def difcSetLabel (tsk : Task) (lbl : LabelStruct) (label : LabelT)
    (opType labelType : Int) (checkOnly : Bool) : Except Fault (Int × LabelStruct) :=
  match tsk.security with
  | none => .ok (-eNotty, lbl)
  | some tsec =>
      -- Check that the task has said permission
      let cap := taskFindCapability tsec.capList label
      if cap = 0#64 then .ok (-ePerm, lbl)
      else if opType = labelOpAdd then
        if carries cap .plus then
          if checkOnly then .ok (0, lbl) else addLabel lbl label labelType
        else .ok (-ePerm, lbl)
      else if opType = labelOpRemove then
        if carries cap .minus then
          if checkOnly then .ok (0, lbl) else removeLabel lbl label labelType
        else .ok (-ePerm, lbl)
      else .ok (-eInval, lbl)

/-! ## `check_label_replace` -/

/-- The part the four loops share: look for `label` in the other list and, when
it is missing there, ask for the capability.  A result leaves the function. -/
def authorise (tsk : Task) (old : LabelStruct) (other : LabelList) (opType : Int)
    (k : ListKind) (label : LabelT) : Except Fault (Option Int) := do
  if ← hasLabel other label then
    return none
  else
    let (rv, _) ← difcSetLabel tsk old label opType k.labelType true
    return if rv < 0 then some rv else none

/-- The loop over the labels a secrecy list gains. -/
def checkSecAdds (tsk : Task) (oldlabel : Option LabelStruct) (newlabel : LabelStruct) :
    Except Fault (Option Int) :=
  listForEachLabel newlabel.secList fun _ srcLabel =>
    -- Only root can set TCB label
    if srcLabel = labelTcb ∧ tsk.uid ≠ 0 then .ok (some (-ePerm))
    else do
      let old ← deref oldlabel
      authorise tsk old old.secList labelOpAdd .sec srcLabel

/-- The loop over the labels an integrity list gains.  Root leaves this loop at
the first `LABEL_TCB`, with no verdict on the labels behind it. -/
def checkIntAdds (tsk : Task) (oldlabel : Option LabelStruct) (newlabel : LabelStruct) :
    Except Fault (Option Int) := do
  let left ← listForEachLabel newlabel.intList fun _ srcLabel =>
    if srcLabel = labelTcb then
      .ok (some (if tsk.uid ≠ 0 then some (-ePerm) else none))
    else do
      let old ← deref oldlabel
      let refused ← authorise tsk old old.intList labelOpAdd .int srcLabel
      return refused.map some
  return left.join

/-- The loops over the labels a list loses. -/
def checkRemoves (tsk : Task) (oldlabel : Option LabelStruct) (newlabel : LabelStruct)
    (k : ListKind) : Except Fault (Option Int) := do
  let old ← deref oldlabel
  listForEachLabel (old.list k) fun _ srcLabel =>
    authorise tsk old (newlabel.list k) labelOpRemove k srcLabel

/-- `check_label_replace`, called with `tsk` the current task. -/
def checkLabelReplace (tsk : Task) (oldlabel : Option LabelStruct)
    (newlabel : LabelStruct) : Except Fault Int := do
  if let some rv ← checkSecAdds tsk oldlabel newlabel then
    return rv
  if let some rv ← checkRemoves tsk oldlabel newlabel .sec then
    return rv
  if let some rv ← checkIntAdds tsk oldlabel newlabel then
    return rv
  if let some rv ← checkRemoves tsk oldlabel newlabel .int then
    return rv
  return 0

/-! ## What the checks decide -/

/-- The task's first capability for `label` carries `s`. -/
def permits (tsk : Task) (label : LabelT) (s : Sign) : Bool :=
  match tsk.security with
  | none => false
  | some tsec => carries (taskFindCapability tsec.capList label) s

theorem permits_holds {tsk : Task} {label : LabelT} {s : Sign}
    (h : permits tsk label s = true) :
    ∃ tsec, tsk.security = some tsec ∧ Holds tsec.capList label s := by
  unfold permits at h
  split at h
  · simp at h
  · rename_i tsec hsec
    exact ⟨tsec, hsec, holds_of_taskFindCapability h⟩

/-- The operation a sign is needed for. -/
def Sign.opType : Sign → Int
  | .plus => labelOpAdd
  | .minus => labelOpRemove

/-- The error of a refused single change: `-ENOTTY` without a security
structure, `-EPERM` without the sign. -/
def refusal (tsk : Task) (label : LabelT) (s : Sign) : Option Int :=
  if permits tsk label s then none
  else some (if tsk.security.isSome then -ePerm else -eNotty)

theorem refusal_eq_none {tsk : Task} {label : LabelT} {s : Sign} :
    refusal tsk label s = none ↔ permits tsk label s = true := by
  unfold refusal
  split <;> simp_all

theorem refusal_neg {tsk : Task} {label : LabelT} {s : Sign} {rv : Int}
    (h : refusal tsk label s = some rv) : rv < 0 := by
  unfold refusal at h
  split at h
  · simp at h
  · obtain rfl := Option.some.inj h
    split <;> decide

/-- With `check_only` the label is left alone and the verdict is `refusal`. -/
theorem difcSetLabel_checkOnly (tsk : Task) (lbl : LabelStruct) (label : LabelT)
    (s : Sign) (labelType : Int) :
    difcSetLabel tsk lbl label s.opType labelType true =
      .ok ((refusal tsk label s).getD 0, lbl) := by
  unfold difcSetLabel refusal permits
  cases htsk : tsk.security with
  | none => simp
  | some tsec =>
      by_cases hcap : taskFindCapability tsec.capList label = 0#64
      · simp [hcap, carries]
      · cases s <;> simp [hcap, Sign.opType, labelOpAdd, labelOpRemove] <;> split <;> rfl

theorem authorise_eq (tsk : Task) (old : LabelStruct) {other : LabelList}
    (h : other.Bounded) (s : Sign) (k : ListKind) (label : LabelT) :
    authorise tsk old other s.opType k label =
      .ok (if label ∈ other.entries then none else refusal tsk label s) := by
  rw [authorise, hasLabel_eq h, difcSetLabel_checkOnly]
  by_cases hmem : label ∈ other.entries
  · rw [decide_eq_true hmem, if_pos hmem]
    rfl
  · rw [decide_eq_false hmem, if_neg hmem]
    refine congrArg Except.ok ?_
    cases hr : refusal tsk label s with
    | none => rfl
    | some rv => exact if_pos (refusal_neg hr)

/-- How a single change that returned 0 relates the two labels. -/
structure Changed (tsk : Task) (label : LabelT) (opType labelType : Int)
    (lbl lbl' : LabelStruct) (k : ListKind) : Prop where
  kind : listOfType labelType = some k
  bounded : (lbl'.list k).Bounded
  frame : ∀ k', k' ≠ k → lbl'.list k' = lbl.list k'
  entries :
    (opType = labelOpAdd ∧ permits tsk label .plus = true ∧
      label ∉ (lbl.list k).entries ∧
      (lbl'.list k).entries = (lbl.list k).entries ++ [label]) ∨
    (opType = labelOpRemove ∧ permits tsk label .minus = true ∧
      label ∈ (lbl.list k).entries ∧
      (lbl'.list k).entries = (lbl.list k).entries.erase label)

theorem Changed.bounded_all {tsk : Task} {label : LabelT} {opType labelType : Int}
    {lbl lbl' : LabelStruct} {k : ListKind}
    (h : Changed tsk label opType labelType lbl lbl' k) (hb : lbl.Bounded) :
    lbl'.Bounded := by
  refine LabelStruct.bounded_iff.2 fun k' => ?_
  by_cases hk : k' = k
  · exact hk ▸ h.bounded
  · rw [h.frame k' hk]
    exact LabelStruct.bounded_iff.1 hb k'

private theorem addLabel_changed {tsk : Task} {lbl : LabelStruct} (hb : lbl.Bounded)
    {label : LabelT} (hp : permits tsk label .plus = true) (labelType : Int) :
    ∃ rv lbl', addLabel lbl label labelType = .ok (rv, lbl') ∧
      ((rv ≠ 0 ∧ lbl' = lbl) ∨
        (rv = 0 ∧ ∃ k, Changed tsk label labelOpAdd labelType lbl lbl' k)) := by
  unfold addLabel
  cases hk : listOfType labelType with
  | none => exact ⟨-eInval, lbl, rfl, Or.inl ⟨by decide, rfl⟩⟩
  | some k =>
      obtain ⟨rv, list, hrun, hcase⟩ :=
        addToList_spec (LabelStruct.bounded_iff.1 hb k) label
      refine ⟨rv, lbl.setList k list, by simp only [hrun]; rfl, ?_⟩
      rcases hcase with ⟨-, rfl, rfl⟩ | ⟨-, -, rfl, rfl⟩ | ⟨hmem, rfl, hbnd, hent⟩
      · exact Or.inl ⟨by decide, LabelStruct.setList_list lbl k⟩
      · exact Or.inl ⟨by decide, LabelStruct.setList_list lbl k⟩
      · refine Or.inr ⟨rfl, k, hk, ?_, fun k' h => LabelStruct.list_setList_ne lbl h list, ?_⟩
        · rwa [LabelStruct.list_setList_self]
        · exact Or.inl ⟨rfl, hp, hmem, by rw [LabelStruct.list_setList_self, hent]⟩

private theorem removeLabel_changed {tsk : Task} {lbl : LabelStruct} (hb : lbl.Bounded)
    {label : LabelT} (hp : permits tsk label .minus = true) (labelType : Int) :
    ∃ rv lbl', removeLabel lbl label labelType = .ok (rv, lbl') ∧
      ((rv ≠ 0 ∧ lbl' = lbl) ∨
        (rv = 0 ∧ ∃ k, Changed tsk label labelOpRemove labelType lbl lbl' k)) := by
  unfold removeLabel
  cases hk : listOfType labelType with
  | none => exact ⟨-eInval, lbl, rfl, Or.inl ⟨by decide, rfl⟩⟩
  | some k =>
      obtain ⟨rv, list, hrun, hcase⟩ :=
        removeFromList_spec (LabelStruct.bounded_iff.1 hb k) label
      refine ⟨rv, lbl.setList k list, by simp only [hrun]; rfl, ?_⟩
      rcases hcase with ⟨-, rfl, rfl⟩ | ⟨hmem, rfl, hbnd, hent⟩
      · exact Or.inl ⟨by decide, LabelStruct.setList_list lbl k⟩
      · refine Or.inr ⟨rfl, k, hk, ?_, fun k' h => LabelStruct.list_setList_ne lbl h list, ?_⟩
        · rwa [LabelStruct.list_setList_self]
        · exact Or.inr ⟨rfl, hp, hmem, by rw [LabelStruct.list_setList_self, hent]⟩

/-- On a label whose counts fit, `__difc_set_label` returns; an error leaves the
label alone and 0 means the one change asked for. -/
theorem difcSetLabel_spec (tsk : Task) {lbl : LabelStruct} (hb : lbl.Bounded)
    (label : LabelT) (opType labelType : Int) :
    ∃ rv lbl', difcSetLabel tsk lbl label opType labelType false = .ok (rv, lbl') ∧
      ((rv ≠ 0 ∧ lbl' = lbl) ∨
        (rv = 0 ∧ ∃ k, Changed tsk label opType labelType lbl lbl' k)) := by
  unfold difcSetLabel
  cases hsec : tsk.security with
  | none => exact ⟨-eNotty, lbl, rfl, Or.inl ⟨by decide, rfl⟩⟩
  | some tsec =>
      have hpermits : ∀ s, carries (taskFindCapability tsec.capList label) s = true →
          permits tsk label s = true := by
        intro s hs
        rw [permits, hsec]
        exact hs
      dsimp only
      split
      · exact ⟨-ePerm, lbl, rfl, Or.inl ⟨by decide, rfl⟩⟩
      split
      · rename_i hop
        subst hop
        split
        · rename_i hs
          exact addLabel_changed hb (hpermits .plus hs) labelType
        · exact ⟨-ePerm, lbl, rfl, Or.inl ⟨by decide, rfl⟩⟩
      split
      · rename_i hop
        subst hop
        split
        · rename_i hs
          exact removeLabel_changed hb (hpermits .minus hs) labelType
        · exact ⟨-ePerm, lbl, rfl, Or.inl ⟨by decide, rfl⟩⟩
      · exact ⟨-eInval, lbl, rfl, Or.inl ⟨by decide, rfl⟩⟩

/-- A label the other list has, or the task may change. -/
def Authorised (tsk : Task) (other : LabelList) (s : Sign) (label : LabelT) : Prop :=
  label ∈ other.entries ∨ permits tsk label s = true

private theorem missing_eq_none {tsk : Task} {other : LabelList} {s : Sign}
    {label : LabelT} :
    (if label ∈ other.entries then none else refusal tsk label s) = none ↔
      Authorised tsk other s label := by
  unfold Authorised
  split <;> simp_all [refusal_eq_none]

private theorem missing_neg {tsk : Task} {other : LabelList} {s : Sign} {label : LabelT}
    {rv : Int}
    (h : (if label ∈ other.entries then none else refusal tsk label s) = some rv) :
    rv < 0 := by
  split at h
  · simp at h
  · exact refusal_neg h

/-- What a loop of `check_label_replace` may return: nothing when `P` holds, and
otherwise an error. -/
structure Decides (out : Except Fault (Option Int)) (P : Prop) : Prop where
  total : ∃ v, out = .ok v
  accept : out = .ok none ↔ P
  error : ∀ rv, out = .ok (some rv) → rv < 0

theorem checkSecAdds_decides (tsk : Task) {old new : LabelStruct} (ho : old.Bounded)
    (hn : new.Bounded) :
    Decides (checkSecAdds tsk (some old) new)
      (∀ l ∈ new.secList.entries,
        (l = labelTcb → tsk.uid = 0) ∧ Authorised tsk old.secList .plus l) := by
  let f : LabelT → Option Int := fun l =>
    if l = labelTcb ∧ tsk.uid ≠ 0 then some (-ePerm)
    else if l ∈ old.secList.entries then none else refusal tsk l .plus
  have hloop : checkSecAdds tsk (some old) new =
      .ok (new.secList.entries.findSome? f) := by
    rw [checkSecAdds, listForEachLabel_eq hn.1]
    refine forEach_eq_findSome? (fun i l _ => ?_) 1
    by_cases htcb : l = labelTcb ∧ tsk.uid ≠ 0
    · simp only [f, if_pos htcb]
    · simp only [f, if_neg htcb]
      exact authorise_eq tsk old ho.1 .plus .sec l
  refine ⟨⟨_, hloop⟩, ?_, ?_⟩
  · rw [hloop, Except.ok.injEq, List.findSome?_eq_none_iff]
    refine forall₂_congr fun l _ => ?_
    by_cases htcb : l = labelTcb ∧ tsk.uid ≠ 0
    · simp only [f, if_pos htcb, reduceCtorEq, false_iff]
      exact fun h => htcb.2 (h.1 htcb.1)
    · simp only [f, if_neg htcb]
      rw [missing_eq_none]
      exact ⟨fun h => ⟨fun hl => Classical.not_not.1 fun hu => htcb ⟨hl, hu⟩, h⟩, And.right⟩
  · intro rv hrv
    rw [hloop, Except.ok.injEq] at hrv
    obtain ⟨l, -, hl⟩ := List.exists_of_findSome?_eq_some hrv
    simp only [f] at hl
    split at hl
    · obtain rfl := Option.some.inj hl
      decide
    · exact missing_neg hl

theorem checkRemoves_decides (tsk : Task) {old new : LabelStruct} {k : ListKind}
    (ho : (old.list k).Bounded) (hn : (new.list k).Bounded) :
    Decides (checkRemoves tsk (some old) new k)
      (∀ l ∈ (old.list k).entries, Authorised tsk (new.list k) .minus l) := by
  have hloop : checkRemoves tsk (some old) new k = .ok ((old.list k).entries.findSome?
      fun l => if l ∈ (new.list k).entries then none else refusal tsk l .minus) := by
    simp only [checkRemoves, deref, bind, Except.bind]
    rw [listForEachLabel_eq ho]
    exact forEach_eq_findSome? (fun i l _ => authorise_eq tsk old hn .minus k l) 1
  refine ⟨⟨_, hloop⟩, ?_, ?_⟩
  · rw [hloop, Except.ok.injEq, List.findSome?_eq_none_iff]
    exact forall₂_congr fun l _ => missing_eq_none
  · intro rv hrv
    rw [hloop, Except.ok.injEq] at hrv
    obtain ⟨l, -, hl⟩ := List.exists_of_findSome?_eq_some hrv
    exact missing_neg hl

/-- The search of the integrity loop.  It ends at the first `LABEL_TCB`: what
decides is whether that label is allowed and whether the labels before it are. -/
private theorem findSome?_join_eq_none {g : LabelT → Option Int} {stop : Option Int}
    (xs : List LabelT) :
    (xs.findSome? fun l => if l = labelTcb then some stop else (g l).map some).join = none ↔
      (labelTcb ∈ xs → stop = none) ∧
        ∀ l ∈ xs.takeWhile (· ≠ labelTcb), g l = none := by
  induction xs with
  | nil => simp
  | cons x xs ih =>
      by_cases hx : x = labelTcb
      · simp [hx]
      · have htw : (x :: xs).takeWhile (· ≠ labelTcb) =
            x :: xs.takeWhile (· ≠ labelTcb) := by simp [hx]
        rw [List.findSome?_cons, if_neg hx, htw]
        cases hg : g x with
        | none => simp [ih, hg, Ne.symm hx]
        | some rv => simp [hg]

theorem checkIntAdds_decides (tsk : Task) {old new : LabelStruct} (ho : old.Bounded)
    (hn : new.Bounded) :
    Decides (checkIntAdds tsk (some old) new)
      ((labelTcb ∈ new.intList.entries → tsk.uid = 0) ∧
        ∀ l ∈ new.intList.entries.takeWhile (· ≠ labelTcb),
          Authorised tsk old.intList .plus l) := by
  let stop : Option Int := if tsk.uid ≠ 0 then some (-ePerm) else none
  let g : LabelT → Option Int := fun l =>
    if l ∈ old.intList.entries then none else refusal tsk l .plus
  let f : LabelT → Option (Option Int) := fun l =>
    if l = labelTcb then some stop else (g l).map some
  have hstop : stop = none ↔ tsk.uid = 0 := by
    simp only [stop]
    split <;> simp_all
  have hloop : checkIntAdds tsk (some old) new =
      .ok (new.intList.entries.findSome? f).join := by
    rw [checkIntAdds, listForEachLabel_eq hn.2, forEach_eq_findSome? (f := f)]
    · rfl
    · intro i l _
      by_cases htcb : l = labelTcb
      · simp only [f, if_pos htcb, stop]
      · simp only [f, if_neg htcb, deref, bind, Except.bind]
        rw [show labelOpAdd = Sign.plus.opType from rfl, authorise_eq tsk old ho.2]
        rfl
  refine ⟨⟨_, hloop⟩, ?_, ?_⟩
  · rw [hloop, Except.ok.injEq, findSome?_join_eq_none, hstop]
    exact and_congr_right fun _ => forall₂_congr fun l _ => missing_eq_none
  · intro rv hrv
    rw [hloop, Except.ok.injEq, Option.join_eq_some_iff] at hrv
    obtain ⟨l, -, hl⟩ := List.exists_of_findSome?_eq_some hrv
    simp only [f] at hl
    split at hl
    · simp only [stop, Option.some.injEq] at hl
      split at hl
      · obtain rfl := Option.some.inj hl
        decide
      · simp at hl
    · rw [Option.map_eq_some_iff] at hl
      obtain ⟨v, hv, hvr⟩ := hl
      exact missing_neg (hv.trans hvr)

/-- What a bulk replacement needs: a capability for every label gained or lost,
and root for `LABEL_TCB`.  The integrity labels behind a `LABEL_TCB` are not
looked at. -/
structure ReplaceAllowed (tsk : Task) (old new : LabelStruct) : Prop where
  secAdds : ∀ l ∈ new.secList.entries,
    (l = labelTcb → tsk.uid = 0) ∧ Authorised tsk old.secList .plus l
  secRemoves : ∀ l ∈ old.secList.entries, Authorised tsk new.secList .minus l
  tcbAdd : labelTcb ∈ new.intList.entries → tsk.uid = 0
  intAdds : ∀ l ∈ new.intList.entries.takeWhile (· ≠ labelTcb),
    Authorised tsk old.intList .plus l
  intRemoves : ∀ l ∈ old.intList.entries, Authorised tsk new.intList .minus l

/-- On labels whose counts fit, `check_label_replace` returns, and it returns 0
exactly for the allowed replacements. -/
theorem checkLabelReplace_spec (tsk : Task) {old new : LabelStruct} (ho : old.Bounded)
    (hn : new.Bounded) :
    ∃ rv, checkLabelReplace tsk (some old) new = .ok rv ∧
      (rv = 0 ↔ ReplaceAllowed tsk old new) := by
  obtain ⟨⟨v₁, h₁⟩, ha₁, hr₁⟩ := checkSecAdds_decides tsk ho hn
  obtain ⟨⟨v₂, h₂⟩, ha₂, hr₂⟩ := checkRemoves_decides tsk (k := .sec) ho.1 hn.1
  obtain ⟨⟨v₃, h₃⟩, ha₃, hr₃⟩ := checkIntAdds_decides tsk ho hn
  obtain ⟨⟨v₄, h₄⟩, ha₄, hr₄⟩ := checkRemoves_decides tsk (k := .int) ho.2 hn.2
  simp only [checkLabelReplace, h₁, h₂, h₃, h₄, bind, Except.bind] at *
  cases v₁ with
  | some rv =>
      refine ⟨rv, rfl, ⟨fun h => ?_, fun h => ?_⟩⟩
      · exact absurd (hr₁ rv rfl) (by omega)
      · exact absurd (ha₁.2 h.secAdds) (by simp)
  | none =>
  cases v₂ with
  | some rv =>
      refine ⟨rv, rfl, ⟨fun h => ?_, fun h => ?_⟩⟩
      · exact absurd (hr₂ rv rfl) (by omega)
      · exact absurd (ha₂.2 h.secRemoves) (by simp)
  | none =>
  cases v₃ with
  | some rv =>
      refine ⟨rv, rfl, ⟨fun h => ?_, fun h => ?_⟩⟩
      · exact absurd (hr₃ rv rfl) (by omega)
      · exact absurd (ha₃.2 ⟨h.tcbAdd, h.intAdds⟩) (by simp)
  | none =>
  cases v₄ with
  | some rv =>
      refine ⟨rv, rfl, ⟨fun h => ?_, fun h => ?_⟩⟩
      · exact absurd (hr₄ rv rfl) (by omega)
      · exact absurd (ha₄.2 h.intRemoves) (by simp)
  | none =>
      refine ⟨0, rfl, fun _ => ?_, fun _ => rfl⟩
      exact ⟨ha₁.1 rfl, ha₂.1 rfl, (ha₃.1 rfl).1, (ha₃.1 rfl).2, ha₄.1 rfl⟩

end Laminar.Kernel
