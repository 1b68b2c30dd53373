import Mathlib.Data.List.Nodup
import Mathlib.Data.List.TakeWhile
import Laminar.Kernel.Replace

/-!
# Bulk replacement, tag by tag

`check_label_replace` is meant to ask, for every tag a list gains or loses, for the
capability that this single change needs, and to let nobody but root set `LABEL_TCB`.
Which answer a list gets should not depend on the order of its entries.

For a task other than root the function does that.  Root meets two surprises.  In the secrecy
loop `LABEL_TCB` is looked up like any other tag once its owner is known to be root, so root
also needs a PLUS capability for tag 0.  In the integrity loop root leaves at `LABEL_TCB`, and
the tags behind it are never asked for.  `tagByTag_iff` says that nothing else goes wrong.
-/

namespace Laminar.Kernel

open Laminar.Lib

/-! ## The rule -/

/-- At most one entry per label. -/
def CapList.Distinct (list : CapList) : Prop := (list.caps.map labelPart).Nodup

/-- With one entry per label, `task_find_capability` sees every right of the list. -/
theorem carries_taskFindCapability {list : CapList} (h : list.Distinct) {label : LabelT}
    {s : Sign} : carries (taskFindCapability list label) s = true ↔ Holds list label s := by
  refine ⟨holds_of_taskFindCapability, ?_⟩
  rintro ⟨cap, hmem, rfl, hs⟩
  have hfind : list.caps.find? (fun c => labelPart c == labelPart cap) = some cap := by
    cases hf : list.caps.find? (fun c => labelPart c == labelPart cap) with
    | none => exact absurd (beq_iff_eq.2 rfl) (List.find?_eq_none.1 hf cap hmem)
    | some first =>
        have hlabel : labelPart first = labelPart cap := by simpa using List.find?_some hf
        rw [List.inj_on_of_nodup_map h (List.mem_of_find?_eq_some hf) hmem hlabel]
  rw [taskFindCapability, hfind]
  exact hs

/-- What the replacement of one list needs. -/
structure ListRule (uid : Nat) (capList : CapList) (old new : List LabelT) : Prop where
  tcb : labelTcb ∈ new → uid = 0
  adds : ∀ l ∈ new, l ∉ old → l ≠ labelTcb → Holds capList l .plus
  removes : ∀ l ∈ old, l ∉ new → Holds capList l .minus

/-- What the replacement of a label needs: the rule for both lists. -/
def ReplaceRule (uid : Nat) (capList : CapList) (old new : LabelStruct) : Prop :=
  ∀ k, ListRule uid capList (old.list k).entries (new.list k).entries

/-- The same entries in another order. -/
def LabelStruct.Reordered (lbl lbl' : LabelStruct) : Prop :=
  ∀ k, (lbl'.list k).entries.Perm (lbl.list k).entries

/-- The verdict on this replacement is the rule, and it does not depend on the order of any
of the four lists. -/
structure TagByTag (tsk : Task) (capList : CapList) (old new : LabelStruct) : Prop where
  exact : checkLabelReplace tsk (some old) new = .ok 0 ↔ ReplaceRule tsk.uid capList old new
  order : ∀ old' new', old'.Bounded → new'.Bounded → old.Reordered old' → new.Reordered new' →
    (checkLabelReplace tsk (some old') new' = .ok 0 ↔ checkLabelReplace tsk (some old) new = .ok 0)

/-! ## What goes wrong -/

/-- Root may make this replacement, but has no PLUS capability for the `LABEL_TCB` that the
secrecy list gains. -/
structure TcbNeedsPlus (uid : Nat) (capList : CapList) (old new : LabelStruct) : Prop where
  rule : ReplaceRule uid capList old new
  gained : labelTcb ∈ new.secList.entries ∧ labelTcb ∉ old.secList.entries
  plus : ¬ Holds capList labelTcb .plus

/-- Root may not make this replacement, but only because of an integrity tag, and the new
integrity list also has `LABEL_TCB`. -/
structure TcbHidesTag (uid : Nat) (capList : CapList) (old new : LabelStruct) : Prop where
  root : uid = 0
  secrecy : ListRule uid capList old.secList.entries new.secList.entries
  plus : labelTcb ∈ new.secList.entries → labelTcb ∉ old.secList.entries →
    Holds capList labelTcb .plus
  removes : ∀ l ∈ old.intList.entries, l ∉ new.intList.entries → Holds capList l .minus
  tcb : labelTcb ∈ new.intList.entries
  tag : ∃ l ∈ new.intList.entries, l ∉ old.intList.entries ∧ l ≠ labelTcb ∧
    ¬ Holds capList l .plus

section Verdict

variable {tsk : Task} {tsec : TaskSecurityStruct} {old new : LabelStruct}

theorem authorised_iff (hsec : tsk.security = some tsec) (hd : tsec.capList.Distinct)
    {other : LabelList} {s : Sign} {label : LabelT} :
    Authorised tsk other s label ↔ (label ∉ other.entries → Holds tsec.capList label s) := by
  have hpermits : permits tsk label s = true ↔ Holds tsec.capList label s := by
    rw [permits, hsec]
    exact carries_taskFindCapability hd
  rw [Authorised, hpermits, Classical.or_iff_not_imp_left]

/-- `check_label_replace` in terms of the rule: the secrecy list also needs a PLUS capability
for `LABEL_TCB`, and of the integrity list only the tags before `LABEL_TCB` count. -/
theorem checkLabelReplace_iff (hsec : tsk.security = some tsec) (hd : tsec.capList.Distinct)
    (ho : old.Bounded) (hn : new.Bounded) :
    checkLabelReplace tsk (some old) new = .ok 0 ↔
      ListRule tsk.uid tsec.capList old.secList.entries new.secList.entries ∧
      (labelTcb ∈ new.secList.entries → labelTcb ∉ old.secList.entries →
        Holds tsec.capList labelTcb .plus) ∧
      (labelTcb ∈ new.intList.entries → tsk.uid = 0) ∧
      (∀ l ∈ new.intList.entries.takeWhile (· ≠ labelTcb), l ∉ old.intList.entries →
        Holds tsec.capList l .plus) ∧
      ∀ l ∈ old.intList.entries, l ∉ new.intList.entries → Holds tsec.capList l .minus := by
  obtain ⟨rv, hrun, hrv⟩ := checkLabelReplace_spec tsk ho hn
  rw [hrun, Except.ok.injEq, hrv]
  constructor
  · intro h
    refine ⟨⟨?_, ?_, ?_⟩, ?_, h.tcbAdd, ?_, ?_⟩
    · exact fun hmem => (h.secAdds _ hmem).1 rfl
    · exact fun l hl hnew _ => (authorised_iff hsec hd).1 (h.secAdds l hl).2 hnew
    · exact fun l hl => (authorised_iff hsec hd).1 (h.secRemoves l hl)
    · exact fun hmem => (authorised_iff hsec hd).1 (h.secAdds _ hmem).2
    · exact fun l hl => (authorised_iff hsec hd).1 (h.intAdds l hl)
    · exact fun l hl => (authorised_iff hsec hd).1 (h.intRemoves l hl)
  · rintro ⟨hrule, hplus, htcb, hadds, hremoves⟩
    refine ⟨fun l hl => ⟨?_, ?_⟩, ?_, htcb, ?_, ?_⟩
    · exact fun heq => hrule.tcb (heq ▸ hl)
    · refine (authorised_iff hsec hd).2 fun hnew => ?_
      by_cases heq : l = labelTcb
      · subst heq
        exact hplus hl hnew
      · exact hrule.adds l hl hnew heq
    · exact fun l hl => (authorised_iff hsec hd).2 (hrule.removes l hl)
    · exact fun l hl => (authorised_iff hsec hd).2 (hadds l hl)
    · exact fun l hl => (authorised_iff hsec hd).2 (hremoves l hl)

/-- The rule and the two surprises depend on the entries of a list, not on their order. -/
theorem ListRule.congr {uid : Nat} {capList : CapList} {old old' new new' : List LabelT}
    (ho : old'.Perm old) (hn : new'.Perm new) (h : ListRule uid capList old new) :
    ListRule uid capList old' new' where
  tcb hmem := h.tcb (hn.mem_iff.1 hmem)
  adds l hl hnew := h.adds l (hn.mem_iff.1 hl) (mt ho.mem_iff.2 hnew)
  removes l hl hnew := h.removes l (ho.mem_iff.1 hl) (mt hn.mem_iff.2 hnew)

/-- The integrity list with `LABEL_TCB` moved to its front, where it hides all other tags. -/
private theorem exists_tcb_first (hn : new.Bounded) (htcb : labelTcb ∈ new.intList.entries) :
    ∃ new', new'.Bounded ∧ new.Reordered new' ∧ new'.secList = new.secList ∧
      new'.intList.entries.takeWhile (· ≠ labelTcb) = [] := by
  obtain ⟨labels, hperm, hfirst⟩ : ∃ labels : List LabelT,
      labels.Perm new.intList.entries ∧ labels.takeWhile (· ≠ labelTcb) = [] :=
    ⟨labelTcb :: new.intList.entries.erase labelTcb, (List.perm_cons_erase htcb).symm, by simp⟩
  have hlength : labels.length ≤ labelListMaxEntries := by
    rw [hperm.length_eq, LabelList.length_entries hn.2]
    exact hn.2
  have hentries := LabelList.entries_ofLabels hlength
  have hbound := LabelList.bounded_ofLabels hlength
  generalize LabelList.ofLabels labels = list at hentries hbound
  subst hentries
  refine ⟨⟨new.secList, list⟩, ⟨hn.1, hbound⟩, ?_, rfl, hfirst⟩
  rintro (_ | _)
  · exact List.Perm.refl new.secList.entries
  · exact hperm

theorem LabelStruct.Reordered.symm {lbl lbl' : LabelStruct} (h : lbl.Reordered lbl') :
    lbl'.Reordered lbl := fun k => (h k).symm

section Order

variable {uid : Nat} {capList : CapList} {old' new' : LabelStruct}

theorem ReplaceRule.reorder (ho : old.Reordered old') (hn : new.Reordered new')
    (h : ReplaceRule uid capList old new) : ReplaceRule uid capList old' new' :=
  fun k => (h k).congr (ho k) (hn k)

theorem TcbNeedsPlus.reorder (ho : old.Reordered old') (hn : new.Reordered new')
    (h : TcbNeedsPlus uid capList old new) : TcbNeedsPlus uid capList old' new' where
  rule := h.rule.reorder ho hn
  gained := ⟨(hn .sec).mem_iff.2 h.gained.1, mt (ho .sec).mem_iff.1 h.gained.2⟩
  plus := h.plus

theorem TcbHidesTag.reorder (ho : old.Reordered old') (hn : new.Reordered new')
    (h : TcbHidesTag uid capList old new) : TcbHidesTag uid capList old' new' where
  root := h.root
  secrecy := h.secrecy.congr (ho .sec) (hn .sec)
  plus hmem hnew := h.plus ((hn .sec).mem_iff.1 hmem) (mt (ho .sec).mem_iff.2 hnew)
  removes l hl hnew := h.removes l ((ho .int).mem_iff.1 hl) (mt (hn .int).mem_iff.2 hnew)
  tcb := (hn .int).mem_iff.2 h.tcb
  tag := by
    obtain ⟨l, hl, hnew, hne, hplus⟩ := h.tag
    exact ⟨l, (hn .int).mem_iff.2 hl, mt (ho .int).mem_iff.1 hnew, hne, hplus⟩

end Order

/-- Without the two surprises the verdict is the rule. -/
theorem checkLabelReplace_eq_rule (hsec : tsk.security = some tsec) (hd : tsec.capList.Distinct)
    (ho : old.Bounded) (hn : new.Bounded) (hneeds : ¬ TcbNeedsPlus tsk.uid tsec.capList old new)
    (hhides : ¬ TcbHidesTag tsk.uid tsec.capList old new) :
    checkLabelReplace tsk (some old) new = .ok 0 ↔ ReplaceRule tsk.uid tsec.capList old new := by
  rw [checkLabelReplace_iff hsec hd ho hn]
  constructor
  · rintro ⟨hrule, hplus, htcb, hadds, hremoves⟩ (_ | _)
    · exact hrule
    · refine ⟨htcb, fun l hl hnew hne => ?_, hremoves⟩
      by_cases hmem : labelTcb ∈ new.intList.entries
      · refine Classical.not_not.1 fun hno => hhides ?_
        exact ⟨htcb hmem, hrule, hplus, hremoves, hmem, l, hl, hnew, hne, hno⟩
      · -- nothing stops the loop, so it has asked for every tag
        have hall : new.intList.entries.takeWhile (· ≠ labelTcb) = new.intList.entries := by
          rw [List.takeWhile_eq_self_iff]
          exact fun l hl => decide_eq_true fun heq => hmem (heq ▸ hl)
        rw [hall] at hadds
        exact hadds l hl hnew
  · intro hrule
    refine ⟨hrule .sec, ?_, (hrule .int).tcb, ?_, (hrule .int).removes⟩
    · intro hmem hnew
      exact Classical.not_not.1 fun hno => hneeds ⟨hrule, ⟨hmem, hnew⟩, hno⟩
    · intro l hl hnew
      have hne : l ≠ labelTcb := by simpa using List.mem_takeWhile_imp hl
      exact (hrule .int).adds l ((List.takeWhile_sublist _).subset hl) hnew hne

/-- **The verdict on a replacement is the rule, in every order, unless root meets one of the two
surprises.** -/
theorem tagByTag_iff (hsec : tsk.security = some tsec) (hd : tsec.capList.Distinct)
    (ho : old.Bounded) (hn : new.Bounded) :
    TagByTag tsk tsec.capList old new ↔
      ¬ TcbNeedsPlus tsk.uid tsec.capList old new ∧
        ¬ TcbHidesTag tsk.uid tsec.capList old new := by
  constructor
  · intro h
    refine ⟨fun hneeds => ?_, fun hhides => ?_⟩
    · obtain ⟨-, hplus, -⟩ := (checkLabelReplace_iff hsec hd ho hn).1 (h.exact.2 hneeds.rule)
      exact hneeds.plus (hplus hneeds.gained.1 hneeds.gained.2)
    · -- with `LABEL_TCB` in front the check succeeds, so in this order it has to succeed, too
      obtain ⟨new', hn', hreorder, hsame, hfirst⟩ := exists_tcb_first hn hhides.tcb
      have hfront : checkLabelReplace tsk (some old) new' = .ok 0 := by
        rw [checkLabelReplace_iff hsec hd ho hn', hsame, hfirst]
        refine ⟨hhides.secrecy, hhides.plus, fun _ => hhides.root, ?_, ?_⟩
        · exact fun l hl => absurd hl List.not_mem_nil
        · exact fun l hl hnew => hhides.removes l hl (mt (hreorder .int).mem_iff.2 hnew)
      have hhere := (h.order old new' ho hn' (fun _ => List.Perm.refl _) hreorder).1 hfront
      obtain ⟨l, hl, hnew, hne, hplus⟩ := hhides.tag
      exact hplus ((h.exact.1 hhere .int).adds l hl hnew hne)
  · rintro ⟨hneeds, hhides⟩
    have hexact := checkLabelReplace_eq_rule hsec hd ho hn hneeds hhides
    refine ⟨hexact, fun old' new' ho' hn' hold hnew => ?_⟩
    rw [hexact, checkLabelReplace_eq_rule hsec hd ho' hn'
      (mt (TcbNeedsPlus.reorder hold.symm hnew.symm) hneeds)
      (mt (TcbHidesTag.reorder hold.symm hnew.symm) hhides)]
    exact ⟨ReplaceRule.reorder hold.symm hnew.symm, ReplaceRule.reorder hold hnew⟩

end Verdict

/-- A task with both capabilities for tag 7 swaps it for tag 9, for which it has a PLUS
capability, and the verdict is the rule. -/
theorem tagByTag_swap :
    let capList : CapList := [⟨[newCap 7#32 (capPlusMask ||| capMinusMask),
      newCap 9#32 capPlusMask], by decide⟩]
    let tsk : Task := ⟨1000, 1, some ⟨.zero, capList, [], false⟩⟩
    capList.Distinct ∧ TagByTag tsk capList
      ⟨.ofLabels [7#64], .ofLabels []⟩ ⟨.ofLabels [9#64], .ofLabels []⟩ := by
  intro capList tsk
  have hsec : tsk.security = some ⟨.zero, capList, [], false⟩ := rfl
  have hd : capList.Distinct := by
    show List.Nodup [labelPart (newCap 7#32 _), labelPart (newCap 9#32 _)]
    decide
  have hbound : ∀ labels : List LabelT, labels.length ≤ 31 → (LabelList.ofLabels labels).Bounded :=
    fun _ h => LabelList.bounded_ofLabels h
  have hseven : (LabelList.ofLabels [7#64]).Bounded := hbound _ (by decide)
  have hnine : (LabelList.ofLabels [9#64]).Bounded := hbound _ (by decide)
  have hnone : (LabelList.ofLabels []).Bounded := hbound _ (by decide)
  have hgain : labelTcb ∉ (LabelList.ofLabels [9#64]).entries := by
    rw [LabelList.entries_ofLabels (by decide)]
    decide
  generalize LabelList.ofLabels [9#64] = nine at *
  refine ⟨hd, (tagByTag_iff hsec hd ⟨hseven, hnone⟩ ⟨hnine, hnone⟩).2 ⟨?_, ?_⟩⟩
  · exact fun h => hgain h.gained.1
  · exact fun h => absurd h.root (by decide)

/-- **Root gains an integrity tag without a capability.**  Root, who holds no capability, puts
tag 7 behind `LABEL_TCB` and the replacement passes; in the other order it is refused. -/
theorem tcb_hides_tag :
    let tsk : Task := ⟨0, 1, some ⟨.zero, [], [], false⟩⟩
    let new : LabelStruct := ⟨.ofLabels [], .ofLabels [labelTcb, 7#64]⟩
    let reordered : LabelStruct := ⟨.ofLabels [], .ofLabels [7#64, labelTcb]⟩
    new.Bounded ∧ reordered.Bounded ∧ new.Reordered reordered ∧
      checkLabelReplace tsk (some .zero) new = .ok 0 ∧
      checkLabelReplace tsk (some .zero) reordered = .ok (-ePerm) ∧
      ¬ ReplaceRule tsk.uid [] .zero new ∧ ¬ TagByTag tsk [] .zero new := by
  intro tsk new reordered
  have hfront : (LabelList.ofLabels [labelTcb, 7#64]).entries = [labelTcb, 7#64] :=
    LabelList.entries_ofLabels (by decide)
  have hback : (LabelList.ofLabels [7#64, labelTcb]).entries = [7#64, labelTcb] :=
    LabelList.entries_ofLabels (by decide)
  have hbound : ∀ labels : List LabelT, labels.length ≤ 31 → (LabelList.ofLabels labels).Bounded :=
    fun _ h => LabelList.bounded_ofLabels h
  have hnew : checkLabelReplace tsk (some .zero) new = .ok 0 := by rfl
  have hrule : ¬ ReplaceRule tsk.uid [] .zero new := by
    intro h
    refine not_holds_nil 7#64 .plus ((h .int).adds 7#64 ?_ ?_ (by decide))
    · show 7#64 ∈ (LabelList.ofLabels [labelTcb, 7#64]).entries
      rw [hfront]
      decide
    · show 7#64 ∉ (LabelList.entries (Vector.replicate 32 0#64))
      decide
  refine ⟨⟨hbound _ (by decide), hbound _ (by decide)⟩,
    ⟨hbound _ (by decide), hbound _ (by decide)⟩, ?_, hnew, by rfl, hrule,
    fun h => hrule (h.exact.1 hnew)⟩
  rintro (_ | _)
  · exact List.Perm.refl (LabelList.ofLabels []).entries
  · show (LabelList.ofLabels [7#64, labelTcb]).entries.Perm
      (LabelList.ofLabels [labelTcb, 7#64]).entries
    rw [hfront, hback]
    decide

end Laminar.Kernel
