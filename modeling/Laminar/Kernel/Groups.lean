import Laminar.Kernel.Caps
import Laminar.Lib.Heads

/-!
# The entries for one label

The loops that move capabilities work on the entries for one label at a time.  `groups` collects
these entries, one group for each segment that has some.  Seen through it, taking signs is
`takeHead`: the loop stops at the first entry of each segment until one carries a sign that is
asked for.  A word that is stored joins the group of the segment it goes to.  Other labels are
left alone, so a call with distinct labels is a sequence of independent rounds.
-/

namespace Laminar.Kernel

open Laminar.Lib

variable {type : BitVec 32} {list rest src dst : CapList} {label : LabelT} {s : Sign}

/-! ## One entry -/

/-- The entry carries a sign that `type` asks for. -/
def asked (type : BitVec 32) (cap : CapabilityT) : Bool :=
  requests type .plus && carries cap .plus || requests type .minus && carries cap .minus

/-- The entry carries no sign that `type` does not ask for. -/
def spent (type : BitVec 32) (cap : CapabilityT) : Bool :=
  (!carries cap .plus || requests type .plus) && (!carries cap .minus || requests type .minus)

/-- The sign that is looked at first. -/
def lead (type : BitVec 32) : Sign := if requests type .plus then .plus else .minus

theorem asked_iff {cap : CapabilityT} :
    asked type cap = true ↔ ∃ s, requests type s = true ∧ carries cap s = true := by
  rw [asked, Bool.or_eq_true, Bool.and_eq_true, Bool.and_eq_true]
  constructor
  · rintro (h | h)
    · exact ⟨.plus, h⟩
    · exact ⟨.minus, h⟩
  · rintro ⟨_ | _, h⟩
    · exact .inl h
    · exact .inr h

theorem spent_iff {cap : CapabilityT} :
    spent type cap = true ↔ ∀ s, carries cap s = true → requests type s = true := by
  have hone : ∀ b c : Bool, (!b || c) = true ↔ (b = true → c = true) := by decide
  rw [spent, Bool.and_eq_true, hone, hone]
  constructor
  · rintro ⟨hp, hm⟩ (_ | _)
    · exact hp
    · exact hm
  · exact fun h => ⟨h .plus, h .minus⟩

/-- `CAP_PLUS_MASK` is one bit, so flipping it clears it. -/
private theorem carries_xor_plus {l : CapabilityT} (h : carries l .plus = true) :
    carries (l ^^^ Sign.plus.wide) .plus = false := by
  have hbit : ∀ cap, carries cap .plus = cap.getLsbD 30 := by
    intro cap
    rw [carries, show Sign.plus.wide = BitVec.twoPow 64 30 from rfl, BitVec.and_twoPow]
    cases cap.getLsbD 30 <;> rfl
  rw [hbit] at h
  rw [hbit, BitVec.getLsbD_xor, h]
  rfl

/-- An entry is shifted out when all its signs are asked for. -/
theorem takeSigns_gone (type : BitVec 32) (l tmp : CapabilityT) (rv : Int) :
    (takeSigns type l tmp rv).gone = (asked type l && spent type l) := by
  have hminus := carries_xor_wide (s := .minus) (t := .plus) (by decide) l
  have hplus := carries_xor_wide (s := .plus) (t := .minus) (by decide)
  unfold takeSigns takeSign asked spent
  cases hp : requests type .plus <;> cases hm : requests type .minus <;>
    cases hcp : carries l .plus <;> cases hcm : carries l .minus <;>
    simp [Sign.other, hcp, hcm, hminus, hplus, carries_xor_plus]

/-- The word gets the signs that are asked for and there. -/
theorem carries_takeSigns (type : BitVec 32) (l tmp : CapabilityT) (rv : Int) (s : Sign) :
    carries (takeSigns type l tmp rv).tmp s = true ↔
      carries tmp s = true ∨ requests type s = true ∧ carries l s = true := by
  have hminus := carries_xor_wide (s := .minus) (t := .plus) (by decide) l
  unfold takeSigns takeSign
  cases s <;> cases hp : requests type .plus <;> cases hm : requests type .minus <;>
    cases hcp : carries l .plus <;> cases hcm : carries l .minus <;>
    simp [Sign.other, hcm, hminus, carries_or_wide]

theorem takeSigns_of_not_asked {l : CapabilityT} (h : asked type l = false) (tmp : CapabilityT)
    (rv : Int) : (takeSigns type l tmp rv).tmp = tmp := by
  unfold asked at h
  unfold takeSigns takeSign
  cases hp : requests type .plus <;> cases hm : requests type .minus <;>
    cases hcp : carries l .plus <;> cases hcm : carries l .minus <;> simp_all

/-- Only the sign that is looked at first decides about the return value. -/
theorem takeSigns_rv (htype : ∃ s, requests type s = true) (l tmp : CapabilityT) (rv : Int) :
    (takeSigns type l tmp rv).rv = if carries l (lead type) then rv else -eNoent := by
  have hminus := carries_xor_wide (s := .minus) (t := .plus) (by decide) l
  unfold takeSigns takeSign lead
  cases hp : requests type .plus with
  | true =>
      cases requests type .minus <;> cases hcp : carries l .plus <;>
        cases hcm : carries l .minus <;> simp [Sign.other, hcp, hcm, hminus]
  | false =>
      have hm : requests type .minus = true := by
        obtain ⟨_ | _, h⟩ := htype
        · exact absurd h (Bool.eq_false_iff.1 hp)
        · exact h
      cases hcm : carries l .minus <;> simp [hm, hcm]

/-! ## Groups -/

/-- The entries for `label` in a segment: one group, or none. -/
def group (caps : List CapabilityT) (label : LabelT) : List (List CapabilityT) :=
  if (caps.filter fun cap => label == labelPart cap) = [] then []
  else [caps.filter fun cap => label == labelPart cap]

/-- The entries for `label`, segment by segment. -/
def groups (list : CapList) (label : LabelT) : List (List CapabilityT) :=
  list.flatMap fun n => group n.caps label

theorem groups_cons (n : CapSegment) :
    groups (n :: rest) label = group n.caps label ++ groups rest label :=
  List.flatMap_cons

theorem flatten_group (caps : List CapabilityT) :
    (group caps label).flatten = caps.filter fun cap => label == labelPart cap := by
  unfold group
  split
  · rename_i h
    rw [h]
    rfl
  · exact List.flatten_singleton

theorem flatten_groups :
    (groups list label).flatten = list.caps.filter fun cap => label == labelPart cap := by
  induction list with
  | nil => rfl
  | cons n rest ih =>
      rw [groups_cons, List.flatten_append, flatten_group, ih]
      exact (List.filter_append _ _).symm

/-- A list grants what the entries for the label carry. -/
theorem holds_iff_groups :
    Holds list label s ↔ ∃ cap ∈ (groups list label).flatten, carries cap s = true := by
  rw [flatten_groups]
  constructor
  · rintro ⟨cap, hmem, hl, hs⟩
    exact ⟨cap, List.mem_filter.2 ⟨hmem, beq_iff_eq.2 hl.symm⟩, hs⟩
  · rintro ⟨cap, hmem, hs⟩
    obtain ⟨hmem, hl⟩ := List.mem_filter.1 hmem
    exact ⟨cap, hmem, (beq_iff_eq.1 hl).symm, hs⟩

/-- Entries for another label are not in the way. -/
theorem group_congr {caps caps' : List CapabilityT}
    (h : caps.filter (fun cap => label == labelPart cap) =
      caps'.filter fun cap => label == labelPart cap) : group caps label = group caps' label := by
  unfold group
  rw [h]

/-! ## Taking -/

private theorem filter_eraseP {α : Type} {p q : α → Bool} (h : ∀ x, p x = true → q x = false)
    (xs : List α) : (xs.eraseP p).filter q = xs.filter q := by
  induction xs with
  | nil => rfl
  | cons x xs ih =>
      by_cases hp : p x = true
      · rw [List.eraseP_cons_of_pos hp, List.filter_cons_of_neg (Bool.eq_false_iff.1 (h x hp))]
      · rw [List.eraseP_cons_of_neg hp, List.filter_cons, List.filter_cons, ih]

private theorem filter_eraseP_self {α : Type} (p : α → Bool) (xs : List α) :
    (xs.eraseP p).filter p = (xs.filter p).tail := by
  induction xs with
  | nil => rfl
  | cons x xs ih =>
      by_cases hp : p x = true
      · rw [List.eraseP_cons_of_pos hp, List.filter_cons_of_pos hp, List.tail_cons]
      · rw [List.eraseP_cons_of_neg hp, List.filter_cons_of_neg hp, List.filter_cons_of_neg hp, ih]

theorem takeFromList_cons (n : CapSegment) (w : Scratch) :
    takeFromList type (n :: rest) w =
      ((takeFromSegment type n w).1 :: (takeFromList type rest (takeFromSegment type n w).2).1,
        (takeFromList type rest (takeFromSegment type n w).2).2) := rfl

/-- The loop leaves the entries for other labels alone. -/
theorem groups_takeFromList_of_ne {w : Scratch} (h : labelPart w.tmp ≠ label) :
    groups (takeFromList type list w).1 label = groups list label := by
  induction list generalizing w with
  | nil => rfl
  | cons n rest ih =>
      have hlabel := (takeFromSegment_spec type n w).2.label
      have hn : group (takeFromSegment type n w).1.caps label = group n.caps label := by
        apply group_congr
        unfold takeFromSegment
        split
        · rfl
        · dsimp only
          split
          · apply filter_eraseP
            intro cap hcap
            rw [beq_eq_false_iff_ne]
            rintro rfl
            rw [beq_iff_eq.1 hcap, labelPart_labelPart] at h
            exact h rfl
          · rfl
      have hrest := ih (hlabel ▸ h)
      rw [takeFromList_cons, groups_cons, groups_cons, hn, hrest]

/-- A word that has got a sign matches no entry. -/
theorem takeFromList_of_carries {tmp : CapabilityT} (h : carries tmp s = true) (ok : Bool)
    (rv : Int) : takeFromList type list ⟨tmp, ok, rv⟩ = (list, ⟨tmp, ok, rv⟩) := by
  have hne : ∀ l, ¬ (tmp == labelPart l) = true := by
    intro l hl
    rw [beq_iff_eq.1 hl, carries_labelPart] at h
    exact Bool.false_ne_true h
  induction list with
  | nil => rfl
  | cons n rest ih =>
      have hn : takeFromSegment type n ⟨tmp, ok, rv⟩ = (n, ⟨tmp, ok, rv⟩) := by
        unfold takeFromSegment
        rw [List.find?_eq_none.2 fun l _ => hne l]
      rw [takeFromList_cons, hn, ih]

/-- What the loop over a segment does, by the entries for the label. -/
theorem takeFromSegment_eq (type : BitVec 32) (label : LabelT) (n : CapSegment) (ok : Bool)
    (rv : Int) :
    let out := takeFromSegment type n ⟨label, ok, rv⟩
    (n.caps.filter (fun cap => label == labelPart cap) = [] ∧ out = (n, ⟨label, ok, rv⟩)) ∨
      ∃ x g, n.caps.filter (fun cap => label == labelPart cap) = x :: g ∧
        out.1.caps.filter (fun cap => label == labelPart cap) =
          (if asked type x && spent type x then g else x :: g) ∧
        out.2 = ⟨(takeSigns type x label rv).tmp, true, (takeSigns type x label rv).rv⟩ := by
  intro out
  have hhead := List.head?_filter (p := fun cap => label == labelPart cap) (l := n.caps)
  cases hfilter : n.caps.filter fun cap => label == labelPart cap with
  | nil =>
      rw [hfilter] at hhead
      refine .inl ⟨rfl, ?_⟩
      show takeFromSegment type n ⟨label, ok, rv⟩ = _
      rw [takeFromSegment, ← hhead]
      rfl
  | cons x g =>
      rw [hfilter] at hhead
      have hout : out = takeFromSegment type n ⟨label, ok, rv⟩ := rfl
      rw [takeFromSegment, ← hhead] at hout
      refine .inr ⟨x, g, rfl, ?_, by rw [hout]; rfl⟩
      rw [hout]
      dsimp only [List.head?_cons]
      rw [takeSigns_gone]
      split
      · show (n.caps.eraseP _).filter _ = g
        rw [filter_eraseP_self, hfilter, List.tail_cons]
      · exact hfilter

theorem group_of_nil {caps : List CapabilityT}
    (h : caps.filter (fun cap => label == labelPart cap) = []) : group caps label = [] :=
  if_pos h

theorem group_of_cons {caps g : List CapabilityT} {x : CapabilityT}
    (h : caps.filter (fun cap => label == labelPart cap) = x :: g) :
    group caps label = [x :: g] := by
  rw [group, h, if_neg (List.cons_ne_nil x g)]

/-- **The loop over a list takes the first entry of a group.**  What it leaves of the entries
for the label, and the signs that the word gets. -/
theorem takeFromList_groups (type : BitVec 32) (list : CapList) (hlabel : labelPart label = label)
    (ok : Bool) (rv : Int) :
    (groups (takeFromList type list ⟨label, ok, rv⟩).1 label).flatten =
        (takeHead (asked type) (spent type) (groups list label)).2.flatten ∧
      ∀ s, carries (takeFromList type list ⟨label, ok, rv⟩).2.tmp s = true ↔
        ∃ x ∈ (takeHead (asked type) (spent type) (groups list label)).1,
          requests type s = true ∧ carries x s = true := by
  have hbare : ∀ s, carries label s = false := fun s => by rw [← hlabel, carries_labelPart]
  induction list generalizing ok rv with
  | nil =>
      refine ⟨rfl, fun s => ⟨fun h => absurd h (Bool.eq_false_iff.1 (hbare s)), ?_⟩⟩
      rintro ⟨x, hx, -⟩
      exact nomatch hx
  | cons n rest ih =>
      have hsegment := takeFromSegment_eq type label n ok rv
      rw [takeFromList_cons]
      generalize takeFromSegment type n ⟨label, ok, rv⟩ = out at hsegment ⊢
      rcases hsegment with ⟨hfilter, hout⟩ | ⟨x, g, hfilter, hcaps, hscratch⟩
      · rw [hout, groups_cons, groups_cons, group_of_nil hfilter, List.nil_append]
        exact ih ok rv
      · rw [groups_cons, groups_cons, group_of_cons hfilter, List.flatten_append, flatten_group,
          hcaps, hscratch, List.singleton_append, takeHead]
        by_cases hask : asked type x = true
        · -- the word has got a sign, so the search is over
          obtain ⟨s, hs⟩ := asked_iff.1 hask
          have htmp := (carries_takeSigns type x label rv s).2 (.inr hs)
          rw [takeFromList_of_carries htmp, if_pos hask, hask, Bool.true_and, List.flatten_cons]
          refine ⟨rfl, fun r => ?_⟩
          rw [carries_takeSigns, hbare r]
          constructor
          · rintro (h | h)
            · exact absurd h Bool.false_ne_true
            · exact ⟨x, rfl, h⟩
          · rintro ⟨y, hy, h⟩
            obtain rfl := Option.some.inj hy
            exact .inr h
        · have hnot := Bool.eq_false_iff.2 hask
          rw [if_neg hask, hnot, Bool.false_and, takeSigns_of_not_asked hnot]
          obtain ⟨hrest, hsigns⟩ := ih true (takeSigns type x label rv).rv
          refine ⟨?_, hsigns⟩
          rw [hrest, List.flatten_cons]
          rfl

/-! ## The return value -/

theorem requests_lead (htype : ∃ s, requests type s = true) : requests type (lead type) = true := by
  unfold lead
  split
  · assumption
  · rename_i hp
    obtain ⟨_ | _, h⟩ := htype
    · exact absurd h hp
    · exact h

theorem taskFindCapability_eq :
    taskFindCapability list label = (groups list label).flatten.head?.getD 0#64 := by
  rw [flatten_groups, List.head?_filter, taskFindCapability]
  simp only [BEq.comm (b := label)]

/-- Once an entry has been found, an error stays. -/
theorem takeFromList_found (htype : ∃ s, requests type s = true) (list : CapList) {w : Scratch}
    (hok : w.ok = true) :
    (takeFromList type list w).2.ok = true ∧
      ((takeFromList type list w).2.rv = 0 → w.rv = 0) := by
  induction list generalizing w with
  | nil => exact ⟨hok, id⟩
  | cons n rest ih =>
      have hn : (takeFromSegment type n w).2.ok = true ∧
          ((takeFromSegment type n w).2.rv = 0 → w.rv = 0) := by
        unfold takeFromSegment
        split
        · exact ⟨hok, id⟩
        · refine ⟨rfl, fun h => ?_⟩
          dsimp only at h
          rw [takeSigns_rv htype] at h
          split at h
          · exact h
          · exact absurd h (by decide)
      obtain ⟨hok', hrv⟩ := ih hn.1
      rw [takeFromList_cons]
      exact ⟨hok', fun h => hn.2 (hrv h)⟩

/-- A round does not fail just when the first entry for the label carries the sign that is looked
at first. -/
theorem takeFromList_rv (htype : ∃ s, requests type s = true) (rv : Int) :
    let w := (takeFromList type list ⟨label, false, rv⟩).2
    (if w.ok then w.rv else -eNoent) = 0 ↔
      rv = 0 ∧ carries (taskFindCapability list label) (lead type) = true := by
  have hne : -eNoent ≠ 0 := by decide
  rw [taskFindCapability_eq]
  induction list with
  | nil =>
      have hzero : ∀ s, ¬ carries 0#64 s = true := by rintro (_ | _) <;> decide
      exact ⟨fun h => absurd h hne, fun h => absurd h.2 (hzero _)⟩
  | cons n rest ih =>
      have hsegment := takeFromSegment_eq type label n false rv
      rw [takeFromList_cons, groups_cons]
      generalize takeFromSegment type n ⟨label, false, rv⟩ = out at hsegment ⊢
      rcases hsegment with ⟨hfilter, hout⟩ | ⟨x, g, hfilter, -, hscratch⟩
      · rw [hout, group_of_nil hfilter, List.nil_append]
        exact ih
      · rw [hscratch, group_of_cons hfilter, List.singleton_append, List.flatten_cons,
          List.cons_append, List.head?_cons, Option.getD_some]
        have hrv := takeSigns_rv htype x label rv
        by_cases hx : carries x (lead type) = true
        · have htmp := (carries_takeSigns type x label rv _).2 (.inr ⟨requests_lead htype, hx⟩)
          rw [if_pos hx] at hrv
          rw [takeFromList_of_carries htmp, hrv]
          simp [hx]
        · rw [if_neg hx] at hrv
          have hfound := takeFromList_found htype rest
            (w := ⟨(takeSigns type x label rv).tmp, true, (takeSigns type x label rv).rv⟩) rfl
          intro w
          have hok : w.ok = true := hfound.1
          rw [hok, if_pos rfl]
          exact ⟨fun h => absurd (hrv.symm.trans (hfound.2 h)) hne, fun h => absurd h.2 hx⟩

/-! ## Storing -/

/-- A place in a list: the segments before, the entries of the segment, the segments behind. -/
structure Slot where
  before : CapList
  caps : List CapabilityT
  after : CapList

/-- Where the word goes that is stored after `i` others. -/
def slot : CapList → Nat → Slot
  | [], _ => ⟨[], [], []⟩
  | n :: rest, i =>
      if i < capListMaxEntries - n.caps.length then ⟨[], n.caps, rest⟩
      else
        let place := slot rest (i - (capListMaxEntries - n.caps.length))
        { place with before := n :: place.before }

/-- The entries for `label` around a place. -/
def Slot.groups (place : Slot) (label : LabelT) :
    List (List CapabilityT) × List CapabilityT × List (List CapabilityT) :=
  (Kernel.groups place.before label, place.caps.filter fun cap => label == labelPart cap,
    Kernel.groups place.after label)

theorem slot_cons_groups (n : CapSegment) (i : Nat) :
    (slot (n :: rest) i).groups label =
      if i < capListMaxEntries - n.caps.length then
        ([], n.caps.filter fun cap => label == labelPart cap, groups rest label)
      else
        let place := (slot rest (i - (capListMaxEntries - n.caps.length))).groups label
        (group n.caps label ++ place.1, place.2) := by
  rw [slot]
  split
  · rfl
  · rw [Slot.groups, groups_cons]
    rfl

/-- A place splits the entries for a label. -/
theorem groups_slot (list : CapList) (i : Nat) (label : LabelT) :
    groups list label = groups (slot list i).before label ++
      (group (slot list i).caps label ++ groups (slot list i).after label) := by
  induction list generalizing i with
  | nil => rfl
  | cons n rest ih =>
      rw [slot, groups_cons]
      split
      · rfl
      · rw [ih, groups_cons, List.append_assoc]

private theorem filter_append_of_ne (caps : List CapabilityT) {cap : CapabilityT}
    (h : labelPart cap ≠ label) :
    (caps ++ [cap]).filter (fun c => label == labelPart c) =
      caps.filter fun c => label == labelPart c := by
  rw [List.filter_append, List.filter_singleton, beq_eq_false_iff_ne.2 h.symm]
  exact List.append_nil _

/-- A word for another label takes up room and nothing else. -/
theorem pushCap_of_ne {cap : CapabilityT} (h : labelPart cap ≠ label) :
    groups (pushCap list cap) label = groups list label ∧
      ∀ i, (slot (pushCap list cap) i).groups label = (slot list (i + 1)).groups label := by
  induction list with
  | nil =>
      have hcap : [cap].filter (fun c => label == labelPart c) = [] :=
        filter_append_of_ne [] h
      refine ⟨?_, fun i => ?_⟩
      · rw [pushCap, groups_cons, group_of_nil hcap]
        rfl
      · rw [pushCap, slot_cons_groups, hcap, group_of_nil hcap]
        split <;> rfl
  | cons n rest ih =>
      rw [pushCap]
      split
      · rename_i hroom
        have hn := filter_append_of_ne n.caps h
        refine ⟨?_, fun i => ?_⟩
        · rw [groups_cons, groups_cons, group_congr hn]
        · rw [slot_cons_groups, slot_cons_groups, hn, group_congr hn]
          dsimp only
          rw [List.length_append, List.length_singleton]
          by_cases hi : i < capListMaxEntries - (n.caps.length + 1)
          · rw [if_pos hi, if_pos (by omega)]
          · have hindex : i - (capListMaxEntries - (n.caps.length + 1)) =
                i + 1 - (capListMaxEntries - n.caps.length) := by omega
            rw [if_neg hi, if_neg (by omega), hindex]
      · rename_i hfull
        have hroom : capListMaxEntries - n.caps.length = 0 := by omega
        refine ⟨by rw [groups_cons, groups_cons, ih.1], fun i => ?_⟩
        rw [slot_cons_groups, slot_cons_groups, hroom, if_neg (Nat.not_lt_zero _),
          if_neg (Nat.not_lt_zero _), Nat.sub_zero, Nat.sub_zero, ih.2]

/-- A word for the label joins the entries of its segment. -/
theorem groups_pushCap {cap : CapabilityT} (h : labelPart cap = label) :
    groups (pushCap list cap) label = ((slot list 0).groups label).1 ++
      (((slot list 0).groups label).2.1 ++ [cap]) :: ((slot list 0).groups label).2.2 := by
  have happend : ∀ caps : List CapabilityT, group (caps ++ [cap]) label =
      [(caps.filter fun c => label == labelPart c) ++ [cap]] := by
    intro caps
    have hfilter : (caps ++ [cap]).filter (fun c => label == labelPart c) =
        (caps.filter fun c => label == labelPart c) ++ [cap] := by
      rw [List.filter_append, List.filter_singleton, beq_iff_eq.2 h.symm]
      rfl
    rw [group, hfilter, if_neg (List.append_ne_nil_of_right_ne_nil _ (List.cons_ne_nil _ _))]
  induction list with
  | nil =>
      rw [pushCap, groups_cons]
      exact congrArg (· ++ []) (happend [])
  | cons n rest ih =>
      rw [pushCap, slot_cons_groups]
      split
      · rename_i hroom
        rw [groups_cons, happend, if_pos (by omega)]
        rfl
      · rename_i hfull
        have hroom : capListMaxEntries - n.caps.length = 0 := by omega
        rw [groups_cons, ih, hroom, if_neg (Nat.not_lt_zero _), Nat.sub_zero, List.append_assoc]

/-! ## A call -/

variable {store : Bool} {word : CapabilityT} {words : List CapabilityT} {rv : Int}

theorem moveWord_eq :
    moveWord type store word src dst rv =
      ((takeFromList type src ⟨word, false, rv⟩).1,
        if store then pushCap dst (takeFromList type src ⟨word, false, rv⟩).2.tmp else dst,
        if (takeFromList type src ⟨word, false, rv⟩).2.ok then
          (takeFromList type src ⟨word, false, rv⟩).2.rv
        else -eNoent) := rfl

theorem moveWords_cons :
    moveWords type store (word :: words) src dst rv =
      moveWords type store words (moveWord type store word src dst rv).1
        (moveWord type store word src dst rv).2.1 (moveWord type store word src dst rv).2.2 := rfl

/-- The word that is stored is for the label that was listed. -/
theorem labelPart_takeFromList (type : BitVec 32) (src : CapList) (word : CapabilityT) (rv : Int) :
    labelPart (takeFromList type src ⟨word, false, rv⟩).2.tmp = labelPart word :=
  (takeFromList_spec type src ⟨word, false, rv⟩).2.label

/-- A round leaves the entries for other labels alone. -/
theorem moveWord_of_ne (type : BitVec 32) (store : Bool) (src dst : CapList) (rv : Int)
    (h : labelPart word ≠ label) :
    groups (moveWord type store word src dst rv).1 label = groups src label ∧
      groups (moveWord type store word src dst rv).2.1 label = groups dst label ∧
      (store = true → ∀ i, (slot (moveWord type store word src dst rv).2.1 i).groups label =
        (slot dst (i + 1)).groups label) := by
  have htmp : labelPart (takeFromList type src ⟨word, false, rv⟩).2.tmp ≠ label := by
    rw [labelPart_takeFromList]
    exact h
  rw [moveWord_eq]
  refine ⟨groups_takeFromList_of_ne h, ?_, ?_⟩
  · dsimp only
    split
    · exact (pushCap_of_ne htmp).1
    · rfl
  · intro hstore
    rw [if_pos hstore]
    exact (pushCap_of_ne htmp).2

/-- So does a call that does not list them. -/
theorem moveWords_of_notMem (type : BitVec 32) (store : Bool) (src dst : CapList) (rv : Int)
    (hwords : ∀ word ∈ words, labelPart word = word) (h : label ∉ words) :
    groups (moveWords type store words src dst rv).1 label = groups src label ∧
      groups (moveWords type store words src dst rv).2.1 label = groups dst label := by
  induction words generalizing src dst rv with
  | nil => exact ⟨rfl, rfl⟩
  | cons word words ih =>
      obtain ⟨hword, hrest⟩ := List.forall_mem_cons.1 hwords
      have hne : labelPart word ≠ label := by
        rintro rfl
        exact h (List.mem_cons.2 (.inl hword))
      obtain ⟨hsrc, hdst, -⟩ := moveWord_of_ne type store src dst rv hne
      have hnot : label ∉ words := fun hmem => h (List.mem_cons_of_mem _ hmem)
      obtain ⟨hsrc', hdst'⟩ := ih (moveWord type store word src dst rv).1
        (moveWord type store word src dst rv).2.1 (moveWord type store word src dst rv).2.2
        hrest hnot
      rw [moveWords_cons]
      exact ⟨hsrc'.trans hsrc, hdst'.trans hdst⟩

/-- What is left of the entries for the label when its signs have been taken. -/
abbrev takeGroups (type : BitVec 32) (src : CapList) (label : LabelT) :
    Option CapabilityT × List (List CapabilityT) :=
  takeHead (asked type) (spent type) (groups src label)

/-- **A call with distinct labels is a sequence of independent rounds.**  What it leaves of the
entries for a listed label, and where the word goes that is stored for it. -/
theorem moveWords_at (type : BitVec 32) (store : Bool) (src dst : CapList) (rv : Int)
    (hwords : ∀ word ∈ words, labelPart word = word) (hnodup : words.Nodup) {i : Nat}
    (hi : words[i]? = some label) :
    (groups (moveWords type store words src dst rv).1 label).flatten =
        (takeGroups type src label).2.flatten ∧
      (store = true → ∃ cap, (∀ s, carries cap s = true ↔
          ∃ x ∈ (takeGroups type src label).1, requests type s = true ∧ carries x s = true) ∧
        groups (moveWords type store words src dst rv).2.1 label =
          ((slot dst i).groups label).1 ++
            (((slot dst i).groups label).2.1 ++ [cap]) :: ((slot dst i).groups label).2.2) := by
  induction words generalizing src dst rv i with
  | nil => exact nomatch hi
  | cons word words ih =>
      obtain ⟨hword, hrest⟩ := List.forall_mem_cons.1 hwords
      obtain ⟨hnot, hnodup'⟩ := List.nodup_cons.1 hnodup
      rw [moveWords_cons]
      cases i with
      | zero =>
          obtain rfl : word = label := Option.some.inj hi
          obtain ⟨hsrc, hdst⟩ := moveWords_of_notMem type store
            (moveWord type store word src dst rv).1 (moveWord type store word src dst rv).2.1
            (moveWord type store word src dst rv).2.2 hrest hnot
          rw [hsrc, hdst, moveWord_eq]
          obtain ⟨hflat, hsigns⟩ := takeFromList_groups type src hword false rv
          refine ⟨hflat, fun hstore => ⟨_, hsigns, ?_⟩⟩
          rw [if_pos hstore]
          exact groups_pushCap ((labelPart_takeFromList type src word rv).trans hword)
      | succ i =>
          have hne : labelPart word ≠ label := by
            rintro rfl
            rw [hword] at hi
            exact hnot (List.mem_of_getElem? hi)
          obtain ⟨hsrc, -, hslot⟩ := moveWord_of_ne type store src dst rv hne
          have hround := ih (moveWord type store word src dst rv).1
            (moveWord type store word src dst rv).2.1 (moveWord type store word src dst rv).2.2
            hrest hnodup' hi
          rw [takeGroups, hsrc] at hround
          refine ⟨hround.1, fun hstore => ?_⟩
          rw [← hslot hstore i]
          exact hround.2 hstore

theorem moveWords_not_stored (src dst : CapList) (rv : Int) :
    (moveWords type false words src dst rv).2.1 = dst := by
  induction words generalizing src rv with
  | nil => rfl
  | cons word words ih => exact ih _ _

/-- A call returns 0 just when none of its rounds fails. -/
theorem moveWords_rv (htype : ∃ s, requests type s = true) (store : Bool) (src dst : CapList)
    (rv : Int) (hwords : ∀ word ∈ words, labelPart word = word) (hnodup : words.Nodup) :
    (moveWords type store words src dst rv).2.2 = 0 ↔
      rv = 0 ∧ ∀ word ∈ words, carries (taskFindCapability src word) (lead type) = true := by
  induction words generalizing src dst rv with
  | nil => exact ⟨fun h => ⟨h, fun _ hw => absurd hw List.not_mem_nil⟩, fun h => h.1⟩
  | cons word words ih =>
      obtain ⟨hword, hrest⟩ := List.forall_mem_cons.1 hwords
      obtain ⟨hnot, hnodup'⟩ := List.nodup_cons.1 hnodup
      have hfind : ∀ other ∈ words,
          taskFindCapability (moveWord type store word src dst rv).1 other =
            taskFindCapability src other := by
        intro other hmem
        have hne : labelPart word ≠ other := by
          rintro rfl
          exact hnot (hword ▸ hmem)
        rw [taskFindCapability_eq, (moveWord_of_ne type store src dst rv hne).1,
          taskFindCapability_eq]
      have hround : (moveWord type store word src dst rv).2.2 = 0 ↔
          rv = 0 ∧ carries (taskFindCapability src word) (lead type) = true :=
        takeFromList_rv htype rv
      rw [moveWords_cons, ih _ _ _ hrest hnodup', hround, List.forall_mem_cons, and_assoc]
      refine and_congr_right fun _ => and_congr_right fun _ => forall₂_congr fun other hmem => ?_
      rw [hfind other hmem]

end Laminar.Kernel
