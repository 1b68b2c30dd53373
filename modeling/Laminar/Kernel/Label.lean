import Laminar.Lib.Loop
import Laminar.Kernel.Word

/-!
# Label lists and the operations on them

A `struct label_struct` is two arrays of 32 words, the first word of each being
the number of labels that follow.  Nothing in the type keeps that number below
32, and two of the routes that write a label copy it from user memory, so the
count stays an unconstrained word here and every access at an index past the
array is an explicit `Fault`.

`LabelList.entries` is the list the array denotes.  The lemmas named `_eq` say
that, for a count of at most `LABEL_LIST_MAX_ENTRIES`, the loops of the source
are the evident list operations on `entries`; no later file unfolds a loop.
-/

namespace Laminar.Kernel

open Laminar.Lib

/-- The ways a kernel call can fail to return. -/
inductive Fault
  /-- an index past the end of a label list -/
  | outOfList
  /-- a copy past the end of a `label_struct` -/
  | outOfStruct
  /-- an access past the end of a buffer -/
  | outOfBuffer
  /-- a `NULL` pointer is followed -/
  | nullDeref
  /-- a `BUG_ON` fires -/
  | bugOn
  /-- the call sleeps on a semaphore -/
  | wouldBlock
  deriving DecidableEq, Repr

/-! ## Error numbers -/

def ePerm : Int := 1
def eNoent : Int := 2
def eSrch : Int := 3
def eAgain : Int := 11
def eNomem : Int := 12
def eAcces : Int := 13
def eExist : Int := 17
def eInval : Int := 22
def eNotty : Int := 25
def eRange : Int := 34
def eOpnotsupp : Int := 95

/-! ## The data -/

/-- `LABEL_LIST_LABELS`, the words of one list: 256 bytes of `label_t`. -/
abbrev labelListLabels : Nat := 32

/-- `LABEL_LIST_MAX_ENTRIES`. -/
abbrev labelListMaxEntries : Nat := 31

/-- One of the two arrays of a `label_struct`; word 0 is the count. -/
abbrev LabelList := Vector LabelT labelListLabels

/-- `struct label_struct`. -/
structure LabelStruct where
  secList : LabelList
  intList : LabelList
  deriving DecidableEq

/-- Which of the two lists a `label_type` selects. -/
inductive ListKind
  | sec
  | int
  deriving DecidableEq, Repr

namespace LabelStruct

/-- The label `kmem_cache_zalloc` leaves behind. -/
def zero : LabelStruct := ⟨Vector.replicate 32 0#64, Vector.replicate 32 0#64⟩

/-- `lbl->secList` or `lbl->intList`. -/
def list (lbl : LabelStruct) : ListKind → LabelList
  | .sec => lbl.secList
  | .int => lbl.intList

/-- Store a list back. -/
def setList (lbl : LabelStruct) (k : ListKind) (l : LabelList) : LabelStruct :=
  match k with
  | .sec => { lbl with secList := l }
  | .int => { lbl with intList := l }

@[simp] theorem list_setList_self (lbl : LabelStruct) (k : ListKind) (l : LabelList) :
    (lbl.setList k l).list k = l := by
  cases k <;> rfl

theorem list_setList_ne (lbl : LabelStruct) {k k' : ListKind} (h : k' ≠ k)
    (l : LabelList) : (lbl.setList k l).list k' = lbl.list k' := by
  cases k <;> cases k' <;> first | exact absurd rfl h | rfl

@[simp] theorem setList_list (lbl : LabelStruct) (k : ListKind) :
    lbl.setList k (lbl.list k) = lbl := by
  cases k <;> rfl

end LabelStruct

namespace LabelList

/-- `*(head)`, as the word it is. -/
def countWord (head : LabelList) : LabelT := head[0]

/-- `*(head)`. -/
def count (head : LabelList) : Nat := head[0].toNat

/-- `head[idx]`. -/
def at? (head : LabelList) (idx : Nat) : Except Fault LabelT :=
  if h : idx < labelListLabels then .ok head[idx] else .error .outOfList

/-- The labels a list denotes: the words after the count, as many as it says. -/
def entries (head : LabelList) : List LabelT := (head.toList.drop 1).take head.count

/-- The array that holds the given labels, padded with zeroes. -/
def ofLabels (labels : List LabelT) : LabelList :=
  Vector.ofFn fun i => ((BitVec.ofNat 64 labels.length :: labels)[i.val]?).getD 0#64

/-- The count fits the array. -/
def Bounded (head : LabelList) : Prop := head.count ≤ labelListMaxEntries

instance (head : LabelList) : Decidable (Bounded head) :=
  inferInstanceAs (Decidable (head.count ≤ labelListMaxEntries))

theorem length_entries {head : LabelList} (h : head.Bounded) :
    head.entries.length = head.count := by
  have hb : head.count ≤ 31 := h
  simp [entries]; omega

theorem getElem_entries {head : LabelList} {i : Nat} (hi : i < head.entries.length)
    (hi' : i + 1 < 32) : head.entries[i] = head[i + 1] := by
  simp [entries]

end LabelList

/-! ## `list_for_each_label` -/

/-- The loop of `list_for_each_label`, from `idx` on.  The fuel counts the words
of the array that are left: with the array exhausted the next access faults, so
it never runs out first. -/
def listForEachLabelFrom {ρ : Type} (head : LabelList)
    (body : Nat → LabelT → Except Fault (Option ρ)) :
    Nat → Nat → Except Fault (Option ρ)
  | 0, _ => .ok none
  | fuel + 1, idx =>
      if idx ≤ head.count then
        match head.at? idx with
        | .error e => .error e
        | .ok l =>
            match body idx l with
            | .error e => .error e
            | .ok (some r) => .ok (some r)
            | .ok none => listForEachLabelFrom head body fuel (idx + 1)
      else .ok none

/-- `list_for_each_label(idx, l, head) body`; `body` leaves the loop by producing
a result. -/
def listForEachLabel {ρ : Type} (head : LabelList)
    (body : Nat → LabelT → Except Fault (Option ρ)) : Except Fault (Option ρ) :=
  listForEachLabelFrom head body labelListLabels 1

private theorem listForEachLabelFrom_eq {ρ : Type} {head : LabelList}
    (h : head.Bounded) (body : Nat → LabelT → Except Fault (Option ρ)) :
    ∀ fuel idx, 1 ≤ idx → fuel + idx = 33 →
      listForEachLabelFrom head body fuel idx =
        forEach body idx (head.entries.drop (idx - 1)) := by
  have hb : head.count ≤ 31 := h
  have hlen := LabelList.length_entries h
  intro fuel
  induction fuel with
  | zero =>
      intro idx _ hsum
      rw [List.drop_eq_nil_of_le (by omega)]
      rfl
  | succ fuel ih =>
      intro idx hpos hsum
      rw [listForEachLabelFrom]
      by_cases hidx : idx ≤ head.count
      · have hlt : idx - 1 < head.entries.length := by omega
        have hin : idx < 32 := by omega
        have hget : head.entries[idx - 1] = head[idx] := by
          have := LabelList.getElem_entries hlt (by omega)
          simpa [Nat.sub_add_cancel hpos] using this
        rw [if_pos hidx, List.drop_eq_getElem_cons hlt, hget, forEach,
          show idx - 1 + 1 = idx + 1 - 1 by omega, ← ih (idx + 1) (by omega) (by omega)]
        simp only [LabelList.at?, hin, ↓reduceDIte]
        rcases body idx head[idx] with _ | _ | _ <;> rfl
      · rw [if_neg hidx, List.drop_eq_nil_of_le (by omega)]
        rfl

/-- Over a list whose count fits, `list_for_each_label` visits the entries. -/
theorem listForEachLabel_eq {ρ : Type} {head : LabelList} (h : head.Bounded)
    (body : Nat → LabelT → Except Fault (Option ρ)) :
    listForEachLabel head body = forEach body 1 head.entries :=
  listForEachLabelFrom_eq h body 32 1 (by decide) (by decide)

/-- A loop over a label list that only asks whether the body stops it. -/
def anyLabel (head : LabelList) (body : LabelT → Except Fault Bool) :
    Except Fault Bool := do
  let left ← listForEachLabel head fun _ l => do
    let stop ← body l
    return if stop then some () else none
  return left.isSome

theorem anyLabel_eq {head : LabelList} (h : head.Bounded)
    {body : LabelT → Except Fault Bool} {p : LabelT → Bool}
    (hbody : ∀ l ∈ head.entries, body l = .ok (p l)) :
    anyLabel head body = .ok (head.entries.any p) := by
  rw [anyLabel, listForEachLabel_eq h,
    forEach_eq_findSome? (f := fun l => if p l then some () else none)
      (fun _ l hl => by rw [hbody l hl]; rfl)]
  simp only [bind, Except.bind, pure, Except.pure, List.isSome_findSome?]
  congr 2
  funext l
  cases p l <;> rfl

/-- The inner search loop of the label checks: `ok` after looking for `label`. -/
def hasLabel (head : LabelList) (label : LabelT) : Except Fault Bool :=
  anyLabel head fun l => .ok (label == l)

theorem hasLabel_eq {head : LabelList} (h : head.Bounded) (label : LabelT) :
    hasLabel head label = .ok (decide (label ∈ head.entries)) := by
  rw [hasLabel, anyLabel_eq h (p := fun l => label == l) (fun _ _ => rfl)]
  refine congrArg Except.ok ?_
  rw [Bool.eq_iff_iff, List.any_eq_true, decide_eq_true_eq]
  constructor
  · rintro ⟨l, hl, heq⟩
    exact (beq_iff_eq.1 heq) ▸ hl
  · exact fun hmem => ⟨label, hmem, beq_iff_eq.2 rfl⟩

/-! ## `check_allowed` -/

/-- Follow a pointer to a `label_struct`. -/
def deref (lbl : Option LabelStruct) : Except Fault LabelStruct :=
  match lbl with
  | some l => .ok l
  | none => .error .nullDeref

/-- The secrecy loop of `check_allowed`: does `src` have a label `dest` lacks?  The
loop follows `dest` only when it has a label to look for. -/
def leaksSecrecy (src dest : Option LabelStruct) : Except Fault Bool :=
  match src with
  | none => .ok false
  | some s => anyLabel s.secList fun srcLabel => do
      let d ← deref dest
      let ok ← hasLabel d.secList srcLabel
      return !ok

/-- The integrity loop, with the two pointers in the opposite roles. -/
def lacksIntegrity (src dest : Option LabelStruct) : Except Fault Bool :=
  match dest with
  | none => .ok false
  | some d => anyLabel d.intList fun dstLabel => do
      let s ← deref src
      let ok ← hasLabel s.intList dstLabel
      return !ok

/-- `check_allowed(src, dest)`: may information flow from `src` to `dest`?  Both
pointers may be `NULL`. -/
def checkAllowed (src dest : Option LabelStruct) : Except Fault Int := do
  -- check secrecy constraint
  if ← leaksSecrecy src dest then
    return -ePerm
  -- check integrity constraint
  if ← lacksIntegrity src dest then
    return -ePerm
  return 0

/-- The flow rule on the lists two labels denote. -/
def Flows (src dest : LabelStruct) : Prop :=
  (∀ l ∈ src.secList.entries, l ∈ dest.secList.entries) ∧
    ∀ l ∈ dest.intList.entries, l ∈ src.intList.entries

instance (src dest : LabelStruct) : Decidable (Flows src dest) :=
  inferInstanceAs (Decidable (_ ∧ _))

/-- Both counts fit their arrays. -/
def LabelStruct.Bounded (lbl : LabelStruct) : Prop :=
  lbl.secList.Bounded ∧ lbl.intList.Bounded

instance (lbl : LabelStruct) : Decidable lbl.Bounded :=
  inferInstanceAs (Decidable (_ ∧ _))

theorem LabelStruct.bounded_iff {lbl : LabelStruct} :
    lbl.Bounded ↔ ∀ k, (lbl.list k).Bounded := by
  constructor
  · rintro ⟨hsec, hint⟩ (_ | _)
    · exact hsec
    · exact hint
  · exact fun h => ⟨h .sec, h .int⟩

/-- The nested search loops of the label checks: does some entry of `xs` lack a
counterpart in `ys`? -/
theorem anyLabel_missing {xs ys : LabelList} (hx : xs.Bounded) (hy : ys.Bounded) :
    (anyLabel xs fun l => do
        let ok ← hasLabel ys l
        return !ok) =
      .ok (!decide (∀ l ∈ xs.entries, l ∈ ys.entries)) := by
  rw [anyLabel_eq hx (p := fun l => !decide (l ∈ ys.entries))
    (fun l _ => by rw [hasLabel_eq hy]; rfl)]
  refine congrArg Except.ok ?_
  rw [Bool.eq_iff_iff, List.any_eq_true, Bool.not_eq_true', decide_eq_false_iff_not]
  constructor
  · rintro ⟨l, hl, hnot⟩ hall
    rw [Bool.not_eq_true', decide_eq_false_iff_not] at hnot
    exact hnot (hall l hl)
  · intro hnot
    obtain ⟨l, hl⟩ := Classical.not_forall.1 hnot
    obtain ⟨hmem, hmiss⟩ := Classical.not_imp.1 hl
    exact ⟨l, hmem, by rw [decide_eq_false hmiss]; rfl⟩

/-- `check_allowed` decides the flow rule on labels whose counts fit. -/
theorem checkAllowed_eq {src dest : LabelStruct} (hs : src.Bounded) (hd : dest.Bounded) :
    checkAllowed (some src) (some dest) = .ok (if Flows src dest then 0 else -ePerm) := by
  have hsec := anyLabel_missing hs.1 hd.1
  have hint := anyLabel_missing hd.2 hs.2
  simp only [checkAllowed, leaksSecrecy, lacksIntegrity, deref]
  simp only [bind, Except.bind] at hsec hint ⊢
  rw [hsec]
  by_cases h1 : ∀ l ∈ src.secList.entries, l ∈ dest.secList.entries
  · rw [decide_eq_true h1]
    simp only [Bool.not_true, Bool.false_eq_true, ↓reduceIte]
    rw [hint]
    by_cases h2 : ∀ l ∈ dest.intList.entries, l ∈ src.intList.entries
    · rw [decide_eq_true h2, if_pos (show Flows src dest from ⟨h1, h2⟩)]
      rfl
    · rw [decide_eq_false h2, if_neg (fun h : Flows src dest => h2 h.2)]
      rfl
  · rw [decide_eq_false h1, if_neg (fun h : Flows src dest => h1 h.1)]
    rfl

/-! ## `add_label` and `remove_label` -/

/-- The body of `add_label` on the selected list. -/
def addToList (list : LabelList) (label : LabelT) : Except Fault (Int × LabelList) := do
  -- Check that we don't already have the label
  if ← hasLabel list label then
    return (-eExist, list)
  else if list.count = labelListMaxEntries then
    return (-eNomem, list)
  else
    -- list[++(*list)] = label
    let n := list[0] + 1#64
    if h : n.toNat < labelListLabels then
      return (0, (list.set 0 n).set n.toNat label)
    else
      .error .outOfList

/-- `while (idx < *list) { list[idx] = list[idx+1]; idx++; }`. -/
def shiftDown (list : LabelList) : Nat → Nat → Except Fault LabelList
  | 0, _ => .ok list
  | fuel + 1, idx =>
      if idx < list.count then
        match list.at? (idx + 1) with
        | .error e => .error e
        | .ok next =>
            if h : idx < labelListLabels then
              shiftDown (list.set idx next) fuel (idx + 1)
            else .error .outOfList
      else .ok list

/-- The body of `remove_label` on the selected list. -/
def removeFromList (list : LabelList) (label : LabelT) :
    Except Fault (Int × LabelList) := do
  -- Find the label
  let found ← listForEachLabel list fun idx l =>
    .ok (if label == l then some idx else none)
  match found with
  | none => return (-eNoent, list)
  | some idx =>
      -- Shift everyone down one, writing over the label
      let shifted ← shiftDown list labelListLabels idx
      return (0, shifted.set 0 (shifted[0] - 1#64))

/-- A list is known by its count and the words behind it. -/
theorem LabelList.entries_ext {l : LabelList} {es : List LabelT} (h : l.Bounded)
    (hlen : es.length = l.count)
    (hget : ∀ i (hi : i < es.length) (hi' : i + 1 < 32), l[i + 1] = es[i]) :
    l.entries = es := by
  have hb : l.count ≤ 31 := h
  apply List.ext_getElem
  · rw [LabelList.length_entries h, hlen]
  · intro i h1 h2
    have hi : i + 1 < 32 := by omega
    rw [LabelList.getElem_entries h1 hi, hget i h2 hi]

theorem LabelList.count_ofLabels {labels : List LabelT} (h : labels.length ≤ labelListMaxEntries) :
    (LabelList.ofLabels labels).count = labels.length := by
  have hlen : labels.length ≤ 31 := h
  simp only [LabelList.count, LabelList.ofLabels, Vector.getElem_ofFn, List.getElem?_cons_zero,
    Option.getD_some, BitVec.toNat_ofNat]
  omega

theorem LabelList.bounded_ofLabels {labels : List LabelT}
    (h : labels.length ≤ labelListMaxEntries) : (LabelList.ofLabels labels).Bounded :=
  Nat.le_trans (Nat.le_of_eq (LabelList.count_ofLabels h)) h

/-- An array built from labels denotes them. -/
theorem LabelList.entries_ofLabels {labels : List LabelT}
    (h : labels.length ≤ labelListMaxEntries) : (LabelList.ofLabels labels).entries = labels := by
  refine LabelList.entries_ext (LabelList.bounded_ofLabels h)
    (LabelList.count_ofLabels h).symm fun i hi hi' => ?_
  simp only [LabelList.ofLabels, Vector.getElem_ofFn, List.getElem?_cons_succ]
  rw [List.getElem?_eq_getElem hi, Option.getD_some]

/-- Writing a label behind the last entry of a list with room for it. -/
private theorem entries_append {list : LabelList} (h : list.count < labelListMaxEntries)
    (label : LabelT) :
    ∃ hfit : (list[0] + 1#64).toNat < 32,
      LabelList.Bounded ((list.set 0 (list[0] + 1#64)).set (list[0] + 1#64).toNat label) ∧
      LabelList.entries ((list.set 0 (list[0] + 1#64)).set (list[0] + 1#64).toNat label) =
        list.entries ++ [label] := by
  have hlt : list.count < 31 := h
  have hold : list.Bounded := Nat.le_of_lt h
  have hlen := LabelList.length_entries hold
  have hn : (list[0] + 1#64).toNat = list.count + 1 := by
    have hword : list[0].toNat = list.count := rfl
    rw [BitVec.toNat_add, hword]
    simp
    omega
  have hfit : (list[0] + 1#64).toNat < 32 := by omega
  refine ⟨hfit, ?_⟩
  have hcount : LabelList.count
      ((list.set 0 (list[0] + 1#64)).set (list[0] + 1#64).toNat label) = list.count + 1 := by
    simp only [LabelList.count]
    rw [Vector.getElem_set_ne _ _ (by omega), Vector.getElem_set_self]
    exact hn
  have hnew : LabelList.Bounded
      ((list.set 0 (list[0] + 1#64)).set (list[0] + 1#64).toNat label) := by
    show LabelList.count _ ≤ 31
    omega
  refine ⟨hnew, LabelList.entries_ext hnew ?_ ?_⟩
  · rw [hcount, List.length_append, hlen]
    rfl
  · intro i hi hi'
    by_cases hlast : i = list.count
    · subst hlast
      rw [List.getElem_append_right (by omega)]
      simp [hn, hlen]
    · have hin : i < list.entries.length := by
        simp only [List.length_append, List.length_singleton] at hi
        omega
      rw [List.getElem_append_left hin, LabelList.getElem_entries hin hi',
        Vector.getElem_set_ne _ _ (by omega), Vector.getElem_set_ne _ _ (by omega)]

/-- On a list whose count fits, `add_label` refuses a label that is present or a
list that is full, and otherwise appends. -/
theorem addToList_spec {list : LabelList} (h : list.Bounded) (label : LabelT) :
    ∃ rv list', addToList list label = .ok (rv, list') ∧
      ((label ∈ list.entries ∧ rv = -eExist ∧ list' = list) ∨
       (label ∉ list.entries ∧ list.count = labelListMaxEntries ∧ rv = -eNomem ∧
          list' = list) ∨
       (label ∉ list.entries ∧ rv = 0 ∧ list'.Bounded ∧
          list'.entries = list.entries ++ [label])) := by
  have hb : list.count ≤ 31 := h
  simp only [addToList, hasLabel_eq h, bind, Except.bind]
  by_cases hmem : label ∈ list.entries
  · rw [decide_eq_true hmem]
    exact ⟨-eExist, list, rfl, .inl ⟨hmem, rfl, rfl⟩⟩
  · rw [decide_eq_false hmem]
    by_cases hfull : list.count = labelListMaxEntries
    · exact ⟨-eNomem, list, if_pos hfull, .inr (.inl ⟨hmem, hfull, rfl, rfl⟩)⟩
    · obtain ⟨hfit, hnew, hentries⟩ :=
        entries_append (Nat.lt_of_le_of_ne hb hfull) label
      exact ⟨0, _, (if_neg hfull).trans (dif_pos hfit),
        .inr (.inr ⟨hmem, rfl, hnew, hentries⟩)⟩

/-- What the shifting loop leaves in each word. -/
private theorem shiftDown_spec : ∀ (fuel idx : Nat) (list : LabelList), list.Bounded →
    1 ≤ idx → list.count ≤ idx + fuel →
    ∃ list', shiftDown list fuel idx = .ok list' ∧ list'[0] = list[0] ∧
      ∀ j (hj : j + 1 < 32) (_ : j < 32), 1 ≤ j →
        list'[j] = if idx ≤ j ∧ j < list.count then list[j + 1] else list[j] := by
  intro fuel
  induction fuel with
  | zero =>
      intro idx list _ _ hfuel
      refine ⟨list, rfl, rfl, fun j hj _ _ => ?_⟩
      rw [if_neg (by omega)]
  | succ fuel ih =>
      intro idx list hbound hpos hfuel
      have hb : list.count ≤ 31 := hbound
      rw [shiftDown]
      by_cases hidx : idx < list.count
      · have hin : idx + 1 < 32 := by omega
        have hin' : idx < 32 := by omega
        have hcount : LabelList.count (list.set idx list[idx + 1]) = list.count := by
          simp only [LabelList.count]
          rw [Vector.getElem_set_ne _ _ (by omega)]
        obtain ⟨list', hrun, hzero, hget⟩ := ih (idx + 1) (list.set idx list[idx + 1])
          (by show LabelList.count _ ≤ 31; omega) (by omega) (by omega)
        refine ⟨list', ?_, ?_, ?_⟩
        · simp only [if_pos hidx, LabelList.at?, hin, hin', ↓reduceDIte]
          exact hrun
        · rw [hzero, Vector.getElem_set_ne _ _ (by omega)]
        · intro j hj hj0 hj1
          rw [hget j hj hj0 hj1, hcount]
          by_cases heq : j = idx
          · subst heq
            rw [if_neg (by omega), if_pos ⟨Nat.le_refl _, hidx⟩, Vector.getElem_set_self]
          · by_cases hrange : idx ≤ j ∧ j < list.count
            · rw [if_pos (by omega), if_pos hrange, Vector.getElem_set_ne _ _ (by omega)]
            · rw [if_neg (by omega), if_neg hrange, Vector.getElem_set_ne _ _ (by omega)]
      · refine ⟨list, if_neg hidx, rfl, fun j hj _ _ => ?_⟩
        rw [if_neg (by omega)]

/-- On a list whose count fits, `remove_label` refuses a label that is absent, and
otherwise takes out its first occurrence. -/
theorem removeFromList_spec {list : LabelList} (h : list.Bounded) (label : LabelT) :
    ∃ rv list', removeFromList list label = .ok (rv, list') ∧
      ((label ∉ list.entries ∧ rv = -eNoent ∧ list' = list) ∨
       (label ∈ list.entries ∧ rv = 0 ∧ list'.Bounded ∧
          list'.entries = list.entries.erase label)) := by
  have hb : list.count ≤ 31 := h
  have hlen := LabelList.length_entries h
  simp only [removeFromList, listForEachLabel_eq h, bind, Except.bind,
    forEach_index (fun l => label == l) list.entries 1]
  cases hfind : list.entries.findIdx? (fun l => label == l) with
  | none =>
      refine ⟨-eNoent, list, rfl, .inl ⟨fun hmem => ?_, rfl, rfl⟩⟩
      have := List.findIdx?_eq_none_iff.1 hfind label hmem
      simp at this
  | some i =>
      obtain ⟨hi, hmatch, hbefore⟩ := List.findIdx?_eq_some_iff_getElem.1 hfind
      have hlabel : label = list.entries[i] := beq_iff_eq.1 hmatch
      obtain ⟨list', hrun, hzero, hget⟩ :=
        shiftDown_spec 32 (i + 1) list h (by omega) (by omega)
      have hword : list[0].toNat = list.count := rfl
      have hcount : LabelList.count (list'.set 0 (list'[0] - 1#64)) = list.count - 1 := by
        simp only [LabelList.count]
        rw [Vector.getElem_set_self, hzero, BitVec.toNat_sub_of_le (by
          rw [BitVec.le_def, hword]; simp; omega), hword]
        rfl
      have hnew : LabelList.Bounded (list'.set 0 (list'[0] - 1#64)) := by
        show LabelList.count _ ≤ 31
        omega
      have herase : list.entries.erase label = list.entries.eraseIdx i := by
        have hidx : list.entries.idxOf? label = some i := by
          rw [List.idxOf?, ← hfind]
          exact congrArg (List.findIdx? · _) (funext fun l => BEq.comm)
        rw [List.erase_eq_eraseIdx, hidx]
      refine ⟨0, list'.set 0 (list'[0] - 1#64), ?_, .inr ⟨?_, rfl, hnew, ?_⟩⟩
      · simp only [Option.map_some, hrun]
        rfl
      · exact hlabel ▸ List.getElem_mem hi
      · rw [herase]
        refine LabelList.entries_ext hnew ?_ ?_
        · rw [hcount, List.length_eraseIdx_of_lt hi, hlen]
        · intro j hj hj'
          have hj1 : j + 1 + 1 < 32 := by
            rw [List.length_eraseIdx_of_lt hi] at hj
            omega
          rw [Vector.getElem_set_ne _ _ (by omega), hget (j + 1) hj1 hj' (by omega),
            List.getElem_eraseIdx]
          rw [List.length_eraseIdx_of_lt hi] at hj
          by_cases hlt : j < i
          · rw [if_neg (by omega), dif_pos hlt,
              LabelList.getElem_entries (by omega) (by omega)]
          · rw [if_pos (by omega), dif_neg hlt,
              LabelList.getElem_entries (by omega) hj1]

end Laminar.Kernel
