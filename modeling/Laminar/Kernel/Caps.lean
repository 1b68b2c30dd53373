import Laminar.Kernel.Label

/-!
# Capability lists

A capability list is a linked list of segments, each an array of 32 words whose
first word counts the capabilities behind it.  Only the kernel writes these
arrays, and it appends to a segment only while the count is below
`CAP_LIST_MAX_ENTRIES`, so a segment is modelled as a list that carries the
bound.

`difc_drop_capabilities`, `difc_resume_capabilities` and
`difc_send_capabilities` contain the same two loops: `takeFromList` looks for a
word in a list of segments and collects the signs it finds there, `pushCap`
stores the collected word at the end of another list.  Two details matter.

* A match leaves only the loop over one segment; the search goes on with the
  next segment, now for the word the match left in `tmp`.
* A sign that is taken from an entry which keeps the other sign is recorded in
  `tmp` but the entry stays as it was: the loop changes its copy `l` only.
-/

namespace Laminar.Kernel

/-- `CAP_LIST_MAX_ENTRIES`. -/
abbrev capListMaxEntries : Nat := 31

/-- `struct cap_segment`: `caps[1..caps[0]]`, with `caps[0]` within bounds. -/
structure CapSegment where
  caps : List CapabilityT
  bounded : caps.length ≤ capListMaxEntries
  deriving DecidableEq

/-- `capList` and `capSuspendList`. -/
abbrev CapList := List CapSegment

/-- The capabilities of a list in the order `list_for_each_cap` visits them. -/
def CapList.caps (list : CapList) : List CapabilityT := list.flatMap CapSegment.caps

/-- `task_find_capability`: the first capability for `label`, or 0. -/
def taskFindCapability (capList : CapList) (label : LabelT) : CapabilityT :=
  (capList.caps.find? fun cap => labelPart cap == label).getD 0#64

/-! ## Appending -/

/-- Append to the first segment with room, or to a new segment at the end. -/
def pushCap : CapList → CapabilityT → CapList
  | [], cap => [⟨[cap], Nat.le_of_ble_eq_true rfl⟩]
  | n :: rest, cap =>
      if h : n.caps.length < capListMaxEntries then
        ⟨n.caps ++ [cap], by simp only [List.length_append, List.length_singleton]; omega⟩ ::
          rest
      else n :: pushCap rest cap

/-- Wherever the word is stored, it is added to the entries. -/
theorem caps_pushCap_perm (list : CapList) (cap : CapabilityT) :
    (pushCap list cap).caps.Perm (cap :: list.caps) := by
  induction list with
  | nil => exact .refl _
  | cons n rest ih =>
      simp only [CapList.caps] at ih ⊢
      rw [pushCap]
      split
      · simp only [List.flatMap_cons, List.append_assoc, List.singleton_append]
        exact List.perm_middle
      · simp only [List.flatMap_cons]
        exact (ih.append_left n.caps).trans List.perm_middle

theorem mem_pushCap (list : CapList) (cap c : CapabilityT) :
    c ∈ (pushCap list cap).caps ↔ c ∈ list.caps ∨ c = cap := by
  rw [(caps_pushCap_perm list cap).mem_iff, List.mem_cons, or_comm]

/-! ## Taking signs -/

/-- The other sign. -/
def Sign.other : Sign → Sign
  | .plus => .minus
  | .minus => .plus

/-- The variables of the loops: the copy `l` of the entry, the word `tmp`, the
return value, and whether the entry has been shifted out of its segment. -/
structure Take where
  l : CapabilityT
  tmp : CapabilityT
  rv : Int
  gone : Bool

/-- `if (type & MASK) { ... }` for one of the two signs. -/
def takeSign (type : BitVec 32) (s : Sign) (t : Take) : Take :=
  if requests type s then
    if carries t.l s then
      let l := t.l ^^^ s.wide
      { l := l, tmp := t.tmp ||| s.wide, rv := t.rv, gone := !carries l s.other }
    else
      -- Don't take a cap that isn't there
      { t with rv := -eNoent }
  else t

/-- The body of the inner loop, run on an entry `l` that matched `tmp`. -/
def takeSigns (type : BitVec 32) (l tmp : CapabilityT) (rv : Int) : Take :=
  let t := takeSign type .plus ⟨l, tmp, rv, false⟩
  if t.gone then t else takeSign type .minus t

/-- What the two loops over a list carry from segment to segment. -/
structure Scratch where
  tmp : CapabilityT
  ok : Bool
  rv : Int

/-- The loop over one segment: the first match is worked on and ends the loop. -/
def takeFromSegment (type : BitVec 32) (n : CapSegment) (w : Scratch) :
    CapSegment × Scratch :=
  match n.caps.find? fun l => w.tmp == labelPart l with
  | none => (n, w)
  | some l =>
      let t := takeSigns type l w.tmp w.rv
      (if t.gone then
        ⟨n.caps.eraseP fun l => w.tmp == labelPart l,
          Nat.le_trans (List.length_eraseP_le) n.bounded⟩
       else n,
       { tmp := t.tmp, ok := true, rv := t.rv })

/-- `list_for_each_cap` over the list the signs are taken from. -/
def takeFromList (type : BitVec 32) : CapList → Scratch → CapList × Scratch
  | [], w => ([], w)
  | n :: rest, w =>
      let (n', w') := takeFromSegment type n w
      let (rest', w'') := takeFromList type rest w'
      (n' :: rest', w'')

/-- One round of the loop over the user's words: take signs for `word` out of
`src` and, when `store` is set, append the collected word to `dst`. -/
def moveWord (type : BitVec 32) (store : Bool) (word : CapabilityT)
    (src dst : CapList) (rv : Int) : CapList × CapList × Int :=
  let (src', w) := takeFromList type src { tmp := word, ok := false, rv := rv }
  (src', if store then pushCap dst w.tmp else dst, if w.ok then w.rv else -eNoent)

/-- The whole loop `for (i = 0; i < len; i++)`. -/
def moveWords (type : BitVec 32) (store : Bool) :
    List CapabilityT → CapList → CapList → Int → CapList × CapList × Int
  | [], src, dst, rv => (src, dst, rv)
  | word :: words, src, dst, rv =>
      let (src', dst', rv') := moveWord type store word src dst rv
      moveWords type store words src' dst' rv'

/-! ## Rights

The abstract view of a capability list: the set of pairs of a label and a sign
it grants.  The lemmas below say what the loops can do to that set, and they are
all that later proofs use about the loops.
-/

/-- Some entry of the list has label part `label` and carries `s`. -/
def Holds (list : CapList) (label : LabelT) (s : Sign) : Prop :=
  ∃ cap ∈ list.caps, labelPart cap = label ∧ carries cap s = true

theorem not_holds_nil (label : LabelT) (s : Sign) : ¬ Holds [] label s := by
  rintro ⟨cap, hmem, -⟩
  simp [CapList.caps] at hmem

theorem holds_pushCap {list : CapList} {cap : CapabilityT} {label : LabelT} {s : Sign} :
    Holds (pushCap list cap) label s ↔
      Holds list label s ∨ labelPart cap = label ∧ carries cap s = true := by
  constructor
  · rintro ⟨c, hmem, hl, hs⟩
    rcases (mem_pushCap list cap c).mp hmem with hmem | rfl
    · exact Or.inl ⟨c, hmem, hl, hs⟩
    · exact Or.inr ⟨hl, hs⟩
  · rintro (⟨c, hmem, h⟩ | h)
    · exact ⟨c, (mem_pushCap list cap c).mpr (Or.inl hmem), h⟩
    · exact ⟨cap, (mem_pushCap list cap cap).mpr (Or.inr rfl), h⟩

/-- What `task_find_capability` returns carries only signs the list holds. -/
theorem holds_of_taskFindCapability {list : CapList} {label : LabelT} {s : Sign}
    (h : carries (taskFindCapability list label) s = true) : Holds list label s := by
  unfold taskFindCapability at h
  cases hf : list.caps.find? fun cap => labelPart cap == label with
  | none =>
      rw [hf] at h
      simp [carries] at h
  | some cap =>
      rw [hf] at h
      exact ⟨cap, List.mem_of_find?_eq_some hf, by simpa using List.find?_some hf, h⟩

/-- What a loop may leave in `tmp`: the label it started with, and only signs
that were there before or were asked for and found under that label. -/
structure TakenFrom (type : BitVec 32) (caps : List CapabilityT)
    (before after : CapabilityT) : Prop where
  label : labelPart after = labelPart before
  signs : ∀ s, carries after s = true → carries before s = true ∨
    requests type s = true ∧
      ∃ cap ∈ caps, labelPart cap = labelPart before ∧ carries cap s = true

theorem TakenFrom.refl (type : BitVec 32) (caps : List CapabilityT) (w : CapabilityT) :
    TakenFrom type caps w w :=
  ⟨rfl, fun _ h => Or.inl h⟩

theorem TakenFrom.trans {type : BitVec 32} {xs ys : List CapabilityT}
    {u v w : CapabilityT} (huv : TakenFrom type xs u v) (hvw : TakenFrom type ys v w) :
    TakenFrom type (xs ++ ys) u w := by
  refine ⟨hvw.label.trans huv.label, fun s hs => ?_⟩
  rcases hvw.signs s hs with hv | ⟨hreq, cap, hmem, hl, hc⟩
  · rcases huv.signs s hv with hu | ⟨hreq, cap, hmem, hl, hc⟩
    · exact Or.inl hu
    · exact Or.inr ⟨hreq, cap, List.mem_append_left ys hmem, hl, hc⟩
  · exact Or.inr ⟨hreq, cap, List.mem_append_right xs hmem, hl.trans huv.label, hc⟩

private theorem takeSign_tmp (type : BitVec 32) (s : Sign) (t : Take) :
    labelPart (takeSign type s t).tmp = labelPart t.tmp ∧
      ∀ r, carries (takeSign type s t).tmp r = true → carries t.tmp r = true ∨
        r = s ∧ requests type r = true ∧ carries t.l r = true := by
  unfold takeSign
  split
  · rename_i hreq
    split
    · rename_i hc
      refine ⟨labelPart_or_wide _ _, fun r hr => ?_⟩
      rcases (carries_or_wide _ _ _).mp hr with h | rfl
      · exact Or.inl h
      · exact Or.inr ⟨rfl, hreq, hc⟩
    · exact ⟨rfl, fun r hr => Or.inl hr⟩
  · exact ⟨rfl, fun r hr => Or.inl hr⟩

/-- Working on one sign leaves the other sign of the copy `l` alone. -/
private theorem carries_takeSign_l {type : BitVec 32} {s r : Sign} (h : r ≠ s) (t : Take) :
    carries (takeSign type s t).l r = carries t.l r := by
  unfold takeSign
  split
  · split
    · exact carries_xor_wide h _
    · rfl
  · rfl

private theorem takeSigns_tmp (type : BitVec 32) (l tmp : CapabilityT) (rv : Int) :
    labelPart (takeSigns type l tmp rv).tmp = labelPart tmp ∧
      ∀ r, carries (takeSigns type l tmp rv).tmp r = true → carries tmp r = true ∨
        requests type r = true ∧ carries l r = true := by
  unfold takeSigns
  obtain ⟨hl₁, hs₁⟩ := takeSign_tmp type .plus ⟨l, tmp, rv, false⟩
  dsimp only at hl₁ hs₁ ⊢
  split
  · exact ⟨hl₁, fun r hr => (hs₁ r hr).imp_right fun h => h.2⟩
  · obtain ⟨hl₂, hs₂⟩ := takeSign_tmp type .minus (takeSign type .plus ⟨l, tmp, rv, false⟩)
    refine ⟨hl₂.trans hl₁, fun r hr => ?_⟩
    rcases hs₂ r hr with h | ⟨rfl, hreq, hc⟩
    · exact (hs₁ r h).imp_right fun h => h.2
    · rw [carries_takeSign_l (by decide)] at hc
      exact Or.inr ⟨hreq, hc⟩

theorem takeFromSegment_spec (type : BitVec 32) (n : CapSegment) (w : Scratch) :
    (takeFromSegment type n w).1.caps ⊆ n.caps ∧
      TakenFrom type n.caps w.tmp (takeFromSegment type n w).2.tmp := by
  unfold takeFromSegment
  split
  · exact ⟨fun _ h => h, TakenFrom.refl _ _ _⟩
  · rename_i l hfind
    have hl : w.tmp = labelPart l := by simpa using List.find?_some hfind
    have hmem : l ∈ n.caps := List.mem_of_find?_eq_some hfind
    obtain ⟨hlabel, hsigns⟩ := takeSigns_tmp type l w.tmp w.rv
    refine ⟨?_, hlabel, fun s hs => ?_⟩
    · dsimp only
      split
      · exact fun _ h => List.mem_of_mem_eraseP h
      · exact fun _ h => h
    · refine (hsigns s hs).imp_right fun ⟨hreq, hc⟩ => ⟨hreq, l, hmem, ?_, hc⟩
      rw [hl, labelPart_labelPart]

theorem takeFromList_spec (type : BitVec 32) (list : CapList) (w : Scratch) :
    (takeFromList type list w).1.caps ⊆ list.caps ∧
      TakenFrom type list.caps w.tmp (takeFromList type list w).2.tmp := by
  induction list generalizing w with
  | nil => exact ⟨fun _ h => h, TakenFrom.refl _ _ _⟩
  | cons n rest ih =>
      obtain ⟨hsub, htake⟩ := takeFromSegment_spec type n w
      obtain ⟨hsub', htake'⟩ := ih (takeFromSegment type n w).2
      refine ⟨?_, htake.trans htake'⟩
      exact List.append_subset.mpr ⟨fun _ h => List.mem_append_left _ (hsub h),
        fun _ h => List.mem_append_right _ (hsub' h)⟩

/-- A right that one word may bring to the list it is stored in: the word itself
carried the sign, or the call asked for it and the source list holds it. -/
def Brings (type : BitVec 32) (src : CapList) (word : CapabilityT) (label : LabelT)
    (s : Sign) : Prop :=
  labelPart word = label ∧
    (carries word s = true ∨ requests type s = true ∧ Holds src label s)

theorem moveWord_spec (type : BitVec 32) (store : Bool) (word : CapabilityT)
    (src dst : CapList) (rv : Int) (label : LabelT) (s : Sign) :
    (Holds (moveWord type store word src dst rv).1 label s → Holds src label s) ∧
      (Holds (moveWord type store word src dst rv).2.1 label s →
        Holds dst label s ∨ store = true ∧ Brings type src word label s) := by
  obtain ⟨hsub, hlabel, hsigns⟩ :=
    takeFromList_spec type src { tmp := word, ok := false, rv := rv }
  unfold moveWord
  dsimp only at hlabel hsigns ⊢
  refine ⟨fun ⟨cap, hmem, h⟩ => ⟨cap, hsub hmem, h⟩, fun h => ?_⟩
  split at h
  · rename_i hstore
    refine (holds_pushCap.mp h).imp_right fun ⟨hl, hs⟩ => ⟨hstore, ?_⟩
    have hw : labelPart word = label := hlabel.symm.trans hl
    subst hw
    exact ⟨rfl, hsigns s hs⟩
  · exact Or.inl h

/-- The whole loop only removes rights from the source, and every right it adds
to the destination was brought by one of the words. -/
theorem moveWords_spec (type : BitVec 32) (store : Bool) (words : List CapabilityT)
    (src dst : CapList) (rv : Int) (label : LabelT) (s : Sign) :
    (Holds (moveWords type store words src dst rv).1 label s → Holds src label s) ∧
      (Holds (moveWords type store words src dst rv).2.1 label s →
        Holds dst label s ∨
          store = true ∧ ∃ word ∈ words, Brings type src word label s) := by
  induction words generalizing src dst rv with
  | nil => exact ⟨fun h => h, Or.inl⟩
  | cons word words ih =>
      obtain ⟨hsrc, hdst⟩ := moveWord_spec type store word src dst rv label s
      obtain ⟨hsrc', hdst'⟩ := ih (moveWord type store word src dst rv).1
        (moveWord type store word src dst rv).2.1 (moveWord type store word src dst rv).2.2
      refine ⟨fun h => hsrc (hsrc' h), fun h => ?_⟩
      rcases hdst' h with h | ⟨hstore, w, hmem, hl, hb⟩
      · exact (hdst h).imp_right fun ⟨hst, hb⟩ => ⟨hst, word, List.mem_cons_self, hb⟩
      · refine Or.inr ⟨hstore, w, List.mem_cons_of_mem _ hmem, hl, ?_⟩
        exact hb.imp_right fun ⟨hreq, hh⟩ => ⟨hreq, hsrc hh⟩

end Laminar.Kernel
