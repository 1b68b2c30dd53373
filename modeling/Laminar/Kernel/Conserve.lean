import Laminar.Kernel.Groups
import Laminar.Kernel.System

/-!
# Dropping, suspending and resuming

A task's rights are the pairs of a label and a sign that the entries of `capList` carry; its
suspended rights are those of `capSuspendList`.  `difc_drop_capabilities` and
`difc_resume_capabilities` are meant to move the listed pairs and no others.  `Conserves` says so
of one call in one state, and `conserves_iff` says of which states it is true: the entries for a
listed label must be `Clean`, and a word that is suspended has to be found again.

The usual way to a state where it fails takes two calls: a fresh label has one entry with both
signs, and dropping one of them changes a copy of that entry only.
-/

namespace Laminar.Kernel

open Laminar.Lib

variable {type : BitVec 32} {words : List CapabilityT} {label : LabelT} {s : Sign}

/-! ## What the calls are for -/

/-- The pairs a call lists. -/
def Listed (words : List CapabilityT) (type : BitVec 32) (label : LabelT) (s : Sign) : Prop :=
  label ∈ words ∧ requests type s = true

/-- `difc_drop_capabilities` takes the listed pairs away, suspends what it took if `flag` says
so, and returns 0 just when the task held them all. -/
structure Dropped (words : List CapabilityT) (type : BitVec 32) (flag : Int)
    (old new : TaskSecurityStruct) (rv : Int) : Prop where
  active : ∀ label s, Holds new.capList label s ↔
    Holds old.capList label s ∧ ¬ Listed words type label s
  suspended : ∀ label s, Holds new.capSuspendList label s ↔
    Holds old.capSuspendList label s ∨
      flag = capOpFlagTemporary ∧ Holds old.capList label s ∧ ¬ Holds new.capList label s
  returns : rv = 0 ↔ ∀ label s, Listed words type label s → Holds old.capList label s

/-- `difc_resume_capabilities` moves the listed pairs that are suspended back. -/
structure Resumed (words : List CapabilityT) (type : BitVec 32)
    (old new : TaskSecurityStruct) : Prop where
  suspended : ∀ label s, Holds new.capSuspendList label s ↔
    Holds old.capSuspendList label s ∧ ¬ Listed words type label s
  active : ∀ label s, Holds new.capList label s ↔
    Holds old.capList label s ∨ Listed words type label s ∧ Holds old.capSuspendList label s

/-- Two states of a task with the same rights, suspended ones included. -/
structure SameRights (a b : TaskSecurityStruct) : Prop where
  active : ∀ label s, Holds b.capList label s ↔ Holds a.capList label s
  suspended : ∀ label s, Holds b.capSuspendList label s ↔ Holds a.capSuspendList label s

/-- The calls of task `p` with `words` and `type` move the listed pairs and no others, and a
temporary drop that returned 0 is undone by a resume. -/
structure Conserves (k : Kernel) (p : Pid) (tsec : TaskSecurityStruct) (words : List CapabilityT)
    (type : BitVec 32) : Prop where
  drop : ∀ flag, flag = capOpFlagTemporary ∨ flag = capOpFlagPermanent →
    ∃ rv k' new, perform k p (.dropCapabilities (some words) type flag) = .ok (.rv rv, k') ∧
      k'.security p = some new ∧ Dropped words type flag tsec new rv
  resume : ∃ rv k' new, perform k p (.resumeCapabilities (some words) type) = .ok (.rv rv, k') ∧
    k'.security p = some new ∧ Resumed words type tsec new
  restore : ∀ k', perform k p (.dropCapabilities (some words) type capOpFlagTemporary) =
      .ok (.rv 0, k') →
    ∃ rv k'' new, perform k' p (.resumeCapabilities (some words) type) = .ok (.rv rv, k'') ∧
      k''.security p = some new ∧ SameRights tsec new

/-! ## When they do it -/

/-- The word for `label` that is suspended after `i` others is found again, or another one that
does as well: some entry for `label` has all signs asked for, or the segment that takes the word
has no entry for `label`, and no segment before it has one with a sign asked for. -/
def Restorable (type : BitVec 32) (list : CapList) (i : Nat) (label : LabelT) : Prop :=
  (∃ cap ∈ list.caps, labelPart cap = label ∧ ∀ s, requests type s = true → carries cap s = true) ∨
    (∀ cap ∈ (slot list i).caps, labelPart cap ≠ label) ∧
      ∀ cap ∈ (slot list i).before.caps, labelPart cap = label → asked type cap = false

/-- The states in which the calls do what they are for. -/
structure Conserving (tsec : TaskSecurityStruct) (words : List CapabilityT) (type : BitVec 32) :
    Prop where
  active : ∀ label ∈ words, Clean (asked type) (spent type) (groups tsec.capList label)
  suspended : ∀ label ∈ words, Clean (asked type) (spent type) (groups tsec.capSuspendList label)
  found : (∀ label ∈ words, carries (taskFindCapability tsec.capList label) (lead type) = true) ↔
    ∀ label s, Listed words type label s → Holds tsec.capList label s
  restorable : (∀ label s, Listed words type label s → Holds tsec.capList label s) →
    ∀ i label, words[i]? = some label → Restorable type tsec.capSuspendList i label

/-! ## One label -/

section Groups

variable {gs before after : List (List CapabilityT)} {g : List CapabilityT} {cap : CapabilityT}

/-- An entry of the groups carries the sign. -/
def Carried (gs : List (List CapabilityT)) (s : Sign) : Prop :=
  ∃ cap ∈ gs.flatten, carries cap s = true

/-- The requested signs go, the others stay, just when the groups are clean. -/
theorem clean_iff_carried :
    Clean (asked type) (spent type) gs ↔
      ∀ s, Carried (takeHead (asked type) (spent type) gs).2 s ↔
        Carried gs s ∧ ¬ requests type s = true := by
  rw [clean_iff]
  constructor
  · intro h s
    constructor
    · rintro ⟨cap, hmem, hs⟩
      refine ⟨⟨cap, mem_of_takeHead hmem, hs⟩, fun hreq => ?_⟩
      exact Bool.eq_false_iff.1 (h cap hmem) (asked_iff.2 ⟨s, hreq, hs⟩)
    · rintro ⟨⟨cap, hmem, hs⟩, hreq⟩
      have hspent : spent type cap = false :=
        Bool.eq_false_iff.2 fun hspent => hreq (spent_iff.1 hspent s hs)
      exact ⟨cap, mem_takeHead_of_not_spent hmem hspent, hs⟩
  · intro h cap hmem
    rw [Bool.eq_false_iff]
    intro hask
    obtain ⟨s, hreq, hs⟩ := asked_iff.1 hask
    exact ((h s).1 ⟨cap, hmem, hs⟩).2 hreq

/-- Of clean groups, all the requested signs are taken. -/
theorem taken_iff (h : Clean (asked type) (spent type) gs) :
    (∃ cap ∈ (takeHead (asked type) (spent type) gs).1,
        requests type s = true ∧ carries cap s = true) ↔
      requests type s = true ∧ Carried gs s := by
  constructor
  · rintro ⟨cap, hcap, hreq, hs⟩
    exact ⟨hreq, cap, (takeHead_some hcap).1, hs⟩
  · rintro ⟨hreq, cap, hmem, hs⟩
    exact ⟨cap, h.takeHead_eq hmem (asked_iff.2 ⟨s, hreq, hs⟩), hreq, hs⟩

/-- An entry with all the signs asked for. -/
def Full (type : BitVec 32) (cap : CapabilityT) : Prop :=
  ∀ s, requests type s = true → carries cap s = true

/-- `g` as a group of its own, if it has entries. -/
abbrev asGroup (g : List CapabilityT) : List (List CapabilityT) := if g = [] then [] else [g]

theorem flatten_asGroup (g : List CapabilityT) : (asGroup g).flatten = g := by
  unfold asGroup
  split
  · rename_i hnil
    rw [hnil, List.flatten_nil]
  · exact List.flatten_singleton

/-- Behind a group that starts with another entry a word is not found. -/
theorem takeHead_fst_append (hg : g ≠ []) :
    (takeHead (asked type) (spent type) (before ++ (g ++ [cap]) :: after)).1 =
      (takeHead (asked type) (spent type) (before ++ (asGroup g ++ after))).1 := by
  obtain ⟨x, g, rfl⟩ := List.exists_cons_of_ne_nil hg
  rw [takeHead_fst, takeHead_fst, asGroup, if_neg hg, List.filterMap_append,
    List.filterMap_append]
  rfl

/-- An entry asked for in the groups before comes first, whatever is behind. -/
theorem takeHead_fst_before {gs' : List (List CapabilityT)} {x : CapabilityT}
    (hclean : Clean (asked type) (spent type) (before ++ gs)) (hx : x ∈ before.flatten)
    (hask : asked type x = true) :
    (takeHead (asked type) (spent type) (before ++ gs')).1 = some x := by
  have hbefore := hclean.left.takeHead_eq hx hask
  rw [takeHead_fst] at hbefore ⊢
  rw [List.filterMap_append, List.find?_append, hbefore, Option.some_or]

/-- Nothing is asked for in the groups before: the word is found. -/
theorem takeHead_found (hb : ∀ x ∈ before.flatten, asked type x = false)
    (hcap : asked type cap = true) (hspent : spent type cap = true) :
    takeHead (asked type) (spent type) (before ++ [cap] :: after) =
      (some cap, before ++ [] :: after) := by
  have hno : NoHead (asked type) before := fun g hg x hx =>
    hb x (List.mem_flatten.2 ⟨g, hg, List.mem_of_head? hx⟩)
  rw [takeHead_append (spent type) _ hno, takeHead, if_pos hcap, if_pos hspent]

/-- Resuming takes all the signs asked for just when some entry had them all, or the word is
found. -/
theorem taken_full_iff (hclean : Clean (asked type) (spent type) (before ++ (asGroup g ++ after)))
    (htype : ∃ s, requests type s = true)
    (hcap : ∀ s, carries cap s = true ↔ requests type s = true) :
    (∃ x ∈ (takeHead (asked type) (spent type) (before ++ (g ++ [cap]) :: after)).1, Full type x) ↔
      (∃ x ∈ (before ++ (asGroup g ++ after)).flatten, Full type x) ∨
        g = [] ∧ ∀ x ∈ before.flatten, asked type x = false := by
  obtain ⟨s₀, hs₀⟩ := htype
  have hfull : ∀ {x}, Full type x → asked type x = true := fun h => asked_iff.2 ⟨s₀, hs₀, h s₀ hs₀⟩
  have hcapFull : Full type cap := fun s => (hcap s).2
  by_cases hg : g = []
  · subst hg
    rw [List.nil_append]
    by_cases hb : ∀ x ∈ before.flatten, asked type x = false
    · have hspent := spent_iff.2 fun s => (hcap s).1
      rw [takeHead_found hb (hfull hcapFull) hspent]
      exact ⟨fun _ => .inr ⟨rfl, hb⟩, fun _ => ⟨cap, rfl, hcapFull⟩⟩
    · obtain ⟨x, hx, hask⟩ : ∃ x ∈ before.flatten, asked type x = true := by
        simpa only [not_forall, Bool.not_eq_false, exists_prop] using hb
      have hmem : x ∈ (before ++ (asGroup [] ++ after)).flatten := by
        rw [List.flatten_append]
        exact List.mem_append_left _ hx
      rw [takeHead_fst_before hclean hx hask]
      constructor
      · rintro ⟨y, hy, hyfull⟩
        obtain rfl := Option.some.inj hy
        exact .inl ⟨x, hmem, hyfull⟩
      · rintro (⟨y, hy, hyfull⟩ | ⟨-, hnone⟩)
        · have hxy := (hclean.takeHead_eq hmem hask).symm.trans
            (hclean.takeHead_eq hy (hfull hyfull))
          exact ⟨y, hxy, hyfull⟩
        · exact absurd hnone hb
  · rw [takeHead_fst_append hg]
    constructor
    · rintro ⟨x, hx, hxfull⟩
      exact .inl ⟨x, (takeHead_some hx).1, hxfull⟩
    · rintro (⟨x, hx, hxfull⟩ | ⟨hnil, -⟩)
      · exact ⟨x, hclean.takeHead_eq hx (hfull hxfull), hxfull⟩
      · exact absurd hnil hg

/-- Where an entry had all the signs asked for, a word with just these is taken without a trace,
whichever of the two entries goes. -/
theorem carried_after_full (hcap : ∀ s, carries cap s = true ↔ requests type s = true)
    {x : CapabilityT} (hx : x ∈ (before ++ (asGroup g ++ after)).flatten) (hxfull : Full type x)
    (s : Sign) :
    Carried (takeHead (asked type) (spent type) (before ++ (g ++ [cap]) :: after)).2 s ↔
      Carried (before ++ (asGroup g ++ after)) s := by
  by_cases hreq : requests type s = true
  · -- the word and the full entry both carry the sign, and only one entry goes
    have hold : 0 < (before ++ (asGroup g ++ after)).flatten.countP fun x => carries x s :=
      List.countP_pos_iff.2 ⟨x, hx, hxfull s hreq⟩
    have hone := countP_takeHead (asked type) (spent type) (before ++ (g ++ [cap]) :: after)
      fun x => carries x s
    simp only [List.flatten_append, List.flatten_cons, List.countP_append, flatten_asGroup,
      List.countP_singleton, (hcap s).2 hreq] at hold hone
    have hleft : Carried (takeHead (asked type) (spent type) (before ++ (g ++ [cap]) :: after)).2
        s := List.countP_pos_iff.1 (by simp only [if_true] at hone; omega)
    exact ⟨fun _ => ⟨x, hx, hxfull s hreq⟩, fun _ => hleft⟩
  · -- an entry that carries the sign is not the word, and is not spent
    constructor
    · rintro ⟨y, hy, hs⟩
      refine ⟨y, ?_, hs⟩
      have hne : y ≠ cap := by
        rintro rfl
        exact hreq ((hcap s).1 hs)
      have hmem := mem_of_takeHead hy
      simp only [List.flatten_append, List.flatten_cons, List.mem_append, List.mem_singleton,
        flatten_asGroup] at hmem ⊢
      tauto
    · rintro ⟨y, hy, hs⟩
      have hspent : spent type y = false :=
        Bool.eq_false_iff.2 fun hspent => hreq (spent_iff.1 hspent s hs)
      refine ⟨y, mem_takeHead_of_not_spent ?_ hspent, hs⟩
      simp only [List.flatten_append, List.flatten_cons, List.mem_append, List.mem_singleton,
        flatten_asGroup] at hy ⊢
      tauto

/-- If so, the suspended signs are again those of before. -/
theorem carried_after (htype : ∃ s, requests type s = true)
    (hcap : ∀ s, carries cap s = true ↔ requests type s = true)
    (h : (∃ x ∈ (before ++ (asGroup g ++ after)).flatten, Full type x) ∨
      g = [] ∧ ∀ x ∈ before.flatten, asked type x = false) (s : Sign) :
    Carried (takeHead (asked type) (spent type) (before ++ (g ++ [cap]) :: after)).2 s ↔
      Carried (before ++ (asGroup g ++ after)) s := by
  rcases h with ⟨x, hx, hxfull⟩ | ⟨rfl, hb⟩
  · exact carried_after_full hcap hx hxfull s
  · obtain ⟨s₀, hs₀⟩ := htype
    have hask := asked_iff.2 ⟨s₀, hs₀, (hcap s₀).2 hs₀⟩
    have hspent := spent_iff.2 fun s => (hcap s).1
    rw [List.nil_append, takeHead_found hb hask hspent, Carried, Carried, asGroup, if_pos rfl,
      List.flatten_append, List.flatten_append, List.flatten_cons, List.nil_append,
      List.nil_append]

end Groups

/-! ## One call -/

section Lists

variable {src dst : CapList} {rv : Int}

/-- The listed pairs go and no others, just when the entries for the listed labels are clean. -/
theorem moved_iff_clean (store : Bool) (dst : CapList) (rv : Int)
    (hwords : ∀ word ∈ words, labelPart word = word) (hnodup : words.Nodup) :
    (∀ label s, Holds (moveWords type store words src dst rv).1 label s ↔
        Holds src label s ∧ ¬ Listed words type label s) ↔
      ∀ label ∈ words, Clean (asked type) (spent type) (groups src label) := by
  have hat : ∀ label ∈ words, ∀ s, Holds (moveWords type store words src dst rv).1 label s ↔
      Carried (takeGroups type src label).2 s := by
    intro label hmem s
    obtain ⟨i, hi⟩ := List.mem_iff_getElem?.1 hmem
    rw [holds_iff_groups, (moveWords_at type store src dst rv hwords hnodup hi).1, Carried]
  constructor
  · intro h label hmem
    refine clean_iff_carried.2 fun s => ?_
    have hlisted : Listed words type label s ↔ requests type s = true :=
      ⟨fun h => h.2, fun h => ⟨hmem, h⟩⟩
    rw [← hat label hmem s, h label s, hlisted, holds_iff_groups, Carried]
  · intro h label s
    by_cases hmem : label ∈ words
    · have hlisted : Listed words type label s ↔ requests type s = true :=
        ⟨fun h => h.2, fun h => ⟨hmem, h⟩⟩
      rw [hat label hmem s, clean_iff_carried.1 (h label hmem) s, hlisted, holds_iff_groups,
        Carried]
    · rw [holds_iff_groups, (moveWords_of_notMem type store src dst rv hwords hmem).1,
        ← holds_iff_groups]
      exact ⟨fun hh => ⟨hh, fun hl => hmem hl.1⟩, fun hh => hh.1⟩

/-- The signs that one round stores. -/
theorem stored_at (type : BitVec 32) (src dst : CapList) (rv : Int)
    (hwords : ∀ word ∈ words, labelPart word = word) (hnodup : words.Nodup) {i : Nat}
    (hi : words[i]? = some label) (s : Sign) :
    Holds (moveWords type true words src dst rv).2.1 label s ↔
      Holds dst label s ∨ ∃ x ∈ (takeGroups type src label).1,
        requests type s = true ∧ carries x s = true := by
  obtain ⟨cap, hcap, hgroups⟩ := (moveWords_at type true src dst rv hwords hnodup hi).2 rfl
  have hslot := congrArg List.flatten (groups_slot dst i label)
  rw [List.flatten_append, List.flatten_append, flatten_group] at hslot
  rw [holds_iff_groups, holds_iff_groups, hgroups, hslot, ← hcap s]
  simp only [Slot.groups, List.flatten_append, List.flatten_cons, List.mem_append,
    List.mem_singleton]
  constructor
  · rintro ⟨x, (hx | (hx | rfl) | hx), hs⟩
    · exact .inl ⟨x, .inl hx, hs⟩
    · exact .inl ⟨x, .inr (.inl hx), hs⟩
    · exact .inr hs
    · exact .inl ⟨x, .inr (.inr hx), hs⟩
  · rintro (⟨x, (hx | hx | hx), hs⟩ | hs)
    · exact ⟨x, .inl hx, hs⟩
    · exact ⟨x, .inr (.inl (.inl hx)), hs⟩
    · exact ⟨x, .inr (.inr hx), hs⟩
    · exact ⟨cap, .inr (.inl (.inr rfl)), hs⟩

/-- Clean entries lose nothing on the way. -/
theorem stored_iff (hclean : ∀ label ∈ words, Clean (asked type) (spent type) (groups src label))
    (dst : CapList) (rv : Int) (hwords : ∀ word ∈ words, labelPart word = word)
    (hnodup : words.Nodup) (label : LabelT) (s : Sign) :
    Holds (moveWords type true words src dst rv).2.1 label s ↔
      Holds dst label s ∨ Listed words type label s ∧ Holds src label s := by
  by_cases hmem : label ∈ words
  · obtain ⟨i, hi⟩ := List.mem_iff_getElem?.1 hmem
    rw [stored_at type src dst rv hwords hnodup hi, taken_iff (hclean label hmem), Carried,
      ← holds_iff_groups]
    simp only [Listed, hmem, true_and]
  · rw [holds_iff_groups, (moveWords_of_notMem type true src dst rv hwords hmem).2,
      ← holds_iff_groups]
    simp only [Listed, hmem, false_and, or_false]

/-! ## A temporary drop and a resume -/

theorem restorable_iff {list : CapList} {i : Nat} :
    Restorable type list i label ↔
      (∃ x ∈ (groups list label).flatten, Full type x) ∨
        ((slot list i).groups label).2.1 = [] ∧
          ∀ x ∈ ((slot list i).groups label).1.flatten, asked type x = false := by
  have hmem : ∀ (list : CapList) x, x ∈ (groups list label).flatten ↔
      x ∈ list.caps ∧ labelPart x = label := by
    intro list x
    rw [flatten_groups, List.mem_filter, beq_iff_eq, eq_comm]
  have hnil : ((slot list i).groups label).2.1 = [] ↔
      ∀ cap ∈ (slot list i).caps, labelPart cap ≠ label := by
    rw [Slot.groups, List.filter_eq_nil_iff]
    exact forall₂_congr fun cap _ => by rw [beq_iff_eq, ne_comm]
  rw [hnil, Slot.groups, Restorable]
  simp only [hmem, and_assoc, and_imp, Full]

variable (hwords : ∀ word ∈ words, labelPart word = word) (hnodup : words.Nodup)
  (hactive : ∀ label ∈ words, Clean (asked type) (spent type) (groups src label))
  (hheld : ∀ label s, Listed words type label s → Holds src label s)

include hwords hnodup hactive hheld

/-- The word that a drop suspends carries just the signs asked for. -/
theorem dropped_word {i : Nat} (hi : words[i]? = some label) :
    ∃ cap, (∀ s, carries cap s = true ↔ requests type s = true) ∧
      groups (moveWords type true words src dst 0).2.1 label =
        ((slot dst i).groups label).1 ++
          (((slot dst i).groups label).2.1 ++ [cap]) :: ((slot dst i).groups label).2.2 := by
  have hmem := List.mem_of_getElem? hi
  obtain ⟨cap, htaken, hgroups⟩ := (moveWords_at type true src dst 0 hwords hnodup hi).2 rfl
  refine ⟨cap, fun s => ?_, hgroups⟩
  rw [htaken s, taken_iff (hactive label hmem), Carried, ← holds_iff_groups]
  exact ⟨fun h => h.1, fun h => ⟨h, hheld label s ⟨hmem, h⟩⟩⟩

variable (htype : ∃ s, requests type s = true)

include htype

/-- For one label: the active signs are back just when the resume takes an entry with all the
signs asked for. -/
theorem active_restored_iff {i : Nat} (hi : words[i]? = some label) :
    let dropped := moveWords type true words src dst 0
    (∀ s, Holds (moveWords type true words dropped.2.1 dropped.1 0).2.1 label s ↔
        Holds src label s) ↔
      ∃ x ∈ (takeGroups type dropped.2.1 label).1, Full type x := by
  intro dropped
  have hmem := List.mem_of_getElem? hi
  have hlisted : ∀ s, requests type s = true → Holds src label s :=
    fun s hreq => hheld label s ⟨hmem, hreq⟩
  have hdropped : ∀ s, Holds dropped.1 label s ↔ Holds src label s ∧ ¬ requests type s = true := by
    intro s
    rw [(moved_iff_clean true dst 0 hwords hnodup).2 hactive label s]
    simp only [Listed, hmem, true_and]
  have hback := stored_at type dropped.2.1 dropped.1 0 hwords hnodup hi
  constructor
  · intro h
    obtain ⟨s₀, hs₀⟩ := htype
    have hsome : ∀ s, requests type s = true →
        ∃ x ∈ (takeGroups type dropped.2.1 label).1, requests type s = true ∧
          carries x s = true := by
      intro s hreq
      refine ((hback s).1 ((h s).2 (hlisted s hreq))).resolve_left fun hd => ?_
      exact ((hdropped s).1 hd).2 hreq
    obtain ⟨x, hx, -⟩ := hsome s₀ hs₀
    refine ⟨x, hx, fun s hreq => ?_⟩
    obtain ⟨y, hy, -, hs⟩ := hsome s hreq
    rwa [Option.mem_unique hx hy]
  · rintro ⟨x, hx, hfull⟩ s
    rw [hback s, hdropped s]
    by_cases hreq : requests type s = true
    · exact ⟨fun _ => hlisted s hreq, fun _ => .inr ⟨x, hx, hreq, hfull s hreq⟩⟩
    · constructor
      · rintro (h | ⟨_, _, h, _⟩)
        · exact h.1
        · exact absurd h hreq
      · exact fun h => .inl ⟨h, hreq⟩

variable (hsuspended : ∀ label ∈ words, Clean (asked type) (spent type) (groups dst label))

include hsuspended

/-- For one label: the active signs are back just when the suspended word, or one that does as
well, is found, and then the suspended signs are as before. -/
theorem restore_at {i : Nat} (hi : words[i]? = some label) :
    let dropped := moveWords type true words src dst 0
    let resumed := moveWords type true words dropped.2.1 dropped.1 0
    ((∀ s, Holds resumed.2.1 label s ↔ Holds src label s) ↔ Restorable type dst i label) ∧
      (Restorable type dst i label → ∀ s, Holds resumed.1 label s ↔ Holds dst label s) := by
  intro dropped resumed
  obtain ⟨cap, hcap, hgroups⟩ := dropped_word hwords hnodup hactive hheld hi
  have hclean := hsuspended label (List.mem_of_getElem? hi)
  have hslot : groups dst label = ((slot dst i).groups label).1 ++
      (asGroup ((slot dst i).groups label).2.1 ++ ((slot dst i).groups label).2.2) :=
    groups_slot dst i label
  have hiff : Restorable type dst i label ↔ _ := restorable_iff
  rw [hslot] at hclean hiff
  constructor
  · rw [hiff, ← taken_full_iff hclean htype hcap, ← hgroups]
    exact active_restored_iff hwords hnodup hactive hheld htype hi
  · intro h s
    have hafter := carried_after htype hcap (hiff.1 h) s
    rw [← hgroups, ← hslot] at hafter
    rw [holds_iff_groups, (moveWords_at type true dropped.2.1 dropped.1 0 hwords hnodup hi).1,
      holds_iff_groups]
    exact hafter

/-- **A resume undoes a temporary drop** of pairs that were all held, just when each suspended
word is found again. -/
theorem restore_iff :
    let dropped := moveWords type true words src dst 0
    let resumed := moveWords type true words dropped.2.1 dropped.1 0
    (∀ label s, (Holds resumed.2.1 label s ↔ Holds src label s) ∧
        (Holds resumed.1 label s ↔ Holds dst label s)) ↔
      ∀ i label, words[i]? = some label → Restorable type dst i label := by
  intro dropped resumed
  constructor
  · intro h i label hi
    exact (restore_at hwords hnodup hactive hheld htype hsuspended hi).1.1 fun s => (h label s).1
  · intro h label s
    by_cases hmem : label ∈ words
    · obtain ⟨i, hi⟩ := List.mem_iff_getElem?.1 hmem
      have hround := restore_at hwords hnodup hactive hheld htype hsuspended hi
      exact ⟨hround.1.2 (h i label hi) s, hround.2 (h i label hi) s⟩
    · obtain ⟨hsrc, hdst⟩ := moveWords_of_notMem type true src dst 0 hwords hmem
      obtain ⟨hback, hfrom⟩ :=
        moveWords_of_notMem type true dropped.2.1 dropped.1 0 hwords hmem
      rw [holds_iff_groups, holds_iff_groups, hfrom, hsrc, holds_iff_groups, hback, hdst,
        holds_iff_groups]
      exact ⟨Iff.rfl, Iff.rfl⟩

end Lists

/-! ## The calls -/

section Calls

variable {k : Kernel} {p : Pid} {tsec : TaskSecurityStruct}

/-- What a drop makes of a task's capabilities, and what it returns. -/
def dropFrom (tsec : TaskSecurityStruct) (words : List CapabilityT) (type : BitVec 32)
    (flag : Int) : TaskSecurityStruct × Int :=
  let moved := moveWords type (flag = capOpFlagTemporary) words tsec.capList tsec.capSuspendList 0
  ({ tsec with capList := moved.1, capSuspendList := moved.2.1 }, moved.2.2)

/-- What a resume makes of them, and what it returns. -/
def resumeFrom (tsec : TaskSecurityStruct) (words : List CapabilityT) (type : BitVec 32) :
    TaskSecurityStruct × Int :=
  let moved := moveWords type true words tsec.capSuspendList tsec.capList 0
  ({ tsec with capList := moved.2.1, capSuspendList := moved.1 }, moved.2.2)

/-- A task that has security data. -/
private theorem exists_task (hsec : k.security p = some tsec) :
    ∃ uid tgid, k.task p = some ⟨uid, tgid, some tsec⟩ := by
  unfold Kernel.security at hsec
  cases htask : k.task p with
  | none => rw [htask] at hsec; exact nomatch hsec
  | some tsk =>
      rw [htask] at hsec
      obtain ⟨uid, tgid, security⟩ := tsk
      obtain rfl : security = some tsec := hsec
      exact ⟨uid, tgid, rfl⟩

private theorem security_modified (hsec : k.security p = some tsec)
    (f : TaskSecurityStruct → TaskSecurityStruct) :
    (k.modifySecurity p f).security p = some (f tsec) := by
  rw [Kernel.security_modifySecurity, if_pos rfl, hsec, Option.map_some]

theorem perform_drop (hsec : k.security p = some tsec) (words : List CapabilityT)
    (type : BitVec 32) (flag : Int) :
    ∃ k', perform k p (.dropCapabilities (some words) type flag) =
        .ok (.rv (dropFrom tsec words type flag).2, k') ∧
      k'.security p = some (dropFrom tsec words type flag).1 := by
  obtain ⟨uid, tgid, htask⟩ := exists_task hsec
  refine ⟨k.modifySecurity p fun tsec' =>
    { tsec' with
      capList := (dropFrom tsec words type flag).1.capList
      capSuspendList := (dropFrom tsec words type flag).1.capSuspendList }, ?_, ?_⟩
  · rw [perform, htask]
    rfl
  · rw [security_modified hsec]
    rfl

theorem perform_resume (hsec : k.security p = some tsec) (words : List CapabilityT)
    (type : BitVec 32) :
    ∃ k', perform k p (.resumeCapabilities (some words) type) =
        .ok (.rv (resumeFrom tsec words type).2, k') ∧
      k'.security p = some (resumeFrom tsec words type).1 := by
  obtain ⟨uid, tgid, htask⟩ := exists_task hsec
  refine ⟨k.modifySecurity p fun tsec' =>
    { tsec' with
      capList := (resumeFrom tsec words type).1.capList
      capSuspendList := (resumeFrom tsec words type).1.capSuspendList }, ?_, ?_⟩
  · rw [perform, htask]
    rfl
  · rw [security_modified hsec]
    rfl

/-- What is said of the result of a call is said of what it computes. -/
private theorem exists_perform_iff {c : Call} {rv : Int} {k' : Kernel} {new : TaskSecurityStruct}
    (hcall : perform k p c = .ok (.rv rv, k')) (hnew : k'.security p = some new)
    (P : Int → TaskSecurityStruct → Prop) :
    (∃ rv k' new, perform k p c = .ok (.rv rv, k') ∧ k'.security p = some new ∧ P rv new) ↔
      P rv new := by
  constructor
  · rintro ⟨rv', k'', new', hcall', hnew', h⟩
    rw [hcall] at hcall'
    obtain ⟨hrv, rfl⟩ := Prod.mk.inj (Except.ok.inj hcall')
    obtain rfl := Ret.rv.inj hrv
    rw [hnew] at hnew'
    obtain rfl := Option.some.inj hnew'
    exact h
  · exact fun h => ⟨rv, k', new, hcall, hnew, h⟩

/-- `Conserves`, with what the calls compute. -/
private theorem conserves_def (hsec : k.security p = some tsec) :
    Conserves k p tsec words type ↔
      (∀ flag, flag = capOpFlagTemporary ∨ flag = capOpFlagPermanent →
        Dropped words type flag tsec (dropFrom tsec words type flag).1
          (dropFrom tsec words type flag).2) ∧
      Resumed words type tsec (resumeFrom tsec words type).1 ∧
      ((dropFrom tsec words type capOpFlagTemporary).2 = 0 → SameRights tsec
        (resumeFrom (dropFrom tsec words type capOpFlagTemporary).1 words type).1) := by
  obtain ⟨k₁, hcall₁, hnew₁⟩ := perform_drop hsec words type capOpFlagTemporary
  obtain ⟨k₂, hcall₂, hnew₂⟩ := perform_resume hsec words type
  obtain ⟨k₃, hcall₃, hnew₃⟩ := perform_resume hnew₁ words type
  have hdrop : ∀ flag, (∃ rv k' new,
      perform k p (.dropCapabilities (some words) type flag) = .ok (.rv rv, k') ∧
        k'.security p = some new ∧ Dropped words type flag tsec new rv) ↔
      Dropped words type flag tsec (dropFrom tsec words type flag).1
        (dropFrom tsec words type flag).2 := by
    intro flag
    obtain ⟨k', hcall, hnew⟩ := perform_drop hsec words type flag
    exact exists_perform_iff hcall hnew fun rv new => Dropped words type flag tsec new rv
  have hresume := exists_perform_iff hcall₂ hnew₂ fun _ new => Resumed words type tsec new
  have hrestore := exists_perform_iff hcall₃ hnew₃ fun _ new => SameRights tsec new
  constructor
  · rintro ⟨hd, hr, hs⟩
    refine ⟨fun flag hflag => (hdrop flag).1 (hd flag hflag), hresume.1 hr, fun hzero => ?_⟩
    rw [hzero] at hcall₁
    exact hrestore.1 (hs k₁ hcall₁)
  · rintro ⟨hd, hr, hs⟩
    refine ⟨fun flag hflag => (hdrop flag).2 (hd flag hflag), hresume.2 hr, fun k' hcall' => ?_⟩
    rw [hcall₁] at hcall'
    obtain ⟨hrv, rfl⟩ := Prod.mk.inj (Except.ok.inj hcall')
    exact hrestore.2 (hs (Ret.rv.inj hrv))

/-- **Which calls conserve the signs.**  Dropping, suspending and resuming distinct labels move
the listed pairs and no others, and undo each other, just when: for each listed label at most one
entry of `capList` has a sign asked for, it is the first of its segment for that label and has no
other sign, and likewise in `capSuspendList`; the first entries for the labels have the leading
sign just when all listed pairs are held; and, if they are, every suspended word can be found. -/
theorem conserves_iff (hsec : k.security p = some tsec) (htype : ∃ s, requests type s = true)
    (hwords : ∀ word ∈ words, labelPart word = word) (hnodup : words.Nodup) :
    Conserves k p tsec words type ↔ Conserving tsec words type := by
  have hrv : ∀ flag, (dropFrom tsec words type flag).2 = 0 ↔
      ∀ word ∈ words, carries (taskFindCapability tsec.capList word) (lead type) = true := by
    intro flag
    rw [dropFrom, moveWords_rv htype _ _ _ 0 hwords hnodup]
    exact and_iff_right rfl
  rw [conserves_def hsec]
  constructor
  · rintro ⟨hd, hr, hs⟩
    have htemp := hd capOpFlagTemporary (.inl rfl)
    have hactive := (moved_iff_clean _ _ 0 hwords hnodup).1 htemp.active
    have hsuspended := (moved_iff_clean _ _ 0 hwords hnodup).1 hr.suspended
    refine ⟨hactive, hsuspended, (hrv _).symm.trans htemp.returns, fun hheld => ?_⟩
    have hsame := hs (htemp.returns.2 hheld)
    exact (restore_iff hwords hnodup hactive hheld htype hsuspended).1
      fun label s => ⟨hsame.active label s, hsame.suspended label s⟩
  · rintro ⟨hactive, hsuspended, hfound, hrestorable⟩
    have hmoved : ∀ flag label s, Holds (dropFrom tsec words type flag).1.capList label s ↔
        Holds tsec.capList label s ∧ ¬ Listed words type label s :=
      fun flag => (moved_iff_clean _ _ 0 hwords hnodup).2 hactive
    refine ⟨fun flag hflag => ⟨hmoved flag, ?_, (hrv flag).trans hfound⟩, ⟨?_, ?_⟩, ?_⟩
    · intro label s
      rw [hmoved flag]
      rcases hflag with rfl | rfl
      · have hstored := stored_iff hactive tsec.capSuspendList 0 hwords hnodup label s
        refine hstored.trans (or_congr_right ⟨?_, ?_⟩)
        · exact fun ⟨hlisted, hheld⟩ => ⟨rfl, hheld, fun h => h.2 hlisted⟩
        · exact fun ⟨_, hheld, h⟩ => ⟨Classical.not_not.1 fun hl => h ⟨hheld, hl⟩, hheld⟩
      · have hkept : (dropFrom tsec words type capOpFlagPermanent).1.capSuspendList =
            tsec.capSuspendList := moveWords_not_stored _ _ 0
        rw [hkept]
        exact ⟨.inl, fun h => h.resolve_right fun hflag => absurd hflag.1 (by decide)⟩
    · exact (moved_iff_clean _ _ 0 hwords hnodup).2 hsuspended
    · exact stored_iff hsuspended _ 0 hwords hnodup
    · intro hzero
      have hheld := hfound.1 ((hrv _).1 hzero)
      have hback := (restore_iff hwords hnodup hactive hheld htype hsuspended).2
        (hrestorable hheld)
      exact ⟨fun label s => (hback label s).1, fun label s => (hback label s).2⟩

end Calls

/-- A fresh label with one sign: the task drops it, for a time or for good, and resumes it. -/
theorem conserves_iff_fresh :
    ∃ k tsec, (bootKernel 1000).step (1, .allocLabel capPlusMask regionSelf) = some k ∧
      k.security 1 = some tsec ∧ Holds tsec.capList 2#64 .plus ∧
      Conserves k 1 tsec [2#64] capPlusMask := by
  have hholds : Holds [⟨[2#64 ||| Sign.plus.wide], by decide⟩] 2#64 .plus :=
    ⟨2#64 ||| Sign.plus.wide, List.mem_of_elem_eq_true rfl, rfl, rfl⟩
  refine ⟨_, ⟨.zero, [⟨[2#64 ||| Sign.plus.wide], by decide⟩], [], false⟩, rfl, rfl, hholds, ?_⟩
  have hwords : ∀ word ∈ [2#64], labelPart word = word := List.forall_mem_singleton.2 rfl
  refine (conserves_iff rfl ⟨.plus, rfl⟩ hwords (by decide)).2 ⟨?_, ?_, ?_, ?_⟩
  · refine List.forall_mem_singleton.2 (clean_iff.2 fun x hx => ?_)
    exact absurd (show x ∈ [] from hx) List.not_mem_nil
  · refine List.forall_mem_singleton.2 (clean_iff.2 fun x hx => ?_)
    exact absurd (show x ∈ [] from hx) List.not_mem_nil
  · refine ⟨fun _ label s hl => ?_, fun _ => List.forall_mem_singleton.2 rfl⟩
    obtain rfl := List.mem_singleton.1 hl.1
    cases s with
    | plus => exact hholds
    | minus => exact absurd hl.2 (by decide)
  · exact fun _ i label _ => .inr ⟨fun _ h => absurd h List.not_mem_nil,
      fun _ h => absurd h List.not_mem_nil⟩

/-- **Dropping one of two signs drops nothing.**  A task allocates a label with both signs and
drops PLUS for good.  The call returns 0, and the task still holds PLUS. -/
theorem drop_keeps_sign :
    ∃ k tsec, (bootKernel 1000).step (1, .allocLabel (capPlusMask ||| capMinusMask) regionSelf) =
        some k ∧ k.security 1 = some tsec ∧ ¬ Conserves k 1 tsec [2#64] capPlusMask ∧
      ∃ k' new, perform k 1 (.dropCapabilities (some [2#64]) capPlusMask capOpFlagPermanent) =
          .ok (.rv 0, k') ∧ k'.security 1 = some new ∧ Holds new.capList 2#64 .plus := by
  have hholds : Holds [⟨[2#64 ||| Sign.plus.wide ||| Sign.minus.wide], by decide⟩] 2#64 .plus :=
    ⟨2#64 ||| Sign.plus.wide ||| Sign.minus.wide, List.mem_of_elem_eq_true rfl, rfl, rfl⟩
  refine ⟨_, _, rfl, rfl, fun h => ?_, _, _, rfl, rfl, hholds⟩
  have hdropped := ((conserves_def rfl).1 h).1 capOpFlagPermanent (.inr rfl)
  exact ((hdropped.active 2#64 .plus).1 hholds).2 ⟨List.mem_singleton_self _, rfl⟩

end Laminar.Kernel
