import Mathlib.Data.List.Basic

/-!
# Taking one element out of grouped elements

Elements stand in groups, and a search looks at the first element of each group only.  The
first one that is asked for is taken; it leaves its group if it is spent by that, and stays
otherwise.  `Clean` says when such a search finds all there is to find.
-/

namespace Laminar.Lib

variable {α : Type} {asked spent : α → Bool} {gs : List (List α)}

/-- Take the first element that is asked for among the first elements of the groups. -/
def takeHead (asked spent : α → Bool) : List (List α) → Option α × List (List α)
  | [] => (none, [])
  | [] :: gs => ((takeHead asked spent gs).1, [] :: (takeHead asked spent gs).2)
  | (x :: g) :: gs =>
      if asked x then (some x, (if spent x then g else x :: g) :: gs)
      else ((takeHead asked spent gs).1, (x :: g) :: (takeHead asked spent gs).2)

/-- No group starts with an element that is asked for. -/
def NoHead (asked : α → Bool) (gs : List (List α)) : Prop :=
  ∀ g ∈ gs, ∀ x ∈ g.head?, asked x = false

/-- Groups without such a first element are passed over. -/
theorem takeHead_append (spent : α → Bool) (gs : List (List α)) {before : List (List α)}
    (hb : NoHead asked before) :
    takeHead asked spent (before ++ gs) =
      ((takeHead asked spent gs).1, before ++ (takeHead asked spent gs).2) := by
  induction before with
  | nil => rfl
  | cons g before ih =>
      obtain ⟨hg, hrest⟩ := List.forall_mem_cons.1 hb
      cases g with
      | nil => rw [List.cons_append, takeHead, ih hrest, List.cons_append]
      | cons x g =>
          have hx : ¬ asked x = true := by rw [hg x rfl]; exact Bool.false_ne_true
          rw [List.cons_append, takeHead, if_neg hx, ih hrest, List.cons_append]

/-- What the search does: nothing, or it takes the first element of a group behind groups that
are passed over. -/
theorem takeHead_cases (asked spent : α → Bool) (gs : List (List α)) :
    (takeHead asked spent gs = (none, gs) ∧ NoHead asked gs) ∨
      ∃ before x g after, gs = before ++ (x :: g) :: after ∧ NoHead asked before ∧
        asked x = true ∧ takeHead asked spent gs =
          (some x, before ++ (if spent x then g else x :: g) :: after) := by
  induction gs with
  | nil => exact .inl ⟨rfl, fun _ h => absurd h List.not_mem_nil⟩
  | cons g gs ih =>
      by_cases hx : ∀ x ∈ g.head?, asked x = false
      · have heq := takeHead_append spent gs (List.forall_mem_singleton.2 hx)
        rw [List.singleton_append] at heq
        rcases ih with ⟨hnone, hno⟩ | ⟨before, x, g', after, rfl, hb, ha, htake⟩
        · exact .inl ⟨by rw [heq, hnone]; rfl, List.forall_mem_cons.2 ⟨hx, hno⟩⟩
        · refine .inr ⟨g :: before, x, g', after, rfl, List.forall_mem_cons.2 ⟨hx, hb⟩, ha, ?_⟩
          rw [heq, htake]
          rfl
      · cases g with
        | nil => exact absurd (fun x h => nomatch h) hx
        | cons x g =>
            have ha : asked x = true := by simpa using hx
            refine .inr ⟨[], x, g, gs, rfl, fun _ h => absurd h List.not_mem_nil, ha, ?_⟩
            rw [takeHead, if_pos ha]
            rfl

/-- The element that is taken is the first one asked for among the first ones. -/
theorem takeHead_fst : (takeHead asked spent gs).1 = (gs.filterMap List.head?).find? asked := by
  induction gs with
  | nil => rfl
  | cons g gs ih =>
      cases g with
      | nil => exact ih
      | cons x g =>
          rw [takeHead, List.filterMap_cons_some (List.head?_cons ..)]
          split
          · rename_i hx
            rw [List.find?_cons_of_pos hx]
          · rename_i hx
            rw [List.find?_cons_of_neg hx, ih]

theorem mem_of_takeHead {x : α} (h : x ∈ (takeHead asked spent gs).2.flatten) :
    x ∈ gs.flatten := by
  rcases takeHead_cases asked spent gs with
    ⟨htake, -⟩ | ⟨before, y, g, after, rfl, -, -, htake⟩ <;> rw [htake] at h
  · exact h
  · split at h
    · simp only [List.flatten_append, List.flatten_cons, List.mem_append, List.mem_cons] at h ⊢
      tauto
    · exact h

/-- What is not spent stays. -/
theorem mem_takeHead_of_not_spent {x : α} (h : x ∈ gs.flatten) (hs : spent x = false) :
    x ∈ (takeHead asked spent gs).2.flatten := by
  rcases takeHead_cases asked spent gs with
    ⟨htake, -⟩ | ⟨before, y, g, after, rfl, -, -, htake⟩ <;> rw [htake]
  · exact h
  · split
    · rename_i hy
      have hne : x ≠ y := by
        rintro rfl
        exact Bool.eq_false_iff.1 hs hy
      simp only [List.flatten_append, List.flatten_cons, List.mem_append, List.mem_cons] at h ⊢
      tauto
    · exact h

/-- No more than one element leaves. -/
theorem countP_takeHead (asked spent : α → Bool) (gs : List (List α)) (p : α → Bool) :
    gs.flatten.countP p ≤ (takeHead asked spent gs).2.flatten.countP p + 1 := by
  rcases takeHead_cases asked spent gs with
    ⟨htake, -⟩ | ⟨before, y, g, after, rfl, -, -, htake⟩ <;> rw [htake]
  · exact Nat.le_succ _
  · split
    · have hy : ∀ xs : List α, (y :: xs).countP p ≤ xs.countP p + 1 := by
        intro xs
        rw [List.countP_cons]
        split <;> omega
      have := hy g
      simp only [List.flatten_append, List.flatten_cons, List.countP_append] at this ⊢
      omega
    · exact Nat.le_succ _

theorem takeHead_some {x : α} (h : (takeHead asked spent gs).1 = some x) :
    x ∈ gs.flatten ∧ asked x = true := by
  rw [takeHead_fst] at h
  obtain ⟨g, hg, hx⟩ := List.mem_filterMap.1 (List.mem_of_find?_eq_some h)
  exact ⟨List.mem_flatten.2 ⟨g, hg, List.mem_of_head? hx⟩, List.find?_some h⟩

/-- At most one element is asked for.  It is the first of its group, and taking it spends it. -/
structure Clean (asked spent : α → Bool) (gs : List (List α)) : Prop where
  single : (gs.flatten.filter asked).length ≤ 1
  first : ∀ g ∈ gs, ∀ x ∈ g, asked x = true → g.head? = some x
  spent : ∀ x ∈ gs.flatten, asked x = true → spent x = true

private theorem length_filter_middle {before after : List (List α)} {x : α} {g : List α}
    (hx : asked x = true) :
    ((before ++ (x :: g) :: after).flatten.filter asked).length =
      ((before ++ g :: after).flatten.filter asked).length + 1 := by
  simp only [List.flatten_append, List.flatten_cons, List.cons_append, List.filter_append,
    List.filter_cons_of_pos hx, List.length_append, List.length_cons]
  omega

/-- Besides an element that is asked for, clean groups have no other. -/
theorem Clean.others {before after : List (List α)} {x : α} {g : List α}
    (h : Clean asked spent (before ++ (x :: g) :: after)) (hx : asked x = true) :
    ∀ y ∈ (before ++ g :: after).flatten, asked y = false := by
  have hlen := h.single
  rw [length_filter_middle hx] at hlen
  have hnil : (before ++ g :: after).flatten.filter asked = [] :=
    List.length_eq_zero_iff.1 (by omega)
  intro y hy
  exact Bool.eq_false_iff.2 (List.filter_eq_nil_iff.1 hnil y hy)

theorem Clean.left {gs' : List (List α)} (h : Clean asked spent (gs ++ gs')) :
    Clean asked spent gs := by
  have hmem : ∀ x ∈ gs.flatten, x ∈ (gs ++ gs').flatten := fun x hx => by
    rw [List.flatten_append]
    exact List.mem_append_left _ hx
  have hlen := h.single
  rw [List.flatten_append, List.filter_append, List.length_append] at hlen
  exact ⟨Nat.le_of_add_right_le hlen, fun g hg => h.first g (List.mem_append_left _ hg),
    fun x hx => h.spent x (hmem x hx)⟩

/-- In clean groups the search finds what is asked for. -/
theorem Clean.takeHead_eq {x : α} (h : Clean asked spent gs) (hx : x ∈ gs.flatten)
    (ha : asked x = true) : (takeHead asked spent gs).1 = some x := by
  rcases takeHead_cases asked spent gs with
    ⟨-, hno⟩ | ⟨before, y, g, after, rfl, -, hy, htake⟩
  · obtain ⟨g, hg, hxg⟩ := List.mem_flatten.1 hx
    exact absurd ha (Bool.eq_false_iff.1 (hno g hg x (h.first g hg x hxg ha)))
  · have hother := h.others hy x
    rw [htake, Option.some.injEq]
    by_contra hne
    refine Bool.eq_false_iff.1 (hother ?_) ha
    simp only [List.flatten_append, List.flatten_cons, List.mem_append, List.mem_cons] at hx ⊢
    tauto

/-- Groups in which nothing is asked for are clean. -/
theorem Clean.of_none (h : ∀ x ∈ gs.flatten, asked x = false) : Clean asked spent gs := by
  have hnil : gs.flatten.filter asked = [] :=
    List.filter_eq_nil_iff.2 fun x hx => Bool.eq_false_iff.1 (h x hx)
  refine ⟨by rw [hnil]; exact Nat.zero_le 1, ?_, ?_⟩
  · intro g hg x hx ha
    exact absurd ha (Bool.eq_false_iff.1 (h x (List.mem_flatten.2 ⟨g, hg, hx⟩)))
  · intro x hx ha
    exact absurd ha (Bool.eq_false_iff.1 (h x hx))

/-- So are groups with one element that is asked for, at the head of its group, that is spent by
it. -/
theorem Clean.of_one {before after : List (List α)} {x : α} {g : List α} (ha : asked x = true)
    (hspent : spent x = true) (h : ∀ y ∈ (before ++ g :: after).flatten, asked y = false) :
    Clean asked spent (before ++ (x :: g) :: after) := by
  -- what is asked for is the element itself
  have honly : ∀ g' ∈ before ++ (x :: g) :: after, ∀ y ∈ g', asked y = true →
      g' = x :: g ∧ y = x := by
    intro g' hg' y hy hay
    have hout : y ∉ (before ++ g :: after).flatten :=
      fun hin => Bool.eq_false_iff.1 (h y hin) hay
    simp only [List.mem_flatten, List.mem_append, List.mem_cons] at hg' hout
    rcases hg' with hg' | rfl | hg'
    · exact absurd ⟨g', .inl hg', hy⟩ hout
    · rcases List.mem_cons.1 hy with rfl | hy
      · exact ⟨rfl, rfl⟩
      · exact absurd ⟨g, .inr (.inl rfl), hy⟩ hout
    · exact absurd ⟨g', .inr (.inr hg'), hy⟩ hout
  refine ⟨?_, ?_, ?_⟩
  · rw [length_filter_middle ha]
    exact Nat.succ_le_succ (Nat.le_of_eq (List.length_eq_zero_iff.2
      (List.filter_eq_nil_iff.2 fun y hy => Bool.eq_false_iff.1 (h y hy))))
  · intro g' hg' y hy hay
    obtain ⟨rfl, rfl⟩ := honly g' hg' y hy hay
    rfl
  · intro y hy hay
    obtain ⟨g', hg', hyg⟩ := List.mem_flatten.1 hy
    rw [(honly g' hg' y hyg hay).2]
    exact hspent

/-- The search leaves nothing that is asked for just when the groups are clean. -/
theorem clean_iff :
    Clean asked spent gs ↔ ∀ x ∈ (takeHead asked spent gs).2.flatten, asked x = false := by
  rcases takeHead_cases asked spent gs with
    ⟨htake, hno⟩ | ⟨before, x, g, after, rfl, -, ha, htake⟩ <;> rw [htake]
  · constructor
    · intro h y hy
      obtain ⟨g, hg, hyg⟩ := List.mem_flatten.1 hy
      by_cases ha : asked y = true
      · exact hno g hg y (h.first g hg y hyg ha)
      · exact Bool.eq_false_iff.2 ha
    · exact Clean.of_none
  · constructor
    · intro h
      have hmem : x ∈ (before ++ (x :: g) :: after).flatten := by simp
      rw [h.spent x hmem ha, if_pos rfl]
      exact h.others ha
    · intro h
      have hspent : spent x = true := by
        by_contra hs
        rw [if_neg hs] at h
        exact Bool.eq_false_iff.1 (h x (by simp)) ha
      rw [hspent, if_pos rfl] at h
      exact .of_one ha hspent h

end Laminar.Lib
