import Mathlib.Data.Set.Basic
import Mathlib.Logic.Function.Basic

/-!
# Tags that follow data

Holders of data, each with the set of tags whose data it may hold and with a bound on
that set.  Data that flows takes its tags along.  The tags stay within the bounds as long
as data flows towards greater bounds only, bounds only grow, and a holder that is given
new tags has a bound for them.

The same is said of one tag, where a flow has to respect the bound only if the tag is
there.
-/

namespace Laminar.Lib

variable {H T : Type} {tags bound : H → Set T}

/-- Every holder's tags are within its bound. -/
def Contained (tags bound : H → Set T) : Prop := ∀ h, tags h ⊆ bound h

/-- Bounds may grow. -/
theorem Contained.mono {bound' : H → Set T} (h : Contained tags bound)
    (hle : ∀ x, bound x ⊆ bound' x) : Contained tags bound' :=
  fun x => (h x).trans (hle x)

variable [DecidableEq H]

/-- Data flows from `src` to `dst`. -/
def flow (tags : H → Set T) (src dst : H) : H → Set T :=
  Function.update tags dst (tags dst ∪ tags src)

/-- A holder is given a bound and tags within it. -/
theorem Contained.update {bound' : H → Set T} (h : Contained tags bound) {x : H} {new : Set T}
    (hframe : ∀ y, y ≠ x → bound' y = bound y) (hnew : new ⊆ bound' x) :
    Contained (Function.update tags x new) bound' := by
  intro y
  by_cases hy : y = x
  · subst hy
    rw [Function.update_self]
    exact hnew
  · rw [Function.update_of_ne hy, hframe y hy]
    exact h y

/-- Data may flow towards a greater bound. -/
theorem Contained.flow (h : Contained tags bound) {src dst : H} (hle : bound src ⊆ bound dst) :
    Contained (flow tags src dst) bound :=
  h.update (fun _ _ => rfl) (Set.union_subset (h dst) ((h src).trans hle))

/-! ## One tag -/

/-- Every holder that has the tag has it in its bound. -/
def ContainedTag (tags bound : H → Set T) (t : T) : Prop := ∀ h, t ∈ tags h → t ∈ bound h

variable {t : T}

omit [DecidableEq H] in
/-- The bounds may change where they keep the tag. -/
theorem ContainedTag.mono {bound' : H → Set T} (h : ContainedTag tags bound t)
    (hle : ∀ x, t ∈ bound x → t ∈ bound' x) : ContainedTag tags bound' t :=
  fun x hx => hle x (h x hx)

theorem ContainedTag.update {bound' : H → Set T} (h : ContainedTag tags bound t) {x : H}
    {new : Set T} (hframe : ∀ y, y ≠ x → bound' y = bound y) (hnew : t ∈ new → t ∈ bound' x) :
    ContainedTag (Function.update tags x new) bound' t := by
  intro y hy
  by_cases hyx : y = x
  · subst hyx
    rw [Function.update_self] at hy
    exact hnew hy
  · rw [Function.update_of_ne hyx] at hy
    rw [hframe y hyx]
    exact h y hy

/-- The tag may flow where the bound has it. -/
theorem ContainedTag.flow (h : ContainedTag tags bound t) {src dst : H}
    (hle : t ∈ tags src → t ∈ bound dst) : ContainedTag (flow tags src dst) bound t :=
  h.update (fun _ _ => rfl) fun hmem => hmem.elim (h dst) hle

end Laminar.Lib
