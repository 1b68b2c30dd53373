import Laminar.Lib.Loop

/-!
# Outcomes of fallible code, and what its events may be

`Post E Q x` is a postcondition for both ends of `x`: its value has `Q`, its error has `E`.
`Mirrors` relates two computations, one of which may end in errors that the other does not
have.  Both are kept by sequencing.

`Always` is a property of a list of events: each of them is allowed by those before it.  It
holds of every initial part of the list.
-/

namespace Laminar.Lib

variable {α β γ δ ε τ : Type}

/-! ## Postconditions -/

/-- A value with `Q` or an error with `E`. -/
def Post (E : ε → Prop) (Q : α → Prop) : Except ε α → Prop
  | .ok a => Q a
  | .error e => E e

section Post

variable {E : ε → Prop} {P Q : α → Prop} {R : β → Prop} {x : Except ε α}

theorem Post.bind {f : α → Except ε β} (hx : Post E Q x) (hf : ∀ a, Q a → Post E R (f a)) :
    Post E R (x >>= f) := by
  cases x with
  | error e => exact hx
  | ok a => exact hf a hx

theorem Post.mono (hx : Post E P x) (h : ∀ a, P a → Q a) : Post E Q x := by
  cases x with
  | error e => exact hx
  | ok a => exact h a hx

end Post

/-! ## Two computations -/

/-- The outcome of the second computation is the image of that of the first, unless the first
ends in an error that is excused. -/
def Mirrors (Excused : ε → Prop) (viewError : ε → ε) (view : α → β) :
    Except ε α → Except ε β → Prop
  | .ok a, y => y = .ok (view a)
  | .error e, y => Excused e ∨ y = .error (viewError e)

section Mirrors

variable {Excused : ε → Prop} {viewError : ε → ε} {view : α → β} {view' : γ → δ}

theorem Mirrors.bind {x : Except ε α} {y : Except ε β} {f : α → Except ε γ}
    {g : β → Except ε δ} (hxy : Mirrors Excused viewError view x y)
    (hfg : ∀ a, Mirrors Excused viewError view' (f a) (g (view a))) :
    Mirrors Excused viewError view' (x >>= f) (y >>= g) := by
  cases x with
  | error e =>
      rcases hxy with hexcused | rfl
      · exact .inl hexcused
      · exact .inr rfl
  | ok a =>
      obtain rfl := hxy
      exact hfg a

theorem Mirrors.map {x : Except ε α} {y : Except ε β} {f : α → γ} {g : β → δ}
    (hxy : Mirrors Excused viewError view x y) (hfg : ∀ a, g (view a) = view' (f a)) :
    Mirrors Excused viewError view' (x.map f) (y.map g) := by
  cases x with
  | error e =>
      rcases hxy with hexcused | rfl
      · exact .inl hexcused
      · exact .inr rfl
  | ok a =>
      obtain rfl := hxy
      exact congrArg Except.ok (hfg a)

end Mirrors

/-! ## Events -/

/-- Every event is allowed by those before it. -/
def Always (Allowed : List τ → τ → Prop) (events : List τ) : Prop :=
  ∀ past e future, events = past ++ e :: future → Allowed past e

section Always

variable {Allowed : List τ → τ → Prop} {events : List τ}

theorem always_nil : Always Allowed [] := by
  intro past e future h
  simp at h

theorem Always.snoc {e : τ} (h : Always Allowed events) (he : Allowed events e) :
    Always Allowed (events ++ [e]) := by
  intro past e' future heq
  rcases List.eq_nil_or_concat future with rfl | ⟨future', last, rfl⟩
  · obtain ⟨rfl, hlast⟩ := List.append_inj' heq rfl
    cases hlast
    exact he
  · have heq' : events ++ [e] = (past ++ e' :: future') ++ [last] := by simpa using heq
    obtain ⟨hevents, -⟩ := List.append_inj' heq' rfl
    exact h past e' future' hevents

theorem Always.of_append {more : List τ} (h : Always Allowed (events ++ more)) :
    Always Allowed events := by
  intro past e future heq
  refine h past e (future ++ more) ?_
  rw [heq, List.append_assoc]
  rfl

end Always

end Laminar.Lib
