/-!
# Fallible steps and loops with an early exit

`forEach body start xs` is the loop `for (i = start; ...; i++)` over the elements
of `xs` whose body may fail, may leave the loop with a result, or may go on.
Its lemmas say what the loop computes once its body is known not to fail on
the elements it meets: a search for the first element that produces a result,
and a search for the position of the first match.

`loop round stuck n s` is a loop over a state that has no list to follow; `loop_ok` is its
rule of total correctness.
-/

namespace Laminar.Lib

variable {α β ε ρ : Type}

/-- A sequence succeeds when its first part does and the rest does on the
result. -/
theorem bind_eq_ok {x : Except ε α} {f : α → Except ε β} {b : β} :
    x >>= f = .ok b ↔ ∃ a, x = .ok a ∧ f a = .ok b := by
  cases x with
  | error e => simp [bind, Except.bind]
  | ok a => simp [bind, Except.bind]

theorem ok_bind (a : α) (f : α → Except ε β) : (Except.ok a >>= f) = f a := rfl

theorem map_eq_ok {x : Except ε α} {f : α → β} {b : β} :
    x.map f = .ok b ↔ ∃ a, x = .ok a ∧ f a = b := by
  cases x with
  | error e => simp [Except.map]
  | ok a => simp [Except.map]

/-- What every step of a fold keeps holds at its end. -/
theorem foldlM_invariant {f : β → α → Except ε β} {xs : List α} {P : β → Prop}
    (hstep : ∀ b, ∀ a ∈ xs, ∀ b', P b → f b a = .ok b' → P b') {b b' : β} (hb : P b)
    (h : xs.foldlM f b = .ok b') : P b' := by
  induction xs generalizing b with
  | nil => exact Except.ok.inj h ▸ hb
  | cons a as ih =>
      rw [List.foldlM_cons, bind_eq_ok] at h
      obtain ⟨b₁, hfirst, hrest⟩ := h
      apply ih ?_ (hstep b a List.mem_cons_self b₁ hb hfirst) hrest
      intro c x hx
      exact hstep c x (List.mem_cons_of_mem a hx)

/-- Run `body` on the elements of a list, counting from `i`, until it produces
a result. -/
def forEach (body : Nat → α → Except ε (Option ρ)) :
    Nat → List α → Except ε (Option ρ)
  | _, [] => .ok none
  | i, a :: as =>
      match body i a with
      | .error e => .error e
      | .ok (some r) => .ok (some r)
      | .ok none => forEach body (i + 1) as

/-- A loop whose body does not fail on the elements it is given is a search. -/
theorem forEach_eq_findSome? {body : Nat → α → Except ε (Option ρ)}
    {f : α → Option ρ} {xs : List α}
    (h : ∀ i, ∀ a ∈ xs, body i a = .ok (f a)) (i : Nat) :
    forEach body i xs = .ok (xs.findSome? f) := by
  induction xs generalizing i with
  | nil => rfl
  | cons a as ih =>
      have htail := ih (fun j b hb => h j b (by simp [hb])) (i + 1)
      rw [forEach, h i a (by simp), List.findSome?_cons]
      cases hf : f a with
      | none => exact htail
      | some r => rfl

/-- A loop fails only where its body does. -/
theorem forEach_error {body : Nat → α → Except ε (Option ρ)} {xs : List α} {i : Nat}
    {e : ε} (h : forEach body i xs = .error e) : ∃ j, ∃ a ∈ xs, body j a = .error e := by
  induction xs generalizing i with
  | nil => simp [forEach] at h
  | cons a as ih =>
      rw [forEach] at h
      split at h
      · rename_i e' hbody
        obtain rfl := Except.error.inj h
        exact ⟨i, a, List.mem_cons_self, hbody⟩
      · simp at h
      · obtain ⟨j, b, hmem, hb⟩ := ih h
        exact ⟨j, b, List.mem_cons_of_mem a hmem, hb⟩

/-- A loop that stops at the first match and returns its counter. -/
theorem forEach_index (p : α → Bool) (xs : List α) (i : Nat) :
    forEach (fun j a => (.ok (if p a then some j else none) : Except ε (Option Nat))) i xs =
      .ok ((xs.findIdx? p).map (· + i)) := by
  induction xs generalizing i with
  | nil => rfl
  | cons a as ih =>
      rw [forEach, List.findIdx?_cons]
      cases hp : p a with
      | true => simp
      | false =>
          simp only [Bool.false_eq_true, ↓reduceIte, ih (i + 1), Option.map_map]
          congr 2
          funext j
          simp only [Function.comp_apply]
          omega

/-! ## Loops with a state -/

/-- How a round of a loop ends. -/
inductive Round (ρ σ : Type)
  | leave (r : ρ)
  | next (s : σ)

/-- At most `n` rounds of a loop; `stuck` if it does not leave by then. -/
def loop {σ : Type} (round : σ → Except ε (Round ρ σ)) (stuck : ε) : Nat → σ → Except ε ρ
  | 0, _ => .error stuck
  | n + 1, s => do
      match ← round s with
      | .leave r => return r
      | .next s => loop round stuck n s

/-- A round leaves with a good result, or goes on in the invariant with a variant below
`bound`. -/
def RoundOk {σ : Type} (Inv : σ → Prop) (Post : ρ → Prop) (variant : σ → Nat) (bound : Nat) :
    Except ε (Round ρ σ) → Prop
  | .ok (.leave r) => Post r
  | .ok (.next s) => Inv s ∧ variant s < bound
  | .error _ => False

/-- Total correctness: if every round that starts in the invariant is all right, then enough
rounds give a good result. -/
theorem loop_ok {σ : Type} {round : σ → Except ε (Round ρ σ)} {stuck : ε} {Inv : σ → Prop}
    {Post : ρ → Prop} {variant : σ → Nat}
    (hround : ∀ s, Inv s → RoundOk Inv Post variant (variant s) (round s))
    {n : Nat} {s : σ} (hs : Inv s) (hn : variant s < n) :
    ∃ r, loop round stuck n s = .ok r ∧ Post r := by
  induction n generalizing s with
  | zero => omega
  | succ n ih =>
      have hok := hround s hs
      rw [loop]
      cases hr : round s with
      | error e =>
          rw [hr] at hok
          exact hok.elim
      | ok ending =>
          rw [hr] at hok
          cases ending with
          | leave r => exact ⟨r, rfl, hok⟩
          | next s' => exact ih hok.1 (Nat.lt_of_lt_of_le hok.2 (Nat.le_of_lt_succ hn))

/-- A round leaves with a good result, goes on in the invariant, or fails. -/
def RoundKeeps {σ : Type} (Inv : σ → Prop) (Post : ρ → Prop) : Except ε (Round ρ σ) → Prop
  | .ok (.leave r) => Post r
  | .ok (.next s) => Inv s
  | .error _ => True

/-- Partial correctness: what the loop leaves with, if it does, is good. -/
theorem loop_keeps {σ : Type} {round : σ → Except ε (Round ρ σ)} {stuck : ε} {Inv : σ → Prop}
    {Post : ρ → Prop} (hround : ∀ s, Inv s → RoundKeeps Inv Post (round s)) {n : Nat} {s : σ}
    (hs : Inv s) {r : ρ} (h : loop round stuck n s = .ok r) : Post r := by
  induction n generalizing s with
  | zero => simp [loop] at h
  | succ n ih =>
      have hkeeps := hround s hs
      obtain ⟨ending, hr, h⟩ := bind_eq_ok.1 h
      rw [hr] at hkeeps
      cases ending with
      | leave r' =>
          obtain rfl := Except.ok.inj h
          exact hkeeps
      | next s' => exact ih hkeeps h

/-! ## Loops that forget -/

variable {ρ' σ σ' : Type}

/-- The end of a round, seen through maps of results and states. -/
def Round.map (f : ρ → ρ') (g : σ → σ') : Round ρ σ → Round ρ' σ'
  | .leave r => .leave (f r)
  | .next s => .next (g s)

/-- If a loop forgets part of the state of another one, round by round, then what it leaves with
is what the other one leaves with, given at least as many rounds. -/
theorem loop_of_forget {round : σ → Except ε (Round ρ σ)} {round' : σ' → Except ε (Round ρ' σ')}
    {f : ρ → ρ'} {g : σ → σ'} {stuck : ε}
    (hround : ∀ s, (round s).map (Round.map f g) = round' (g s)) {n m : Nat} (hnm : n ≤ m) {s : σ}
    {r' : ρ'} (h : loop round' stuck n (g s) = .ok r') :
    ∃ r, loop round stuck m s = .ok r ∧ f r = r' := by
  induction n generalizing m s with
  | zero => simp [loop] at h
  | succ n ih =>
      obtain ⟨m, rfl⟩ : ∃ k, m = k + 1 := ⟨m - 1, by omega⟩
      rw [loop] at h ⊢
      rw [← hround s] at h
      cases hr : round s with
      | error e =>
          rw [hr] at h
          simp [Except.map, bind, Except.bind] at h
      | ok ending =>
          rw [hr] at h
          cases ending with
          | leave r => exact ⟨r, rfl, Except.ok.inj h⟩
          | next s' => exact ih (Nat.le_of_succ_le_succ hnm) h

end Laminar.Lib
