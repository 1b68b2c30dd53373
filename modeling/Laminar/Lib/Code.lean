import Laminar.Lib.Outcome

/-!
# Code with jumps, and simulations by it

A deterministic machine is a fallible step function; `steps f n` makes `n` steps.  An error
ends the run, and whatever is to be known of the end is in the error.  `Leads f x P` says that
some number of steps, at least one, gives a result with the property `P`.

If every step of a machine `g` is matched by one or more steps of `f`, then `f` reaches what `g`
reaches (`exists_steps_of_sim`), and every state of `f` is on its way to one that matches a
state of `g` (`exists_steps_of_sim_back`).  The two stop with the same errors
(`stops_iff_of_sim`).

The second part is about machine code: labelled lists of instructions with jumps inside a list
and to labels.  `forward` says what a piece of code without jumps back computes.
-/

namespace Laminar.Lib.Code

variable {α β ε : Type}

/-! ## Runs of a deterministic machine -/

/-- Make `n` steps. -/
def steps (f : α → Except ε α) : Nat → α → Except ε α
  | 0, x => .ok x
  | n + 1, x => f x >>= steps f n

theorem steps_succ (f : α → Except ε α) (n : Nat) (x : α) :
    steps f (n + 1) x = f x >>= steps f n := rfl

theorem steps_one (f : α → Except ε α) (x : α) : steps f 1 x = f x := by
  rw [steps_succ]
  cases f x with
  | error e => rfl
  | ok y => rfl

theorem steps_add (f : α → Except ε α) (n k : Nat) (x : α) :
    steps f (n + k) x = steps f n x >>= steps f k := by
  induction n generalizing x with
  | zero => rw [Nat.zero_add, steps, ok_bind]
  | succ n ih =>
      rw [Nat.succ_add, steps_succ, steps_succ]
      cases f x with
      | error e => rfl
      | ok y => exact ih y

theorem steps_add_of_ok {f : α → Except ε α} {n : Nat} {x y : α} (h : steps f n x = .ok y)
    (k : Nat) : steps f (n + k) x = steps f k y := by
  rw [steps_add, h, ok_bind]

theorem steps_add_of_error {f : α → Except ε α} {n : Nat} {x : α} {e : ε}
    (h : steps f n x = .error e) (k : Nat) : steps f (n + k) x = .error e := by
  rw [steps_add, h]
  rfl

/-- What every step relates to its state, a run relates to each of its results. -/
theorem steps_related {f : α → Except ε α} {r : Except ε α → Except ε α → Prop}
    (hrefl : ∀ x, r x x) (htrans : ∀ x y z, r x y → r y z → r x z)
    (hstep : ∀ x, r (.ok x) (f x)) (n k : Nat) (x : α) :
    r (steps f n x) (steps f (n + k) x) := by
  induction k with
  | zero => exact hrefl _
  | succ k ih =>
      refine htrans _ _ _ ih ?_
      rw [← Nat.add_assoc, steps_add f (n + k) 1]
      cases steps f (n + k) x with
      | error e => exact hrefl _
      | ok y =>
          rw [ok_bind, steps_one]
          exact hstep y

/-- A property that every step of a run keeps. -/
theorem post_steps {f : α → Except ε α} {E : ε → Prop} {Q : α → Prop}
    (hstep : ∀ x, Q x → Post E Q (f x)) (n : Nat) {x : α} (hx : Q x) :
    Post E Q (steps f n x) := by
  induction n generalizing x with
  | zero => exact hx
  | succ n ih => exact (hstep x hx).bind fun y hy => ih hy

/-- Two machines whose steps mirror each other. -/
theorem mirrors_steps {f : α → Except ε α} {g : β → Except ε β} {Excused : ε → Prop}
    {viewError : ε → ε} {view : α → β}
    (hstep : ∀ x, Mirrors Excused viewError view (f x) (g (view x))) (n : Nat) (x : α) :
    Mirrors Excused viewError view (steps f n x) (steps g n (view x)) := by
  induction n generalizing x with
  | zero => rfl
  | succ n ih => exact (hstep x).bind ih

/-- Some steps, at least one, give a result with `P`. -/
def Leads (f : α → Except ε α) (x : α) (P : Except ε α → Prop) : Prop :=
  ∃ n, P (steps f (n + 1) x)

section Leads

variable {f : α → Except ε α} {P : Except ε α → Prop} {x y : α}

theorem leads_of_step (h : f x = .ok y) (hy : Leads f y P) : Leads f x P := by
  obtain ⟨n, hn⟩ := hy
  exact ⟨n + 1, by rwa [steps_succ, h, ok_bind]⟩

theorem leads_of_last (h : P (f x)) : Leads f x P := ⟨0, by rwa [steps_one]⟩

end Leads

/-! ## Simulations -/

/-- Results that match: states in the relation, or the same error. -/
def Lifts (R : β → α → Prop) : Except ε β → Except ε α → Prop
  | .ok b, .ok a => R b a
  | .error e, .error e' => e = e'
  | _, _ => False

theorem lifts_map {γ : Type} {R : β → α → Prop} (f : γ → β) (x : Except ε γ) (y : Except ε α) :
    Lifts R (x.map f) y ↔ Lifts (fun c a => R (f c) a) x y := by
  cases x <;> cases y <;> rfl

theorem Lifts.mono {R S : β → α → Prop} {x : Except ε β} {y : Except ε α} (h : Lifts R x y)
    (hRS : ∀ b a, x = .ok b → R b a → S b a) : Lifts S x y := by
  cases x with
  | error e =>
      cases y with
      | error e' => exact h
      | ok a => exact h
  | ok b =>
      cases y with
      | error e => exact h
      | ok a => exact hRS b a rfl h

section Simulation

variable {f : α → Except ε α} {g : β → Except ε β} {R : β → α → Prop}

/-- `f` reaches what `g` reaches. -/
theorem exists_steps_of_sim (hsim : ∀ b a, R b a → Leads f a (Lifts R (g b))) {b : β} {a : α}
    (h : R b a) (n : Nat) : ∃ k, Lifts R (steps g n b) (steps f k a) := by
  induction n generalizing b a with
  | zero => exact ⟨0, h⟩
  | succ n ih =>
      obtain ⟨k, hk⟩ := hsim b a h
      rw [steps_succ]
      cases hb : g b with
      | error e =>
          rw [hb] at hk
          exact ⟨k + 1, hk⟩
      | ok b' =>
          rw [hb] at hk
          cases ha : steps f (k + 1) a with
          | error e =>
              rw [ha] at hk
              exact hk.elim
          | ok a' =>
              rw [ha] at hk
              obtain ⟨j, hj⟩ := ih hk
              exact ⟨k + 1 + j, by rwa [steps_add_of_ok ha]⟩

/-- Every state of `f` is on its way to one that matches a state of `g`, or to the error in which
`g` ends. -/
theorem exists_steps_of_sim_back (hsim : ∀ b a, R b a → Leads f a (Lifts R (g b))) {b : β}
    {a : α} (h : R b a) (n : Nat) :
    ∃ k j, Lifts R (steps g k b) (steps f (n + j) a) := by
  induction n using Nat.strongRecOn generalizing b a with
  | _ n ih =>
      obtain ⟨k, hk⟩ := hsim b a h
      by_cases hle : n ≤ k + 1
      · -- the state is one of those between two matches
        refine ⟨1, k + 1 - n, ?_⟩
        rwa [steps_one, Nat.add_sub_cancel' hle]
      · obtain ⟨n', rfl⟩ : ∃ n', n = k + 1 + n' := ⟨n - (k + 1), by omega⟩
        cases hb : g b with
        | error e =>
            rw [hb] at hk
            cases ha : steps f (k + 1) a with
            | ok a' =>
                rw [ha] at hk
                exact hk.elim
            | error e' =>
                rw [ha] at hk
                refine ⟨1, 0, ?_⟩
                rw [steps_one, hb, Nat.add_zero, steps_add_of_error ha]
                exact hk
        | ok b' =>
            rw [hb] at hk
            cases ha : steps f (k + 1) a with
            | error e =>
                rw [ha] at hk
                exact hk.elim
            | ok a' =>
                rw [ha] at hk
                obtain ⟨i, j, hij⟩ := ih n' (by omega) hk
                refine ⟨i + 1, j, ?_⟩
                rw [steps_succ, hb, ok_bind, Nat.add_assoc, steps_add_of_ok ha]
                exact hij

/-- The two machines stop with the same errors. -/
theorem stops_iff_of_sim (hsim : ∀ b a, R b a → Leads f a (Lifts R (g b))) {b : β} {a : α}
    (h : R b a) (e : ε) :
    (∃ n, steps f n a = .error e) ↔ ∃ k, steps g k b = .error e := by
  constructor
  · rintro ⟨n, hn⟩
    obtain ⟨k, j, hkj⟩ := exists_steps_of_sim_back hsim h n
    rw [steps_add_of_error hn] at hkj
    refine ⟨k, ?_⟩
    cases hb : steps g k b with
    | ok b' =>
        rw [hb] at hkj
        exact hkj.elim
    | error e' =>
        rw [hb] at hkj
        exact congrArg Except.error hkj
  · rintro ⟨k, hk⟩
    obtain ⟨n, hn⟩ := exists_steps_of_sim hsim h k
    rw [hk] at hn
    refine ⟨n, ?_⟩
    cases ha : steps f n a with
    | ok a' =>
        rw [ha] at hn
        exact hn.elim
    | error e' =>
        rw [ha] at hn
        exact congrArg Except.error hn.symm

end Simulation

/-! ## Machine code -/

/-- An instruction: an operation, a jump over the next `n` instructions, a jump to the
instruction `n` before, or a jump to a label. -/
inductive Instr (ω κ : Type)
  | op (o : ω)
  | skipIf (c : κ) (n : Nat)
  | back (n : Nat)
  | goto (l : Nat)
  | gotoIf (c : κ) (l : Nat)

/-- What the operations do, and when the conditions hold. -/
structure Machine (ω κ σ ε : Type) where
  run : ω → σ → Except ε σ
  holds : κ → σ → Bool

/-- A state at an instruction. -/
structure Place (σ : Type) where
  label : Nat
  index : Nat
  state : σ

section Machine

variable {ω κ σ : Type} (m : Machine ω κ σ ε) (code : Nat → List (Instr ω κ))

/-- Perform an instruction. -/
def Instr.exec (x : Place σ) : Instr ω κ → Except ε (Place σ)
  | .op o => (m.run o x.state).map (⟨x.label, x.index + 1, ·⟩)
  | .skipIf c n => .ok ⟨x.label, x.index + 1 + (if m.holds c x.state then n else 0), x.state⟩
  | .back n => .ok ⟨x.label, x.index - n, x.state⟩
  | .goto l => .ok ⟨l, 0, x.state⟩
  | .gotoIf c l =>
      .ok (if m.holds c x.state then ⟨l, 0, x.state⟩ else ⟨x.label, x.index + 1, x.state⟩)

/-- The next instruction; behind the last one of a label comes the next label. -/
def step (x : Place σ) : Except ε (Place σ) :=
  match (code x.label)[x.index]? with
  | none => .ok ⟨x.label + 1, 0, x.state⟩
  | some i => i.exec m x

/-- How a piece of code is left: behind its end by a number of instructions, to a label, or by
a jump back. -/
inductive Exit
  | skip (n : Nat)
  | label (l : Nat)
  | back

/-- The label that comes after the code of the label `l`. -/
def Exit.next (l : Nat) : Exit → Option Nat
  | .skip _ => some (l + 1)
  | .label l' => some l'
  | .back => none

/-- What a piece of code computes; the first `n` instructions are jumped over. -/
def forward : Nat → List (Instr ω κ) → σ → Except ε (Exit × σ)
  | n, [], s => .ok (.skip n, s)
  | n + 1, _ :: is, s => forward n is s
  | 0, .op o :: is, s => m.run o s >>= forward 0 is
  | 0, .skipIf c n :: is, s => if m.holds c s then forward n is s else forward 0 is s
  | 0, .back _ :: _, s => .ok (.back, s)
  | 0, .goto l :: _, s => .ok (.label l, s)
  | 0, .gotoIf c l :: is, s => if m.holds c s then .ok (.label l, s) else forward 0 is s

/-- What has to be shown of the result of a piece of code that ends at `k`. -/
def After (l k : Nat) (P : Except ε (Place σ) → Prop) : Except ε (Exit × σ) → Prop
  | .error e => P (.error e)
  | .ok (.skip n, s) => Leads (step m code) ⟨l, k + n, s⟩ P
  | .ok (.label l', s) => P (.ok ⟨l', 0, s⟩)
  | .ok (.back, _) => False

variable {m code}

section Simp

variable (n : Nat) (i : Instr ω κ) (is : List (Instr ω κ)) (s : σ) (o : ω) (c : κ) (l : Nat)

@[simp] theorem forward_nil : forward m n [] s = .ok (.skip n, s) := by
  cases n <;> rfl

@[simp] theorem forward_succ : forward m (n + 1) (i :: is) s = forward m n is s := rfl

@[simp] theorem forward_op : forward m 0 (.op o :: is) s = m.run o s >>= forward m 0 is := by
  rw [forward]

@[simp] theorem forward_skipIf : forward m 0 (.skipIf c n :: is) s =
    if m.holds c s then forward m n is s else forward m 0 is s := by
  rw [forward]

@[simp] theorem forward_goto : forward m 0 (.goto l :: is) s = .ok (.label l, s) := rfl

@[simp] theorem forward_gotoIf : forward m 0 (.gotoIf c l :: is) s =
    if m.holds c s then .ok (.label l, s) else forward m 0 is s := by
  rw [forward]

end Simp

/-- One piece of code after the other. -/
theorem forward_append (n : Nat) (is js : List (Instr ω κ)) (s : σ) :
    forward m n (is ++ js) s = forward m n is s >>= fun r =>
      match r.1 with
      | .skip k => forward m k js r.2
      | .label l => .ok (.label l, r.2)
      | .back => .ok (.back, r.2) := by
  induction is generalizing n s with
  | nil =>
      rw [List.nil_append, forward_nil]
      rfl
  | cons i is ih =>
      cases n with
      | succ n => exact ih n s
      | zero =>
          cases i with
          | op o =>
              show m.run o s >>= forward m 0 (is ++ js) = (m.run o s >>= forward m 0 is) >>= _
              cases m.run o s with
              | error e => rfl
              | ok s' => exact ih 0 s'
          | skipIf c k =>
              show (if m.holds c s then forward m k (is ++ js) s else forward m 0 (is ++ js) s) =
                (if m.holds c s then forward m k is s else forward m 0 is s) >>= _
              split
              · exact ih k s
              · exact ih 0 s
          | back k => rfl
          | goto l => rfl
          | gotoIf c l =>
              show (if m.holds c s then _ else forward m 0 (is ++ js) s) =
                (if m.holds c s then _ else forward m 0 is s) >>= _
              split
              · rfl
              · exact ih 0 s

section Leads

variable {l k n : Nat} {s : σ} {seg rest : List (Instr ω κ)} {P : Except ε (Place σ) → Prop}

theorem step_of_drop {i : Instr ω κ} (hcode : (code l).drop k = i :: rest) :
    step m code ⟨l, k, s⟩ = i.exec m ⟨l, k, s⟩ := by
  have hi : (code l)[k]? = some i := by
    rw [← List.head?_drop, hcode]
    rfl
  simp only [step, hi]

theorem drop_succ_of_drop {i : Instr ω κ} (hcode : (code l).drop k = i :: rest) :
    (code l).drop (k + 1) = rest := by
  rw [← List.drop_drop, hcode]
  rfl

/-- A piece of code leads where `forward` says. -/
theorem leads_of_forward (hcode : (code l).drop k = seg ++ rest)
    (h : After m code l (k + seg.length) P (forward m n seg s)) :
    Leads (step m code) ⟨l, k + n, s⟩ P := by
  induction seg generalizing k n s with
  | nil =>
      rw [forward_nil] at h
      exact h
  | cons i is ih =>
      have hnext := drop_succ_of_drop hcode
      have hlen : k + (i :: is).length = k + 1 + is.length := by
        rw [List.length_cons]
        omega
      rw [hlen] at h
      cases n with
      | succ n =>
          have hih := ih hnext h
          rwa [Nat.add_assoc, Nat.add_comm 1 n] at hih
      | zero =>
          have hstep : step m code ⟨l, k, s⟩ = i.exec m ⟨l, k, s⟩ := step_of_drop hcode
          cases i with
          | op o =>
              rw [forward_op] at h
              cases hrun : m.run o s with
              | error e =>
                  rw [hrun] at h
                  refine leads_of_last ?_
                  rw [Nat.add_zero, hstep, Instr.exec, hrun]
                  exact h
              | ok s' =>
                  rw [hrun, ok_bind] at h
                  refine leads_of_step ?_ (ih (n := 0) hnext h)
                  rw [Nat.add_zero, hstep, Instr.exec, hrun]
                  rfl
          | skipIf c j =>
              refine leads_of_step hstep (ih hnext ?_)
              rw [forward_skipIf] at h
              split
              · rwa [if_pos ‹_›] at h
              · rwa [if_neg ‹_›] at h
          | back j => exact h.elim
          | goto l' =>
              refine leads_of_last ?_
              rw [Nat.add_zero, hstep]
              exact h
          | gotoIf c l' =>
              rw [forward_gotoIf] at h
              cases hc : m.holds c s with
              | true =>
                  rw [hc, if_pos rfl] at h
                  refine leads_of_last ?_
                  rw [Nat.add_zero, hstep, Instr.exec, hc, if_pos rfl]
                  exact h
              | false =>
                  rw [hc, if_neg Bool.false_ne_true] at h
                  refine leads_of_step ?_ (ih (n := 0) hnext h)
                  rw [Nat.add_zero, hstep, Instr.exec, hc, if_neg Bool.false_ne_true]

/-- Behind the code of a label comes the next label. -/
theorem leads_of_end (hcode : (code l).length ≤ k) (h : P (.ok ⟨l + 1, 0, s⟩)) :
    Leads (step m code) ⟨l, k, s⟩ P := by
  refine leads_of_last ?_
  rw [step, List.getElem?_eq_none hcode]
  exact h

/-- A jump back inside the code of a label. -/
theorem leads_of_back (hcode : (code l).drop k = .back n :: rest)
    (h : Leads (step m code) ⟨l, k - n, s⟩ P) : Leads (step m code) ⟨l, k, s⟩ P := by
  exact leads_of_step (step_of_drop hcode) h

/-- The code of a label from `k` on, if it has no jump back, leads to the next place that
`forward` names. -/
theorem leads_label (hcode : (code l).drop k = seg)
    (h : match forward m 0 seg s with
      | .error e => P (.error e)
      | .ok (r, s') => ∃ l', r.next l = some l' ∧ P (.ok ⟨l', 0, s'⟩)) :
    Leads (step m code) ⟨l, k, s⟩ P := by
  have hseg : (code l).drop k = seg ++ [] := by rw [hcode, List.append_nil]
  refine leads_of_forward (n := 0) hseg ?_
  have hend : (code l).length ≤ k + seg.length := by
    rw [← hcode, List.length_drop]
    omega
  cases hf : forward m 0 seg s with
  | error e =>
      rw [hf] at h
      exact h
  | ok r =>
      rw [hf] at h
      obtain ⟨l', hl', hP⟩ := h
      obtain ⟨exit, s'⟩ := r
      cases exit with
      | skip j =>
          obtain rfl := Option.some.inj hl'
          exact leads_of_end (by omega) hP
      | label l'' =>
          obtain rfl := Option.some.inj hl'
          exact hP
      | back => cases hl'

end Leads

end Machine

end Laminar.Lib.Code
