import Laminar.Vm.Effects

/-!
# Regions are bracketed

A thread keeps two records of being in a region, the place of `currentSRState` in
the chain and the flag `inSecureRegion`.  A start that is refused moves the place
and leaves the flag, and `endSecureRegion` looks at the flag only.  Inside a region
this goes well, because the flag is set.  Outside every region the end does nothing
and the thread stays in the dummy state.

`bracketed_iff_noOuterRefusal` says that this is the only way in which a well-nested
program loses its place.
-/

namespace Laminar.Vm

/-- A program whose starts and ends are well nested.  After a start follows one body
if it returns and another if it throws, and then the end. -/
inductive Body
  | done
  | call (c : LabelCall) (rest : Body)
  | others (commonPlus commonMinus : LabelSet) (rest : Body)
  | region (s : Start) (body handler rest : Body)

/-- The thread when other threads have changed the common capabilities. -/
def GreenThread.withCommon (th : GreenThread) (commonPlus commonMinus : LabelSet) :
    GreenThread :=
  { th with
    commonPlusCapabilitySet := commonPlus
    commonMinusCapabilitySet := commonMinus }

namespace Body

open GreenThread

/-- The thread after the program. -/
def run : Body → GreenThread → GreenThread
  | .done, th => th
  | .call c rest, th => rest.run (th.labelCall c).2
  | .others commonPlus commonMinus rest, th =>
      rest.run (th.withCommon commonPlus commonMinus)
  | .region s body handler rest, th =>
      let inner := match th.start s with
        | (.returned, th) => body.run th
        | (_, th) => handler.run th
      rest.run inner.endSecureRegion.2

/-- What should hold between a start and the matching end. -/
structure Matched (th th' : GreenThread) : Prop where
  current : th'.currentSRState.id = th.currentSRState.id
  inRegion : th'.inSecureRegion = th.inSecureRegion
  parent : th'.inSecureRegion = true ↔ th'.parents ≠ []

/-- Every region of the program is matched. -/
def Bracketed : Body → GreenThread → Prop
  | .done, _ => True
  | .call c rest, th => rest.Bracketed (th.labelCall c).2
  | .others commonPlus commonMinus rest, th =>
      rest.Bracketed (th.withCommon commonPlus commonMinus)
  | .region s body handler rest, th =>
      let inner := match th.start s with
        | (.returned, th) => body.run th
        | (_, th) => handler.run th
      (match th.start s with
        | (.returned, th) => body.Bracketed th
        | (_, th) => handler.Bracketed th) ∧
      Matched th inner.endSecureRegion.2 ∧ rest.Bracketed inner.endSecureRegion.2

/-- No start is refused while the thread is outside every region. -/
def NoOuterRefusal : Body → GreenThread → Prop
  | .done, _ => True
  | .call c rest, th => rest.NoOuterRefusal (th.labelCall c).2
  | .others commonPlus commonMinus rest, th =>
      rest.NoOuterRefusal (th.withCommon commonPlus commonMinus)
  | .region s body handler rest, th =>
      let inner := match th.start s with
        | (.returned, th) => body.run th
        | (_, th) => handler.run th
      (th.inSecureRegion = false → th.startAllowed s = true) ∧
      (match th.start s with
        | (.returned, th) => body.NoOuterRefusal th
        | (_, th) => handler.NoOuterRefusal th) ∧
      rest.NoOuterRefusal inner.endSecureRegion.2

/-! ## The end of a region -/

/-- The flag says where the thread is. -/
def Settled (th : GreenThread) : Prop := th.inSecureRegion = true ↔ th.parents ≠ []

theorem Settled.of_sameRegion {th th' : GreenThread} (hth : Settled th)
    (h : SameRegion th th') : Settled th' := by
  have hparents : th'.parents = [] ↔ th.parents = [] := by
    rw [← List.map_eq_nil_iff (f := SRState.id), h.parents, List.map_eq_nil_iff]
  rw [Settled, h.inRegion, Ne, hparents]
  exact hth

/-- An end returns from a child to where the start was made. -/
theorem endSecureRegion_sameRegion {th child th' : GreenThread} (hth : Settled th)
    (hparents : child.parents = th.currentSRState :: th.parents)
    (hin : child.inSecureRegion = true) (h : SameRegion child th') :
    SameRegion th th'.endSecureRegion.2 := by
  have hmap := h.parents
  rw [hparents, List.map_cons] at hmap
  obtain ⟨parent, above, hth', hparent, habove⟩ := List.map_eq_cons_iff.1 hmap
  have hin' : th'.inSecureRegion = true := h.inRegion.trans hin
  rw [endSecureRegion, hth']
  simp only [hin', Bool.not_true, Bool.false_eq_true, ↓reduceIte]
  refine ⟨hparent, habove, ?_⟩
  have hempty : above = [] ↔ th.parents = [] := by
    rw [← List.map_eq_nil_iff (f := SRState.id), habove, List.map_eq_nil_iff]
  rw [Bool.eq_iff_iff, show _ ↔ _ from hth, Ne, ← hempty, Bool.not_eq_true',
    List.isEmpty_eq_false_iff]

theorem length_parents_endSecureRegion (th : GreenThread) :
    th.parents.length ≤ th.endSecureRegion.2.parents.length + 1 := by
  unfold endSecureRegion
  split
  · exact Nat.le_succ _
  split
  · exact Nat.le_succ _
  · rename_i parent above hparents
    rw [hparents]
    exact Nat.le_refl _

/-! ## Programs -/

/-- The body that follows a start. -/
def follows (th : GreenThread) (s : Start) (body handler : Body) : Body :=
  match (th.start s).1 with
  | .returned => body
  | _ => handler

section Region

variable (th : GreenThread) (s : Start) (body handler rest : Body)

theorem follows_cases : follows th s body handler = body ∨ follows th s body handler = handler := by
  unfold follows
  split
  · exact Or.inl rfl
  · exact Or.inr rfl

/-- The thread after one region. -/
def afterRegion : GreenThread :=
  ((follows th s body handler).run (th.start s).2).endSecureRegion.2

theorem run_region :
    (region s body handler rest).run th = rest.run (afterRegion th s body handler) := by
  rw [run, afterRegion, follows]
  rcases hstart : th.start s with ⟨outcome, th'⟩
  cases outcome <;> rfl

theorem bracketed_region :
    (region s body handler rest).Bracketed th ↔
      (follows th s body handler).Bracketed (th.start s).2 ∧
        Matched th (afterRegion th s body handler) ∧
        rest.Bracketed (afterRegion th s body handler) := by
  rw [Bracketed, afterRegion, follows]
  rcases hstart : th.start s with ⟨outcome, th'⟩
  cases outcome <;> rfl

theorem noOuterRefusal_region :
    (region s body handler rest).NoOuterRefusal th ↔
      (th.inSecureRegion = false → th.startAllowed s = true) ∧
        (follows th s body handler).NoOuterRefusal (th.start s).2 ∧
        rest.NoOuterRefusal (afterRegion th s body handler) := by
  rw [NoOuterRefusal, afterRegion, follows]
  rcases hstart : th.start s with ⟨outcome, th'⟩
  cases outcome <;> rfl

end Region

theorem parents_start (th : GreenThread) (s : Start) :
    (th.start s).2.parents = th.currentSRState :: th.parents := by
  cases hs : th.startAllowed s with
  | true =>
      rw [start_allowed hs]
      exact parents_enterChild th _
  | false =>
      obtain ⟨error, hstart⟩ := start_refused hs
      rw [hstart]
      exact parents_enterChild th _

theorem inSecureRegion_start (th : GreenThread) (s : Start) :
    (th.start s).2.inSecureRegion = (th.startAllowed s || th.inSecureRegion) := by
  cases hs : th.startAllowed s with
  | true => rw [start_allowed hs, Bool.true_or]
  | false =>
      obtain ⟨error, hstart⟩ := start_refused hs
      rw [hstart, Bool.false_or]
      exact inSecureRegion_enterChild th _

/-- A thread never ends a program above where it started. -/
theorem length_parents_run (b : Body) (th : GreenThread) :
    th.parents.length ≤ (b.run th).parents.length := by
  induction b generalizing th with
  | done => exact Nat.le_refl _
  | call c rest ih =>
      have hsame := congrArg List.length (labelCall_sameRegion th c).parents
      rw [List.length_map, List.length_map] at hsame
      exact hsame ▸ ih _
  | others commonPlus commonMinus rest ih => exact ih (th.withCommon commonPlus commonMinus)
  | region s body handler rest ihBody ihHandler ihRest =>
      rw [run_region]
      refine Nat.le_trans ?_ (ihRest _)
      have hinner : (th.start s).2.parents.length ≤
          ((follows th s body handler).run (th.start s).2).parents.length := by
        rcases follows_cases th s body handler with h | h <;> rw [h]
        · exact ihBody _
        · exact ihHandler _
      have hend := length_parents_endSecureRegion
        ((follows th s body handler).run (th.start s).2)
      rw [parents_start, List.length_cons] at hinner
      rw [afterRegion]
      omega

/-- A settled thread returns to its region, and every region on the way is matched,
unless a start is refused outside. -/
theorem bracketed_of_noOuterRefusal (b : Body) (th : GreenThread) (hth : Settled th)
    (h : b.NoOuterRefusal th) : b.Bracketed th ∧ SameRegion th (b.run th) := by
  induction b generalizing th with
  | done => exact ⟨trivial, .refl th⟩
  | call c rest ih =>
      have hsame := labelCall_sameRegion th c
      obtain ⟨hb, hrun⟩ := ih _ (hth.of_sameRegion hsame) h
      exact ⟨hb, hsame.trans hrun⟩
  | others commonPlus commonMinus rest ih =>
      obtain ⟨hb, hrun⟩ := ih (th.withCommon commonPlus commonMinus) hth h
      exact ⟨hb, ⟨hrun.current, hrun.parents, hrun.inRegion⟩⟩
  | region s body handler rest ihBody ihHandler ihRest =>
      rw [noOuterRefusal_region] at h
      obtain ⟨houter, hinner, hrest⟩ := h
      have hin : (th.start s).2.inSecureRegion = true := by
        rw [inSecureRegion_start]
        cases hflag : th.inSecureRegion with
        | true => exact Bool.or_true _
        | false => rw [houter hflag, Bool.true_or]
      have hchild : Settled (th.start s).2 := by
        rw [Settled, hin, parents_start]
        simp
      have hbody : (follows th s body handler).Bracketed (th.start s).2 ∧
          SameRegion (th.start s).2 ((follows th s body handler).run (th.start s).2) := by
        rcases follows_cases th s body handler with hf | hf <;> rw [hf] at hinner ⊢
        · exact ihBody _ hchild hinner
        · exact ihHandler _ hchild hinner
      have hsame : SameRegion th (afterRegion th s body handler) :=
        endSecureRegion_sameRegion hth (parents_start th s) hin hbody.2
      have hsettled := hth.of_sameRegion hsame
      obtain ⟨hb, hrun⟩ := ihRest _ hsettled hrest
      rw [bracketed_region, run_region]
      exact ⟨⟨hbody.1, ⟨hsame.current, hsame.inRegion, hsettled⟩, hb⟩, hsame.trans hrun⟩

/-- Below the thread's own state with the flag unset, no region is matched, so a
program all of whose regions are matched has none and the thread stays there. -/
theorem adrift_run (b : Body) (th : GreenThread) (hflag : th.inSecureRegion = false)
    (hparents : th.parents ≠ []) (h : b.Bracketed th) :
    (b.run th).inSecureRegion = false ∧ (b.run th).parents ≠ [] := by
  induction b generalizing th with
  | done => exact ⟨hflag, hparents⟩
  | call c rest ih =>
      have hsame := labelCall_sameRegion th c
      refine ih _ (hsame.inRegion.trans hflag) (fun hnil => hparents ?_) h
      rw [← List.map_eq_nil_iff (f := SRState.id), ← hsame.parents, hnil]
      rfl
  | others commonPlus commonMinus rest ih =>
      exact ih (th.withCommon commonPlus commonMinus) hflag hparents h
  | region s body handler rest ihBody ihHandler ihRest =>
      obtain ⟨-, hmatched, -⟩ := (bracketed_region th s body handler rest).1 h
      have hlen := length_parents_run (region s body handler .done) th
      rw [run_region, run] at hlen
      have hpos := List.length_pos_iff.2 hparents
      have htrue := hmatched.parent.2 (List.length_pos_iff.1 (by omega))
      rw [hmatched.inRegion, hflag] at htrue
      simp at htrue

theorem noOuterRefusal_of_bracketed (b : Body) (th : GreenThread) (hth : Settled th)
    (h : b.Bracketed th) : b.NoOuterRefusal th := by
  induction b generalizing th with
  | done => trivial
  | call c rest ih => exact ih _ (hth.of_sameRegion (labelCall_sameRegion th c)) h
  | others commonPlus commonMinus rest ih =>
      exact ih (th.withCommon commonPlus commonMinus) hth h
  | region s body handler rest ihBody ihHandler ihRest =>
      obtain ⟨hinner, hmatched, hrest⟩ := (bracketed_region th s body handler rest).1 h
      have hin : (th.start s).2.inSecureRegion = true := by
        refine Classical.byContradiction fun hflag => ?_
        rw [Bool.not_eq_true] at hflag
        -- the start was refused outside: the end does nothing
        obtain ⟨hflag', hparents'⟩ := adrift_run _ _ hflag (by simp [parents_start]) hinner
        have hend : afterRegion th s body handler =
            (follows th s body handler).run (th.start s).2 := by
          rw [afterRegion, endSecureRegion, hflag']
          rfl
        have htrue := hmatched.parent.2 (hend ▸ hparents')
        rw [hend, hflag'] at htrue
        simp at htrue
      have hchild : Settled (th.start s).2 := by
        rw [Settled, hin, parents_start]
        simp
      rw [noOuterRefusal_region]
      refine ⟨fun hflag => ?_, ?_, ihRest _ hmatched.parent hrest⟩
      · rw [inSecureRegion_start, hflag, Bool.or_false] at hin
        exact hin
      · rcases follows_cases th s body handler with hf | hf <;> rw [hf] at hinner ⊢
        · exact ihBody _ hchild hinner
        · exact ihHandler _ hchild hinner

/-- From a thread outside every region a well-nested program has all its regions
matched if and only if no start is refused while the thread is outside every
region. -/
theorem bracketed_iff_noOuterRefusal (b : Body) (th : GreenThread)
    (hflag : th.inSecureRegion = false) (hparents : th.parents = []) :
    b.Bracketed th ↔ b.NoOuterRefusal th := by
  have hth : Settled th := by
    rw [Settled, hflag, hparents]
    simp
  exact ⟨noOuterRefusal_of_bracketed b th hth, fun h => (bracketed_of_noOuterRefusal b th hth h).1⟩

/-- With the plus capability of label 5 the thread starts a region, inside which a
start with label 7 is refused.  Both regions are matched. -/
theorem bracketed_inner_refusal :
    ∃ b : Body, b = .call (.initializeThreadCapability (.getLabelSet 5) plusCapability)
        (.region (.startSecureRegion (some (.getLabelSet 5)) none)
          (.region (.startSecureRegion (some (.getLabelSet 7)) none) .done .done .done)
          .done .done) ∧
      b.Bracketed GreenThread.new := by
  refine ⟨_, rfl, (bracketed_iff_noOuterRefusal _ _ rfl rfl).2 ?_⟩
  rw [NoOuterRefusal, noOuterRefusal_region]
  refine ⟨fun _ => by decide +kernel, ?_, trivial⟩
  rcases follows_cases _ _ _ _ with h | h <;> rw [h]
  · rw [noOuterRefusal_region]
    refine ⟨fun hflag => absurd hflag (by decide +kernel), ?_, trivial⟩
    rcases follows_cases _ _ _ _ with h | h <;> rw [h] <;> trivial
  · trivial

/-- A new thread asks for a region with label 7, which is refused, and ends it.  It
stays in the dummy state, a child of the state it started from. -/
theorem refused_start_not_bracketed :
    ∃ b : Body, b = .region (.startSecureRegion (some (.getLabelSet 7)) none) .done .done .done ∧
      (b.run GreenThread.new).currentSRState.id ≠ GreenThread.new.currentSRState.id ∧
      (b.run GreenThread.new).inSecureRegion = false ∧
      (b.run GreenThread.new).parents.length = 1 ∧ ¬ b.Bracketed GreenThread.new := by
  refine ⟨_, rfl, by decide +kernel, by decide +kernel, by decide +kernel, fun h => ?_⟩
  exact absurd h.2.1.current (by decide +kernel)

end Body

end Laminar.Vm
