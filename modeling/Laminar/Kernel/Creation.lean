import Laminar.Kernel.InBounds
import Laminar.Kernel.Permission

/-!
# Labeled creation

`difc_inode_init_security` takes the label of the creating task for a new inode, or a requested
label under the rule its comment states: task label <= lbl <= task capabilities.  The rule is the
conjunction of two checks.  `check_allowed` gives the first inequality.  `check_label_replace`
gives the second: root leaves its loop over the new integrity labels at the first `LABEL_TCB`, but
the labels behind it are labels of the task by the first check, and ask for no capability.
-/

namespace Laminar.Kernel

open Laminar.Lib

/-- task label <= lbl <= task capabilities. -/
structure Between (tsec : TaskSecurityStruct) (lbl : LabelStruct) : Prop where
  secrecy : ∀ l ∈ tsec.label.secList.entries, l ∈ lbl.secList.entries
  integrity : ∀ l ∈ lbl.intList.entries, l ∈ tsec.label.intList.entries
  plus : ∀ l ∈ lbl.secList.entries, l ∉ tsec.label.secList.entries → Holds tsec.capList l .plus
  minus : ∀ l ∈ tsec.label.intList.entries, l ∉ lbl.intList.entries → Holds tsec.capList l .minus

section Rule

variable {current : Task} {tsec : TaskSecurityStruct}

/-- A change the task is authorised to make is covered by an entry of its list. -/
theorem Authorised.holds (hsec : current.security = some tsec) {other : LabelList} {s : Sign}
    {l : LabelT} (h : Authorised current other s l) (hmem : l ∉ other.entries) :
    Holds tsec.capList l s := by
  obtain ⟨tsec', hsec', hholds⟩ := permits_holds (h.resolve_left hmem)
  obtain rfl := Option.some.inj (hsec.symm.trans hsec')
  exact hholds

/-- The two checks together. -/
theorem ReplaceAllowed.between (hsec : current.security = some tsec) {lbl : LabelStruct}
    (hflows : Flows tsec.label lbl) (h : ReplaceAllowed current tsec.label lbl) :
    Between tsec lbl where
  secrecy := hflows.1
  integrity := hflows.2
  plus l hl hnew := (h.secAdds l hl).2.holds hsec hnew
  minus l hl hgone := (h.intRemoves l hl).holds hsec hgone

/-- The task's own label is within the rule. -/
theorem Between.self (tsec : TaskSecurityStruct) : Between tsec tsec.label where
  secrecy _ hl := hl
  integrity _ hl := hl
  plus _ hl hnew := absurd hl hnew
  minus _ hl hgone := absurd hl hgone

/-- On labels whose counts fit the label of a new inode is decided, and one that is accepted is
within the rule. -/
theorem newInodeLabel_spec (hsec : current.security = some tsec) (hb : tsec.label.Bounded)
    {lbl : Option LabelStruct} (hlbl : BoundedPtr lbl) :
    ∃ accepted, newInodeLabel current tsec lbl = .ok accepted ∧
      ∀ label, accepted = some label →
        label = lbl.getD tsec.label ∧ label.Bounded ∧ Between tsec label := by
  cases lbl with
  | none =>
      refine ⟨some tsec.label, rfl, fun label h => ?_⟩
      obtain rfl := Option.some.inj h
      exact ⟨rfl, hb, .self tsec⟩
  | some input =>
      have hinput := hlbl input rfl
      obtain ⟨b, hcheck, hallowed⟩ := checkLabelReplace_spec current hb hinput
      refine ⟨_, bind_eq_ok.2 ⟨_, checkAllowed_eq hb hinput, bind_eq_ok.2 ⟨b, hcheck, rfl⟩⟩,
        fun label h => ?_⟩
      obtain ⟨⟨ha, hb0⟩, h⟩ := Option.ite_none_right_eq_some.1 h
      obtain rfl := Option.some.inj h
      have hflows : Flows tsec.label input := by
        by_cases hflows : Flows tsec.label input
        · exact hflows
        · rw [if_neg hflows] at ha
          exact absurd ha (by decide)
      exact ⟨rfl, hinput, (hallowed.1 hb0).between hsec hflows⟩

end Rule

/-! ## The hook -/

/-- With a decision on the label the hook returns: `-EPERM` for a refused label, which is not
stored, and something else once the label is stored. -/
theorem difcInodeInitSecurity_returns {current : Task} {tsec : TaskSecurityStruct}
    (hsec : current.security = some tsec) {lbl accepted : Option LabelStruct}
    (hnew : newInodeLabel current tsec lbl = .ok accepted) (hb : BoundedPtr accepted)
    (isec : ObjectSecurityStruct) (req : XattrRequest) :
    ∃ n out value, difcInodeInitSecurity current (some isec) lbl req = .ok (n, some out, value) ∧
      (accepted = none ∧ n = -ePerm ∧ out = isec ∨
        ∃ label, accepted = some label ∧ n ≠ -ePerm ∧ out = { isec with label := label }) := by
  unfold difcInodeInitSecurity
  rw [hsec]
  dsimp only [bind, Except.bind]
  rw [hnew]
  cases accepted with
  | none => exact ⟨-ePerm, isec, none, rfl, Or.inl ⟨rfl, rfl, rfl⟩⟩
  | some label =>
      dsimp only
      split
      · exact ⟨_, _, _, rfl, Or.inr ⟨label, rfl, by decide, rfl⟩⟩
      split
      · exact ⟨_, _, _, rfl, Or.inr ⟨label, rfl, by decide, rfl⟩⟩
      split
      · exact ⟨_, _, _, rfl, Or.inr ⟨label, rfl, by decide, rfl⟩⟩
      split
      · obtain ⟨packed, hpack⟩ := packDifcInodeXattr_returns (hb label rfl)
        rw [hpack]
        exact ⟨_, _, _, rfl, Or.inr ⟨label, rfl, by decide, rfl⟩⟩
      · exact ⟨_, _, _, rfl, Or.inr ⟨label, rfl, by decide, rfl⟩⟩

/-- Who may read an inode within the rule has the secrecy labels of the task. -/
theorem Between.reader {tsec : TaskSecurityStruct} {oss : ObjectSecurityStruct}
    (h : Between tsec oss.label) (hb : oss.label.Bounded) {reader : Task} {rlbl : LabelStruct}
    (hreader : HasLabel reader rlbl) {mask : BitVec 32} (hmask : AsksRead mask)
    (hread : difcInodePermission reader (some oss) mask = .ok 0) :
    ∀ l ∈ tsec.label.secList.entries, l ∈ rlbl.secList.entries := by
  intro l hl
  have hflows : Flows oss.label rlbl := ((hreader.permission_iff hb mask).1 hread).1 hmask
  exact hflows.1 l (h.secrecy l hl)

/-- **Labeled creation stays between the task's label and its capabilities.**  The hook refuses
with `-EPERM` and leaves the inode's label, or it stores the requested label, or that of the task
if none is requested; what it stores is within the rule, and a reader of the inode has every
secrecy label of its creator. -/
theorem labeledCreation_between (current : Task) {tsec : TaskSecurityStruct}
    (hsec : current.security = some tsec) (hb : tsec.label.Bounded) (lbl : Option LabelStruct)
    (hlbl : ∀ input, lbl = some input → input.Bounded) (isec : ObjectSecurityStruct)
    (req : XattrRequest) :
    ∃ n out value, difcInodeInitSecurity current (some isec) lbl req = .ok (n, some out, value) ∧
      (n = -ePerm → out = isec) ∧
      (lbl = none → n ≠ -ePerm ∧ out = { isec with label := tsec.label }) ∧
      (∀ input, lbl = some input → n ≠ -ePerm →
        out = { isec with label := input } ∧ Between tsec input) ∧
      (n ≠ -ePerm → ∀ reader rlbl mask, HasLabel reader rlbl → AsksRead mask →
        difcInodePermission reader (some out) mask = .ok 0 →
        ∀ l ∈ tsec.label.secList.entries, l ∈ rlbl.secList.entries) := by
  obtain ⟨accepted, hnew, hrule⟩ := newInodeLabel_spec hsec hb hlbl
  obtain ⟨n, out, value, hrun, hout⟩ := difcInodeInitSecurity_returns hsec hnew
    (fun label h => (hrule label h).2.1) isec req
  refine ⟨n, out, value, hrun, ?_⟩
  rcases hout with ⟨rfl, rfl, rfl⟩ | ⟨label, rfl, hn, rfl⟩
  · refine ⟨fun _ => rfl, fun h => ?_, fun _ _ h => absurd rfl h, fun h => absurd rfl h⟩
    -- without a request there is nothing to refuse
    subst h
    exact absurd (Except.ok.inj hnew) (by simp)
  · obtain ⟨hlabel, hbounded, hbetween⟩ := hrule label rfl
    refine ⟨fun h => absurd h hn, fun h => ?_, fun input h _ => ?_, fun _ => ?_⟩
    · subst h
      rw [hlabel]
      exact ⟨hn, rfl⟩
    · subst h
      obtain rfl : label = input := hlabel
      exact ⟨rfl, hbetween⟩
    · intro reader rlbl mask hreader hmask hread
      exact hbetween.reader hbounded hreader hmask hread

/-- The security structure of a task with the secrecy label 2 and the integrity label 5.  It may
add label 3 and give up label 5. -/
def author : TaskSecurityStruct :=
  ⟨⟨.ofLabels [2#64], .ofLabels [5#64]⟩,
    [⟨[3#64 ||| Sign.plus.wide, 5#64 ||| Sign.minus.wide], by decide⟩], [], false⟩

/-- The task creates an inode with the secrecy labels 2 and 3 and no integrity. -/
theorem author_creates :
    ∃ value, difcInodeInitSecurity ⟨1000, 1, some author⟩ (some ⟨.zero, 0⟩)
        (some ⟨.ofLabels [2#64, 3#64], .ofLabels []⟩) ⟨true, true, true, true⟩ =
          .ok (0, some ⟨⟨.ofLabels [2#64, 3#64], .ofLabels []⟩, 0⟩, value) ∧
      Between author ⟨.ofLabels [2#64, 3#64], .ofLabels []⟩ := by
  obtain ⟨n, out, value, hrun, -, -, hstored, -⟩ :=
    labeledCreation_between ⟨1000, 1, some author⟩ rfl (by decide)
      (some ⟨.ofLabels [2#64, 3#64], .ofLabels []⟩)
      (fun _ h => Option.some.inj h ▸ by decide) ⟨.zero, 0⟩ ⟨true, true, true, true⟩
  obtain rfl : 0 = n := congrArg (fun r => (r.toOption.map Prod.fst).getD 1) hrun
  obtain ⟨rfl, hbetween⟩ := hstored _ rfl (by decide)
  exact ⟨value, hrun, hbetween⟩

end Laminar.Kernel
