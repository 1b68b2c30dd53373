import Mathlib.Algebra.Group.Int.Defs
import Laminar.Kernel.Replace
import Laminar.Kernel.Xattr
import Laminar.Vm.LabelSet

/-!
# Label sets on their way to the kernel

Four native functions of the boot image runner copy a pair of label sets into a
`struct label_struct` and make a system call with it.  The machine is a 32-bit x86: an
element of the Java array has 8 bytes, the C type `long` has 4, and `label_t` has 8.

The C code indexes the Java array as an array of `long`, so element `i` of its loop is
half of label `i / 2`, and a cast extends the sign of that half.  The count it stores
is the number of labels, so only the first half of the labels is read.  Nothing
compares the count with the size of the array it is written behind.

`received` is the list of labels that arrives, `received_iff_passable` says for which
sets these are the labels of the set, and `passesLabels_iff` says when a call keeps its
contract.
-/

namespace Laminar.Vm

open Laminar.Lib Laminar.Kernel

/-! ## The native functions -/

/-- `getLongLabels()`, as the memory C code sees: the labels of the set, then the part
of the array the set does not use. -/
def getLongLabels (set : LabelSet) (slack : List Label) : List Byte :=
  encodeWords 8 ((set.labels ++ slack).map Int64.toBitVec)

/-- `set[i]`, for `long set[]`. -/
def longAt (set : List Byte) (i : Nat) : Except Fault (BitVec 32) :=
  match headWord 4 (set.drop (4 * i)) with
  | some x => .ok x
  | none => .error .outOfBuffer

/-- `lbl.secList[idx] = x` or `lbl.intList[idx] = x`.  An index past the first list
reaches into the second one. -/
def storeWord (lbl : LabelStruct) (k : ListKind) (idx : Nat) (x : LabelT) :
    Except Fault LabelStruct :=
  let pos := k.offset + idx
  if pos < labelListLabels then
    .ok { lbl with secList := lbl.secList.setIfInBounds pos x }
  else if pos < 2 * labelListLabels then
    .ok { lbl with intList := lbl.intList.setIfInBounds (pos - labelListLabels) x }
  else .error .outOfStruct

/-- `for(i=0;i<len;i++) list[i+1]=(label_t)set[i];` -/
def copyLabels (set : List Byte) (len : Nat) (k : ListKind) (lbl : LabelStruct) :
    Except Fault LabelStruct :=
  (List.range len).foldlM
    (fun lbl i => do
      let x ← longAt set i
      storeWord lbl k (i + 1) (x.signExtend 64))
    lbl

/-- The count of one list and the loop behind it. -/
def fillList (set : List Byte) (len : Nat) (k : ListKind) (lbl : LabelStruct) :
    Except Fault LabelStruct := do
  let lbl ← storeWord lbl k 0 (BitVec.ofNat 64 len)
  copyLabels set len k lbl

/-- The part the four functions share.  `lbl` is the local variable, with whatever the
stack held. -/
def fillLabel (secrecySet : List Byte) (secLen : Nat) (integritySet : List Byte)
    (intLen : Nat) (lbl : LabelStruct) : Except Fault LabelStruct := do
  let lbl ← fillList secrecySet secLen .sec lbl
  fillList integritySet intLen .int lbl

/-- The system calls, with their arguments. -/
inductive SystemCall
  | setTaskLabel (label : LabelT) (op labelType : Int) (ulabel : LabelStruct)
  | replaceLabelTcb (label : LabelStruct)
  | mkdirLabeled (pathname : List Byte) (mode : Int) (label : LabelStruct)
  | createLabeled (pathname : List Byte) (mode : Int) (label : LabelStruct)

/-- The structure a system call hands to the kernel. -/
def SystemCall.label : SystemCall → LabelStruct
  | .setTaskLabel _ _ _ ulabel => ulabel
  | .replaceLabelTcb label => label
  | .mkdirLabeled _ _ label => label
  | .createLabeled _ _ label => label

/-- The kernel's answer is an error number. -/
def IsError (answer : Int) : Prop := -4095 ≤ answer ∧ answer < 0

instance (answer : Int) : Decidable (IsError answer) :=
  inferInstanceAs (Decidable (-4095 ≤ answer ∧ answer < 0))

/-- `rv ? -errno : 0`.  The C library turns an error number into `-1` and `errno`, which
the callers have cleared. -/
def resultOf (answer : Int) : Int :=
  let (rv, errno) := if IsError answer then (-1, -answer) else (answer, 0)
  if rv ≠ 0 then -errno else 0

/-- `sysPassLabels`. -/
def sysPassLabels (secrecySet : List Byte) (secLen : Nat) (integritySet : List Byte)
    (intLen : Nat) (stack : LabelStruct) (answer : Int) :
    Except Fault (SystemCall × Int) := do
  let curLabel ← fillLabel secrecySet secLen integritySet intLen stack
  return (.setTaskLabel 0#64 labelOpReplace 0 curLabel, resultOf answer)

/-- `sysReplaceLabelsTCB`. -/
def sysReplaceLabelsTCB (secrecySet : List Byte) (secLen : Nat) (integritySet : List Byte)
    (intLen : Nat) (stack : LabelStruct) (answer : Int) :
    Except Fault (SystemCall × Int) := do
  let curLabel ← fillLabel secrecySet secLen integritySet intLen stack
  return (.replaceLabelTcb curLabel, resultOf answer)

/-- `sysCreateLabeledDirectory`. -/
def sysCreateLabeledDirectory (pname : List Byte) (mode : Int) (secrecySet : List Byte)
    (secLen : Nat) (integritySet : List Byte) (intLen : Nat) (stack : LabelStruct)
    (answer : Int) : Except Fault (SystemCall × Int) := do
  let dirLabel ← fillLabel secrecySet secLen integritySet intLen stack
  return (.mkdirLabeled pname mode dirLabel, resultOf answer)

/-- `sysCreateLabeledFile`. -/
def sysCreateLabeledFile (pname : List Byte) (mode : Int) (secrecySet : List Byte)
    (secLen : Nat) (integritySet : List Byte) (intLen : Nat) (stack : LabelStruct)
    (answer : Int) : Except Fault (SystemCall × Int) := do
  let dirLabel ← fillLabel secrecySet secLen integritySet intLen stack
  return (.createLabeled pname mode dirLabel, resultOf answer)

/-- The four functions, with the arguments that are not label sets. -/
inductive LabelPasser
  | sysPassLabels
  | sysReplaceLabelsTCB
  | sysCreateLabeledDirectory (pname : List Byte) (mode : Int)
  | sysCreateLabeledFile (pname : List Byte) (mode : Int)

/-- A call from the virtual machine: `(getLongLabels(), len)` of two sets.  `slackS` and
`slackI` are the unused ends of their arrays. -/
def LabelPasser.call (f : LabelPasser) (S I : LabelSet) (slackS slackI : List Label)
    (stack : LabelStruct) (answer : Int) : Except Fault (SystemCall × Int) :=
  let secrecySet := getLongLabels S slackS
  let integritySet := getLongLabels I slackI
  let secLen := S.labels.length
  let intLen := I.labels.length
  match f with
  | .sysPassLabels =>
      Vm.sysPassLabels secrecySet secLen integritySet intLen stack answer
  | .sysReplaceLabelsTCB =>
      Vm.sysReplaceLabelsTCB secrecySet secLen integritySet intLen stack answer
  | .sysCreateLabeledDirectory pname mode =>
      Vm.sysCreateLabeledDirectory pname mode secrecySet secLen integritySet intLen stack answer
  | .sysCreateLabeledFile pname mode =>
      Vm.sysCreateLabeledFile pname mode secrecySet secLen integritySet intLen stack answer

/-! ## What is read -/

/-- The two `long`s a label is read as, the low one first. -/
def halves (l : Label) : List (BitVec 32) :=
  [l.toBitVec.setWidth 32, (l.toBitVec >>> 32).setWidth 32]

/-- The labels that arrive for a list of labels. -/
def received (labels : List Label) : List LabelT :=
  ((labels.flatMap halves).take labels.length).map (BitVec.signExtend 64)

theorem length_flatMap_halves (labels : List Label) :
    (labels.flatMap halves).length = 2 * labels.length := by
  induction labels with
  | nil => rfl
  | cons l labels ih =>
      rw [List.flatMap_cons, List.length_append, ih, List.length_cons]
      show 2 + 2 * labels.length = 2 * (labels.length + 1)
      omega

theorem length_received (labels : List Label) :
    (received labels).length = labels.length := by
  rw [received, List.length_map, List.length_take, length_flatMap_halves]
  omega

/-- The bytes of a label are the bytes of its halves. -/
private theorem leBytes_halves (l : Label) :
    leBytes 8 l.toBitVec.toNat = encodeWords 4 (halves l) := by
  have hlow : leBytes 4 l.toBitVec.toNat = leBytes 4 (l.toBitVec.setWidth 32).toNat := by
    rw [BitVec.toNat_setWidth]
    simp only [leBytes, List.cons.injEq, and_true]
    refine ⟨?_, ?_, ?_, ?_⟩ <;> apply BitVec.eq_of_toNat_eq <;>
      simp only [BitVec.toNat_ofNat] <;> omega
  have hhigh : leBytes 4 (l.toBitVec.toNat / (2 ^ 8) ^ 4) =
      leBytes 4 ((l.toBitVec >>> 32).setWidth 32).toNat := by
    have hlt : l.toBitVec.toNat / 2 ^ 32 < 2 ^ 32 := by
      have := l.toBitVec.isLt
      omega
    rw [BitVec.toNat_setWidth, BitVec.toNat_ushiftRight, Nat.shiftRight_eq_div_pow,
      Nat.mod_eq_of_lt hlt]
    rfl
  rw [show (8 : Nat) = 4 + 4 from rfl, leBytes_add, hlow, hhigh]
  show _ = leBytes 4 _ ++ (leBytes 4 _ ++ [])
  rw [List.append_nil]

theorem getLongLabels_eq (set : LabelSet) (slack : List Label) :
    getLongLabels set slack = encodeWords 4 ((set.labels ++ slack).flatMap halves) := by
  rw [getLongLabels]
  induction set.labels ++ slack with
  | nil => rfl
  | cons l labels ih =>
      rw [List.map_cons, encodeWords_cons, ih, List.flatMap_cons, encodeWords_append,
        leBytes_halves]

theorem longAt_getLongLabels (set : LabelSet) (slack : List Label) {i : Nat}
    (hi : i < (set.labels.flatMap halves).length) :
    longAt (getLongLabels set slack) i = .ok (set.labels.flatMap halves)[i] := by
  have hi' : i < ((set.labels ++ slack).flatMap halves).length := by
    rw [List.flatMap_append, List.length_append]
    omega
  have hget : ((set.labels ++ slack).flatMap halves)[i] = (set.labels.flatMap halves)[i] := by
    simp only [List.flatMap_append, List.getElem_append_left hi]
  rw [longAt, getLongLabels_eq, headWord_drop_encodeWords _ _ hi', hget]

/-! ## What is written -/

private theorem storeWord_below (lbl : LabelStruct) (k : ListKind) {idx : Nat}
    (h : idx < labelListLabels) (x : LabelT) :
    storeWord lbl k idx x = .ok (lbl.setList k ((lbl.list k).set idx x h)) := by
  cases k with
  | sec =>
      rw [storeWord, ListKind.offset, Nat.zero_add, if_pos h]
      simp [LabelStruct.setList, LabelStruct.list, Vector.setIfInBounds, Array.setIfInBounds, h]
  | int =>
      rw [storeWord, ListKind.offset, if_neg (by omega), if_pos (by omega)]
      simp [LabelStruct.setList, LabelStruct.list, Vector.setIfInBounds, Array.setIfInBounds, h]

private theorem storeWord_within (lbl : LabelStruct) (k : ListKind) {idx : Nat}
    (h : k.offset + idx < 2 * labelListLabels) (x : LabelT) :
    ∃ lbl', storeWord lbl k idx x = .ok lbl' := by
  dsimp only [storeWord]
  by_cases hfirst : k.offset + idx < labelListLabels
  · exact ⟨_, if_pos hfirst⟩
  · rw [if_neg hfirst, if_pos h]
    exact ⟨_, rfl⟩

private theorem storeWord_beyond (lbl : LabelStruct) (k : ListKind) {idx : Nat}
    (h : 2 * labelListLabels ≤ k.offset + idx) (x : LabelT) :
    storeWord lbl k idx x = .error .outOfStruct := by
  rw [storeWord, if_neg (by omega), if_neg (by omega)]

section Loop

variable {set : List Byte} {xs : List (BitVec 32)}
  (hread : ∀ i (hi : i < xs.length), longAt set i = .ok xs[i])

include hread

/-- One more round of the loop. -/
private theorem copyLabels_succ {n : Nat} (hn : n < xs.length) (k : ListKind)
    (lbl : LabelStruct) :
    copyLabels set (n + 1) k lbl =
      copyLabels set n k lbl >>= fun lbl' => storeWord lbl' k (n + 1) (xs[n].signExtend 64) := by
  rw [copyLabels, copyLabels, List.range_succ, List.foldlM_append]
  congr 1
  funext lbl'
  simp only [List.foldlM_cons, List.foldlM_nil, hread n hn, bind_pure]
  rfl

private theorem copyLabels_within (k : ListKind) (lbl : LabelStruct) (n : Nat)
    (hn : n ≤ xs.length) (hfit : k.offset + n < 2 * labelListLabels) :
    ∃ lbl', copyLabels set n k lbl = .ok lbl' := by
  induction n with
  | zero => exact ⟨lbl, rfl⟩
  | succ n ih =>
      obtain ⟨lbl', hlbl'⟩ := ih (by omega) (by omega)
      rw [copyLabels_succ hread hn, hlbl']
      exact storeWord_within lbl' k hfit _

private theorem copyLabels_beyond (k : ListKind) (lbl : LabelStruct) (n : Nat)
    (hn : n ≤ xs.length) (hfit : 2 * labelListLabels ≤ k.offset + n) :
    copyLabels set n k lbl = .error .outOfStruct := by
  induction n with
  | zero => cases k <;> exact absurd hfit (by decide)
  | succ n ih =>
      rw [copyLabels_succ hread hn]
      by_cases hbefore : 2 * labelListLabels ≤ k.offset + n
      · rw [ih (by omega) hbefore]
        rfl
      · -- the first store past the structure
        obtain ⟨lbl', hlbl'⟩ := copyLabels_within hread k lbl n (by omega) (by omega)
        rw [hlbl']
        exact storeWord_beyond lbl' k hfit _

/-- While the count fits, a loop writes its own list, behind the count. -/
private theorem copyLabels_below (k : ListKind) (lbl : LabelStruct) (n : Nat)
    (hn : n ≤ xs.length) (hfit : n ≤ labelListMaxEntries) :
    ∃ l : LabelList, copyLabels set n k lbl = .ok (lbl.setList k l) ∧
      l[0] = (lbl.list k)[0] ∧
      ∀ i (hi : i < n) (hi' : i + 1 < 32), l[i + 1] = xs[i].signExtend 64 := by
  induction n with
  | zero =>
      refine ⟨lbl.list k, ?_, rfl, fun i hi => absurd hi (Nat.not_lt_zero i)⟩
      rw [LabelStruct.setList_list]
      rfl
  | succ n ih =>
      obtain ⟨l, hl, hcount, hwords⟩ := ih (by omega) (Nat.le_of_succ_le hfit)
      have hlt : n + 1 < labelListLabels := Nat.lt_succ_of_le hfit
      refine ⟨l.set (n + 1) (xs[n].signExtend 64) hlt, ?_, ?_, ?_⟩
      · rw [copyLabels_succ hread hn, hl]
        show storeWord (lbl.setList k l) k (n + 1) _ = _
        rw [storeWord_below _ _ hlt, LabelStruct.list_setList_self]
        cases k <;> rfl
      · rw [← hcount]
        simp
      · intro i hi hi'
        by_cases hlast : i = n
        · subst hlast
          simp
        · rw [Vector.getElem_set_ne _ _ (by omega)]
          exact hwords i (by omega) hi'

end Loop

section Fill

variable (set : LabelSet) (slack : List Label) (k : ListKind) (lbl : LabelStruct)

/-- A list with room for the labels receives them, and the other list is left alone. -/
theorem fillList_below (hfit : set.labels.length ≤ labelListMaxEntries) :
    ∃ l : LabelList,
      fillList (getLongLabels set slack) set.labels.length k lbl = .ok (lbl.setList k l) ∧
      l.Bounded ∧ l.entries = received set.labels := by
  have hlen : set.labels.length ≤ 31 := hfit
  have hhalves := length_flatMap_halves set.labels
  obtain ⟨l, hl, hcount, hwords⟩ := copyLabels_below
    (fun i hi => longAt_getLongLabels set slack hi) k
    (lbl.setList k ((lbl.list k).set 0 (BitVec.ofNat 64 set.labels.length)))
    set.labels.length (by omega) hfit
  have hcount' : l.count = set.labels.length := by
    rw [LabelList.count, hcount, LabelStruct.list_setList_self]
    simp only [Vector.getElem_set_self, BitVec.toNat_ofNat]
    omega
  have hbounded : l.Bounded := by
    show l.count ≤ 31
    omega
  refine ⟨l, ?_, hbounded, ?_⟩
  · rw [fillList, storeWord_below _ _ (by decide)]
    show copyLabels _ _ _ _ = _
    rw [hl]
    cases k <;> rfl
  · apply LabelList.entries_ext hbounded
    · rw [length_received, hcount']
    · intro i hi hi'
      rw [length_received] at hi
      rw [hwords i hi hi']
      simp [received]

theorem fillList_within (hfit : k.offset + set.labels.length < 2 * labelListLabels) :
    ∃ lbl', fillList (getLongLabels set slack) set.labels.length k lbl = .ok lbl' := by
  have hhalves := length_flatMap_halves set.labels
  rw [fillList, storeWord_below _ _ (by decide)]
  exact copyLabels_within (fun i hi => longAt_getLongLabels set slack hi) _ _ _ (by omega) hfit

theorem fillList_beyond (hfit : 2 * labelListLabels ≤ k.offset + set.labels.length) :
    fillList (getLongLabels set slack) set.labels.length k lbl = .error .outOfStruct := by
  have hhalves := length_flatMap_halves set.labels
  rw [fillList, storeWord_below _ _ (by decide)]
  exact copyLabels_beyond (fun i hi => longAt_getLongLabels set slack hi) _ _ _ (by omega) hfit

end Fill

/-! ## Which sets arrive -/

/-- The label is a value of a 32-bit `long`. -/
def Fits (l : Label) : Prop := -2 ^ 31 ≤ l.toInt ∧ l.toInt < 2 ^ 31

instance (l : Label) : Decidable (Fits l) :=
  inferInstanceAs (Decidable (-2 ^ 31 ≤ l.toInt ∧ l.toInt < 2 ^ 31))

/-- The sets that arrive: all labels fit, and there is at most one, or there are at most
three and the greatest is `-1`. -/
def Passable (set : LabelSet) : Prop :=
  (∀ l ∈ set.labels, Fits l) ∧
    (set.labels.length ≤ 1 ∨ set.labels.length ≤ 3 ∧ set.labels.getLast? = some (-1))

instance (set : LabelSet) : Decidable (Passable set) :=
  @instDecidableAnd _ _ (List.decidableBAll Fits set.labels) inferInstance

/-- `(label_t)` of a `long`, as a label. -/
def widen (x : BitVec 32) : Label := Int64.ofBitVec (x.signExtend 64)

theorem toInt_widen (x : BitVec 32) : (widen x).toInt = x.toInt := by
  show (x.signExtend 64).toInt = x.toInt
  exact BitVec.toInt_signExtend_of_le (by decide)

theorem widen_fits (x : BitVec 32) : Fits (widen x) := by
  have hlow := BitVec.le_toInt x
  have hhigh := BitVec.toInt_lt (x := x)
  rw [Fits, toInt_widen]
  omega

private theorem toInt_low (x : LabelT) (hlow : -2 ^ 31 ≤ x.toInt) (hhigh : x.toInt < 2 ^ 31) :
    (x.setWidth 32).toInt = x.toInt := by
  have hx := x.isLt
  rw [BitVec.toInt_eq_toNat_cond] at hlow hhigh ⊢
  rw [BitVec.toInt_eq_toNat_cond, BitVec.toNat_setWidth]
  split <;> split at hlow <;> omega

private theorem toInt_high (x : LabelT) :
    ((x >>> 32).setWidth 32).toInt = x.toInt / 2 ^ 32 := by
  have hx := x.isLt
  rw [BitVec.toInt_eq_toNat_cond, BitVec.toInt_eq_toNat_cond, BitVec.toNat_setWidth,
    BitVec.toNat_ushiftRight, Nat.shiftRight_eq_div_pow]
  split <;> split <;> omega

/-- A label that fits is read as itself, followed by its sign. -/
theorem widen_halves {l : Label} (h : Fits l) :
    (halves l).map widen = [l, if l.toInt < 0 then -1 else 0] := by
  have hlow : widen (l.toBitVec.setWidth 32) = l := by
    apply Int64.toInt_inj.1
    rw [toInt_widen]
    exact toInt_low _ h.1 h.2
  have hhigh : widen ((l.toBitVec >>> 32).setWidth 32) = if l.toInt < 0 then -1 else 0 := by
    apply Int64.toInt_inj.1
    rw [toInt_widen, toInt_high]
    have hsign : l.toBitVec.toInt = l.toInt := rfl
    have h1 := h.1
    have h2 := h.2
    rw [hsign]
    split
    · show _ = (-1 : Int)
      omega
    · show _ = (0 : Int)
      omega
  rw [halves, List.map_cons, List.map_cons, List.map_nil, hlow, hhigh]

/-- The labels that arrive, as labels. -/
private def receivedLabels (labels : List Label) : List Label :=
  ((labels.flatMap halves).map widen).take labels.length

private theorem received_eq (labels : List Label) :
    received labels = (receivedLabels labels).map Int64.toBitVec := by
  rw [received, receivedLabels, List.map_take, List.map_take, List.map_map]
  rfl

private theorem flatMap_widen {labels : List Label} (h : ∀ l ∈ labels, Fits l) :
    (labels.flatMap halves).map widen =
      labels.flatMap fun l => [l, if l.toInt < 0 then -1 else 0] := by
  rw [List.map_flatMap, List.flatMap_def, List.flatMap_def,
    List.map_congr_left fun l hl => widen_halves (h l hl)]

/-- What stands in the first `n` places comes from the first half of the labels. -/
private theorem mem_take_flatMap_pair {f : Label → Label} {x : Label} :
    ∀ (labels : List Label) (n : Nat), x ∈ (labels.flatMap fun l => [l, f l]).take n →
      ∃ j, ∃ hj : j < labels.length, 2 * j < n ∧ (x = labels[j] ∨ x = f labels[j]) := by
  intro labels
  induction labels with
  | nil =>
      intro n hx
      simp at hx
  | cons l labels ih =>
      intro n hx
      match n with
      | 0 => simp at hx
      | 1 =>
          simp only [List.flatMap_cons, List.cons_append, List.take_succ_cons, List.take_zero,
            List.mem_singleton] at hx
          exact ⟨0, Nat.succ_pos _, Nat.one_pos, .inl hx⟩
      | n + 2 =>
          simp only [List.flatMap_cons, List.cons_append, List.nil_append, List.take_succ_cons,
            List.mem_cons] at hx
          rcases hx with hx | hx | hx
          · exact ⟨0, Nat.succ_pos _, Nat.succ_pos _, .inl hx⟩
          · exact ⟨0, Nat.succ_pos _, Nat.succ_pos _, .inr hx⟩
          · obtain ⟨j, hj, hjn, hval⟩ := ih n hx
            exact ⟨j + 1, Nat.succ_lt_succ hj, by omega, hval⟩

/-- A label too far back to be read is only there if it is the sign of another one. -/
private theorem eq_neg_one_of_unread {set : LabelSet} (hfits : ∀ l ∈ set.labels, Fits l)
    (hall : ∀ l ∈ set.labels, l ∈ receivedLabels set.labels) {m : Nat}
    (hm : m < set.labels.length) (hunread : ∀ j, 2 * j < set.labels.length → j < m) :
    set.labels[m] = -1 := by
  have hmem := hall _ (List.getElem_mem hm)
  rw [receivedLabels, flatMap_widen hfits] at hmem
  obtain ⟨j, hj, hjn, hval⟩ := mem_take_flatMap_pair _ _ hmem
  have hlt : set.labels[j] < set.labels[m] :=
    List.pairwise_iff_getElem.1 set.sorted j m hj hm (hunread j hjn)
  have hltInt := Int64.lt_iff_toInt_lt.1 hlt
  rcases hval with hval | hval
  · exact absurd (congrArg Int64.toInt hval) (by omega)
  · -- the sign of a smaller label is smaller than 0
    split at hval
    · exact hval
    · rw [hval] at hltInt
      rename_i hneg
      exact absurd hltInt hneg

private theorem passable_of_received {set : LabelSet}
    (h : ∀ l, l ∈ receivedLabels set.labels ↔ l ∈ set.labels) : Passable set := by
  have hfits : ∀ l ∈ set.labels, Fits l := by
    intro l hl
    have hmem := List.mem_of_mem_take ((h l).2 hl)
    obtain ⟨x, _, rfl⟩ := List.mem_map.1 hmem
    exact widen_fits x
  have hall := fun l hl => (h l).2 hl
  refine ⟨hfits, ?_⟩
  by_cases hone : set.labels.length ≤ 1
  · exact .inl hone
  have hlast : set.labels.length - 1 < set.labels.length := by omega
  have hmax : set.labels[set.labels.length - 1] = -1 :=
    eq_neg_one_of_unread hfits hall hlast fun j hj => by omega
  refine .inr ⟨?_, ?_⟩
  · -- with four labels the last two would both be -1
    apply Nat.le_of_not_lt
    intro hfour
    have hprev : set.labels.length - 2 < set.labels.length := by omega
    have hnext : set.labels[set.labels.length - 2] = -1 :=
      eq_neg_one_of_unread hfits hall hprev fun j hj => by omega
    have hlt := List.pairwise_iff_getElem.1 set.sorted _ _ hprev hlast (by omega)
    rw [hmax, hnext] at hlt
    exact absurd hlt (by decide)
  · rw [List.getLast?_eq_getElem?, List.getElem?_eq_getElem hlast, hmax]

private theorem toInt_neg_of_lt_neg_one {l : Label} (h : l < -1) : l.toInt < 0 := by
  have := Int64.lt_iff_toInt_lt.1 h
  rw [show Int64.toInt (-1) = -1 from rfl] at this
  omega

private theorem received_of_passable {set : LabelSet} (h : Passable set) (l : Label) :
    l ∈ receivedLabels set.labels ↔ l ∈ set.labels := by
  obtain ⟨hfits, hshape⟩ := h
  have hsorted : set.labels.Pairwise (· < ·) := set.sorted
  rw [receivedLabels, flatMap_widen hfits]
  match hlabels : set.labels with
  | [] => simp
  | [a] => simp
  | [a, b] =>
      rw [hlabels] at hsorted hshape
      obtain rfl : b = -1 := by simpa using hshape
      have hneg := toInt_neg_of_lt_neg_one (List.rel_of_pairwise_cons hsorted List.mem_cons_self)
      simp [hneg]
  | [a, b, c] =>
      rw [hlabels] at hsorted hshape
      obtain rfl : c = -1 := by simpa using hshape
      have hneg := toInt_neg_of_lt_neg_one (List.rel_of_pairwise_cons hsorted
        (List.mem_cons_of_mem _ List.mem_cons_self))
      simp [hneg, Or.comm]
  | a :: b :: c :: d :: rest =>
      rw [hlabels] at hshape
      simp only [List.length_cons] at hshape
      omega

/-- An array denotes a set: its count fits, and its labels are those of the set. -/
def Denotes (list : LabelList) (set : LabelSet) : Prop :=
  list.Bounded ∧ ∀ x, x ∈ list.entries ↔ ∃ l ∈ set, l.toBitVec = x

/-- Which sets arrive as themselves. -/
theorem denotes_iff_passable {list : LabelList} {set : LabelSet} (hbounded : list.Bounded)
    (hentries : list.entries = received set.labels) :
    Denotes list set ↔ Passable set := by
  have hmem : ∀ l : Label, l.toBitVec ∈ received set.labels ↔ l ∈ receivedLabels set.labels := by
    intro l
    rw [received_eq, List.mem_map]
    constructor
    · rintro ⟨l', hl', heq⟩
      rwa [← Int64.toBitVec_inj.1 heq]
    · intro hl
      exact ⟨l, hl, rfl⟩
  rw [Denotes, hentries]
  constructor
  · intro h
    apply passable_of_received
    intro l
    rw [← hmem, h.2]
    constructor
    · rintro ⟨l', hl', heq⟩
      rwa [← Int64.toBitVec_inj.1 heq]
    · intro hl
      exact ⟨l, hl, rfl⟩
  · intro h
    refine ⟨hbounded, ?_⟩
    intro x
    rw [received_eq, List.mem_map]
    simp only [received_of_passable h, LabelSet.mem_def]

/-- Two sets with room for their labels arrive if they are passable. -/
theorem fillLabel_below (S I : LabelSet) (slackS slackI : List Label) (stack : LabelStruct)
    (hS : S.labels.length ≤ labelListMaxEntries)
    (hI : I.labels.length ≤ labelListMaxEntries) :
    ∃ ls li, fillLabel (getLongLabels S slackS) S.labels.length (getLongLabels I slackI)
        I.labels.length stack = .ok ⟨ls, li⟩ ∧
      (Denotes ls S ↔ Passable S) ∧ (Denotes li I ↔ Passable I) := by
  obtain ⟨ls, hls, hlsBounded, hlsEntries⟩ := fillList_below S slackS .sec stack hS
  obtain ⟨li, hli, hliBounded, hliEntries⟩ :=
    fillList_below I slackI .int (stack.setList .sec ls) hI
  refine ⟨ls, li, ?_, denotes_iff_passable hlsBounded hlsEntries,
    denotes_iff_passable hliBounded hliEntries⟩
  rw [fillLabel, hls]
  exact hli

theorem Passable.length_le {set : LabelSet} (h : Passable set) :
    set.labels.length ≤ labelListMaxEntries := by
  show set.labels.length ≤ 31
  rcases h.2 with hlen | hlen
  · omega
  · omega

/-! ## The contract of a call -/

/-- A call keeps its contract: sets of at most `LABEL_LIST_MAX_ENTRIES` labels reach the
kernel as they are, and with more the call fails without a write outside the structure. -/
def PassesLabels (S I : LabelSet) (outcome : Except Fault (SystemCall × Int)) : Prop :=
  ∃ request result, outcome = .ok (request, result) ∧
    if S.labels.length ≤ labelListMaxEntries ∧ I.labels.length ≤ labelListMaxEntries then
      Denotes request.label.secList S ∧ Denotes request.label.intList I
    else result ≠ 0

theorem resultOf_ne_zero {answer : Int} : resultOf answer ≠ 0 ↔ IsError answer := by
  unfold resultOf
  by_cases h : IsError answer
  · have hneg : answer ≠ 0 := Int.ne_of_lt h.2
    simp [h, hneg]
  · simp [h]

/-- The functions differ only in the system call they make. -/
private theorem call_eq_ok (f : LabelPasser) (S I : LabelSet) (slackS slackI : List Label)
    (stack : LabelStruct) (answer : Int) {lbl : LabelStruct}
    (h : fillLabel (getLongLabels S slackS) S.labels.length (getLongLabels I slackI)
      I.labels.length stack = .ok lbl) :
    ∃ request, f.call S I slackS slackI stack answer = .ok (request, resultOf answer) ∧
      request.label = lbl := by
  cases f <;>
    simp only [LabelPasser.call, sysPassLabels, sysReplaceLabelsTCB, sysCreateLabeledDirectory,
      sysCreateLabeledFile, h] <;>
    exact ⟨_, rfl, rfl⟩

private theorem call_eq_error (f : LabelPasser) (S I : LabelSet) (slackS slackI : List Label)
    (stack : LabelStruct) (answer : Int) {e : Fault}
    (h : fillLabel (getLongLabels S slackS) S.labels.length (getLongLabels I slackI)
      I.labels.length stack = .error e) :
    f.call S I slackS slackI stack answer = .error e := by
  cases f <;>
    simp only [LabelPasser.call, sysPassLabels, sysReplaceLabelsTCB, sysCreateLabeledDirectory,
      sysCreateLabeledFile, h] <;>
    rfl

section Contract

variable (f : LabelPasser) (S I : LabelSet) (slackS slackI : List Label)
  (stack : LabelStruct) (answer : Int)

/-- Two sets with room for their labels. -/
private theorem call_below (hS : S.labels.length ≤ labelListMaxEntries)
    (hI : I.labels.length ≤ labelListMaxEntries) :
    PassesLabels S I (f.call S I slackS slackI stack answer) ↔ Passable S ∧ Passable I := by
  obtain ⟨ls, li, hfill, hsec, hint⟩ := fillLabel_below S I slackS slackI stack hS hI
  obtain ⟨request, hcall, hlabel⟩ := call_eq_ok f S I slackS slackI stack answer hfill
  rw [← hsec, ← hint, PassesLabels, hcall]
  constructor
  · rintro ⟨request', result, heq, hpost⟩
    cases heq
    rw [if_pos ⟨hS, hI⟩, hlabel] at hpost
    exact hpost
  · intro hpost
    refine ⟨request, _, rfl, ?_⟩
    rw [if_pos ⟨hS, hI⟩, hlabel]
    exact hpost

/-- Too many integrity labels overrun the structure. -/
private theorem call_beyond_int (hI : labelListMaxEntries < I.labels.length) :
    ¬ PassesLabels S I (f.call S I slackS slackI stack answer) := by
  have herror : ∃ e, fillLabel (getLongLabels S slackS) S.labels.length
      (getLongLabels I slackI) I.labels.length stack = .error e := by
    rw [fillLabel]
    cases hfirst : fillList (getLongLabels S slackS) S.labels.length .sec stack with
    | error e => exact ⟨e, rfl⟩
    | ok lbl =>
        refine ⟨.outOfStruct, fillList_beyond I slackI .int lbl ?_⟩
        show 64 ≤ 32 + I.labels.length
        have : 31 < I.labels.length := hI
        omega
  obtain ⟨e, he⟩ := herror
  rintro ⟨request, result, heq, _⟩
  rw [call_eq_error f S I slackS slackI stack answer he] at heq
  cases heq

/-- Too many secrecy labels spill into the integrity list, which is written
afterwards, or overrun the structure. -/
private theorem call_beyond_sec (hS : labelListMaxEntries < S.labels.length)
    (hI : I.labels.length ≤ labelListMaxEntries) :
    PassesLabels S I (f.call S I slackS slackI stack answer) ↔
      S.labels.length < 2 * labelListLabels ∧ IsError answer := by
  have hmany : ¬ (S.labels.length ≤ labelListMaxEntries ∧
      I.labels.length ≤ labelListMaxEntries) := fun h => Nat.not_le_of_lt hS h.1
  by_cases hfit : S.labels.length < 2 * labelListLabels
  · obtain ⟨lbl, hlbl⟩ :=
      fillList_within S slackS .sec stack (by simpa [ListKind.offset] using hfit)
    obtain ⟨li, hli, -, -⟩ := fillList_below I slackI .int lbl hI
    have hfill : fillLabel (getLongLabels S slackS) S.labels.length (getLongLabels I slackI)
        I.labels.length stack = .ok (lbl.setList .int li) := by
      rw [fillLabel, hlbl]
      exact hli
    obtain ⟨request, hcall, -⟩ := call_eq_ok f S I slackS slackI stack answer hfill
    rw [← resultOf_ne_zero, PassesLabels, hcall]
    constructor
    · rintro ⟨request', result, heq, hpost⟩
      cases heq
      rw [if_neg hmany] at hpost
      exact ⟨hfit, hpost⟩
    · intro hpost
      refine ⟨request, _, rfl, ?_⟩
      rw [if_neg hmany]
      exact hpost.2
  · have hover : 2 * labelListLabels ≤ ListKind.sec.offset + S.labels.length := by
      rw [ListKind.offset, Nat.zero_add]
      exact Nat.le_of_not_lt hfit
    have hfill : fillLabel (getLongLabels S slackS) S.labels.length (getLongLabels I slackI)
        I.labels.length stack = .error .outOfStruct := by
      rw [fillLabel, fillList_beyond S slackS .sec stack hover]
      rfl
    rw [call_eq_error f S I slackS slackI stack answer hfill]
    constructor
    · rintro ⟨request, result, heq, _⟩
      cases heq
    · intro h
      exact absurd h.1 hfit

end Contract

/-- **When a call keeps its contract**: both sets are passable, or there are too many
secrecy labels, they still end inside the structure, the integrity labels fit and the
kernel refuses the label it is given. -/
theorem passesLabels_iff (f : LabelPasser) (S I : LabelSet) (slackS slackI : List Label)
    (stack : LabelStruct) (answer : Int) :
    PassesLabels S I (f.call S I slackS slackI stack answer) ↔
      (Passable S ∧ Passable I) ∨
        (31 < S.labels.length ∧ S.labels.length < 64 ∧ I.labels.length ≤ 31 ∧
          IsError answer) := by
  by_cases hI : I.labels.length ≤ 31
  · by_cases hS : S.labels.length ≤ 31
    · rw [call_below f S I slackS slackI stack answer hS hI]
      constructor
      · exact .inl
      · rintro (h | h)
        · exact h
        · omega
    · rw [call_beyond_sec f S I slackS slackI stack answer (Nat.lt_of_not_le hS) hI]
      constructor
      · intro h
        exact .inr ⟨Nat.lt_of_not_le hS, h.1, hI, h.2⟩
      · rintro (h | h)
        · exact absurd h.1.length_le hS
        · exact ⟨h.2.1, h.2.2.2⟩
  · constructor
    · intro h
      exact absurd h (call_beyond_int f S I slackS slackI stack answer (Nat.lt_of_not_le hI))
    · rintro (h | h)
      · exact absurd h.2.length_le hI
      · exact absurd h.2.2.1 hI

/-- The secrecy set `{5, 7}` arrives as `{5, LABEL_TCB}`. -/
theorem not_passesLabels_five_seven :
    let S := LabelSet.unionLabel (LabelSet.getLabelSet 5) 7
    let outcome := LabelPasser.sysPassLabels.call S .empty [] [] .zero 0
    ¬ PassesLabels S .empty outcome ∧
      outcome.toOption.map (fun sent => (sent.1.label.secList.entries, sent.2)) =
        some ([5#64, labelTcb], 0) := by
  intro S outcome
  constructor
  · rw [call_below .sysPassLabels S .empty [] [] .zero 0 (by decide +kernel)
      (by decide)]
    decide +kernel
  · decide +kernel

end Laminar.Vm
